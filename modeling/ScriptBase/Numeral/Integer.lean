import ScriptBase.Fault

/-!
# Integers from texts

## Main definitions

* `ScriptBase.integerOf`: the integer that a text stands for, or the fault that it stands for none.
-/

namespace ScriptBase

/-- The integer that a text stands for. A text that is no integer literal is a fault, whatever is
wrong with it. -/
def integerOf (s : Text) : Except Fault Int64 :=
  match parseInteger s with
  | .ok n => .ok n
  | .error _ => .error (.invalidInteger s)

@[simp] theorem integerOf_eq_ok_iff {s : Text} {n : Int64} :
    integerOf s = .ok n ↔ parseInteger s = .ok n := by
  unfold integerOf
  cases parseInteger s <;> simp

end ScriptBase
