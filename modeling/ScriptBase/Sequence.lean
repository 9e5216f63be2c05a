import ScriptBase.Fault

/-!
# Sequences

## Main definitions

* `ScriptBase.Sequence.total`: the sum of a sequence, from the left, without a start value.
* `ScriptBase.Sequence.enumerate`: the elements with their indices.
* `ScriptBase.Sequence.mapIndexed`: a function of index and element along a sequence.
-/

namespace ScriptBase.Sequence

variable {α β : Type}

/-- The sum of a sequence: its first element, to which the others are added in order. A sequence
without elements has none, since no start value is known. -/
def total (add : α → α → α) : List α → Except Fault α
  | [] => .error .emptySum
  | x :: xs => .ok (xs.foldl add x)

/-- The elements of a sequence with their indices, counted from `start`. -/
def enumerateFrom (start : Nat) : List α → List (Nat × α)
  | [] => []
  | x :: xs => (start, x) :: enumerateFrom (start + 1) xs

/-- The elements of a sequence with their indices, counted from zero. -/
def enumerate (xs : List α) : List (Nat × α) := enumerateFrom 0 xs

/-- The results of a function of index and element. -/
def mapIndexed (f : Nat → α → β) (xs : List α) : List β := (enumerate xs).map fun e => f e.1 e.2

@[simp] theorem total_nil (add : α → α → α) : total add [] = .error .emptySum := rfl

@[simp] theorem map_snd_enumerateFrom (start : Nat) (xs : List α) :
    (enumerateFrom start xs).map Prod.snd = xs := by
  induction xs generalizing start with
  | nil => rfl
  | cons x xs ih => simp [enumerateFrom, ih]

theorem map_fst_enumerateFrom (start : Nat) (xs : List α) :
    (enumerateFrom start xs).map Prod.fst = List.range' start xs.length := by
  induction xs generalizing start with
  | nil => rfl
  | cons x xs ih => simp [enumerateFrom, ih, List.range'_succ]

end ScriptBase.Sequence
