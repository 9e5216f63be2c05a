/-!
# Texts

A *text* is a finite sequence of bytes. Most texts hold UTF-8, but none has to: what a byte means
is decided where it is read (`ScriptBase.Text.decode`), and a byte that means nothing is kept.

## Main definitions

* `ScriptBase.Text`: the type of texts; a string literal is a text by its UTF-8 bytes.
* `ScriptBase.Text.throughNul`: the part of a text that a reader of NUL-terminated text sees.
* `ScriptBase.Text.joinWith`: texts in a row with a separator between them.
-/

namespace ScriptBase

/-- A finite sequence of bytes. -/
abbrev Text := List UInt8

namespace Text

/-- The UTF-8 bytes of a string. -/
def ofString (s : String) : Text := s.toUTF8.data.toList

instance : Coe String Text := ⟨ofString⟩

/-- The bytes before the first NUL byte, all of them if there is none. -/
def throughNul (s : Text) : Text := s.takeWhile (· != 0)

/-- The texts of a list one after another, with `separator` between neighbours. -/
def joinWith (separator : Text) : List Text → Text
  | [] => []
  | [s] => s
  | s :: t :: rest => s ++ separator ++ joinWith separator (t :: rest)

@[simp] theorem joinWith_nil (separator : Text) : joinWith separator [] = [] := rfl

@[simp] theorem joinWith_singleton (separator s : Text) : joinWith separator [s] = s := rfl

theorem joinWith_cons_cons (separator s t : Text) (rest : List Text) :
    joinWith separator (s :: t :: rest) = s ++ separator ++ joinWith separator (t :: rest) := rfl

/-- What is read up to a NUL byte holds none. -/
theorem zero_notMem_throughNul (s : Text) : (0 : UInt8) ∉ s.throughNul := by
  intro h
  induction s with
  | nil => simp [throughNul] at h
  | cons b s ih =>
    by_cases hb : b = 0
    · simp [throughNul, hb] at h
    · have hb' : (b != 0) = true := by simpa using hb
      rw [throughNul, List.takeWhile_cons, if_pos hb'] at h
      rcases List.mem_cons.1 h with h | h
      · exact hb h.symm
      · exact ih h

end Text

end ScriptBase
