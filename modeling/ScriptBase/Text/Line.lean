import ScriptBase.Text.Ascii

/-!
# Lines and parts of a text

## Main definitions

* `ScriptBase.Text.splitOn`: the parts of a text between the occurrences of a byte.
* `ScriptBase.Text.breakLine`: a text cut at its first newline.
* `ScriptBase.Text.dropReturn`: a line without the carriage return at its end.
-/

namespace ScriptBase.Text

/-- The parts of a text between the occurrences of `separator`, one more than there are of these. -/
def splitOn (separator : UInt8) : Text → List Text
  | [] => [[]]
  | b :: s =>
    if b = separator then [] :: splitOn separator s
    else
      match splitOn separator s with
      | [] => [[b]]
      | part :: parts => (b :: part) :: parts

/-- The bytes before the first newline and the bytes after it, if there is a newline. -/
def breakLine : Text → Option (Text × Text)
  | [] => none
  | b :: s =>
    if b = Ascii.newline then some ([], s)
    else (breakLine s).map fun cut => (b :: cut.1, cut.2)

/-- A line without the carriage return that it may end with. -/
def dropReturn (line : Text) : Text :=
  if line.getLast? = some Ascii.carriageReturn then line.dropLast else line

theorem splitOn_ne_nil (b : UInt8) (s : Text) : splitOn b s ≠ [] := by
  cases s with
  | nil => simp [splitOn]
  | cons c s =>
    rw [splitOn]
    split
    · simp
    · split <;> simp

/-- The parts with the separator between them make up the text. -/
theorem joinWith_splitOn (b : UInt8) (s : Text) : joinWith [b] (splitOn b s) = s := by
  induction s with
  | nil => rfl
  | cons c s ih =>
    rcases hp : splitOn b s with _ | ⟨part, parts⟩
    · exact absurd hp (splitOn_ne_nil b s)
    · rw [hp] at ih
      by_cases hc : c = b
      · rw [splitOn, if_pos hc, hp, joinWith_cons_cons, ih, hc]
        rfl
      · rw [splitOn, if_neg hc, hp]
        cases parts with
        | nil =>
          rw [joinWith_singleton] at ih
          simp [ih]
        | cons next parts =>
          rw [joinWith_cons_cons] at ih
          simp only [joinWith_cons_cons]
          simp [← ih]

/-- A text without the separator is its only part. -/
theorem splitOn_of_notMem {b : UInt8} {s : Text} (h : b ∉ s) : splitOn b s = [s] := by
  induction s with
  | nil => rfl
  | cons c s ih =>
    obtain ⟨hc, hs⟩ := not_or.1 (mt List.mem_cons.2 h)
    rw [splitOn, if_neg (Ne.symm hc), ih hs]

/-- What stands before the first separator is the first part. -/
theorem splitOn_append {b : UInt8} {part : Text} (h : b ∉ part) (rest : Text) :
    splitOn b (part ++ b :: rest) = part :: splitOn b rest := by
  induction part with
  | nil => simp [splitOn]
  | cons c part ih =>
    obtain ⟨hc, hp⟩ := not_or.1 (mt List.mem_cons.2 h)
    rw [List.cons_append, splitOn, if_neg (Ne.symm hc), ih hp]

/-- The last part of a text that does not end with the separator is not empty. -/
theorem splitOn_concat {b c : UInt8} (h : c ≠ b) (s : Text) :
    ∃ parts last, splitOn b (s ++ [c]) = parts ++ [last ++ [c]] := by
  induction s with
  | nil => exact ⟨[], [], by simp [splitOn, h]⟩
  | cons x s ih =>
    obtain ⟨parts, last, ih⟩ := ih
    rw [List.cons_append, splitOn, ih]
    by_cases hx : x = b
    · exact ⟨[] :: parts, last, by rw [if_pos hx]; rfl⟩
    · rw [if_neg hx]
      cases parts with
      | nil => exact ⟨[], x :: last, rfl⟩
      | cons part parts => exact ⟨(x :: part) :: parts, last, rfl⟩

@[simp] theorem breakLine_nil : breakLine [] = none := rfl

/-- The parts before and after the first newline make up the text. -/
theorem eq_of_breakLine_eq_some {s line rest : Text} (h : breakLine s = some (line, rest)) :
    s = line ++ Ascii.newline :: rest := by
  induction s generalizing line rest with
  | nil => simp at h
  | cons b s ih =>
    rw [breakLine] at h
    by_cases hb : b = Ascii.newline
    · rw [if_pos hb, Option.some.injEq, Prod.mk.injEq] at h
      obtain ⟨rfl, rfl⟩ := h
      simp [hb]
    · rw [if_neg hb, Option.map_eq_some_iff] at h
      obtain ⟨⟨l, r⟩, hc, he⟩ := h
      rw [Prod.mk.injEq] at he
      obtain ⟨rfl, rfl⟩ := he
      rw [ih hc]
      rfl

/-- What stands behind the first newline is what is left when the line and it are dropped. -/
theorem drop_of_breakLine_eq_some {s line rest : Text} (h : breakLine s = some (line, rest)) :
    s.drop (line.length + 1) = rest := by
  rw [eq_of_breakLine_eq_some h, ← List.singleton_append, ← List.append_assoc,
    List.drop_left' (by simp)]

/-- A text is cut exactly if it has a newline. -/
theorem breakLine_eq_none_iff {s : Text} : breakLine s = none ↔ Ascii.newline ∉ s := by
  induction s with
  | nil => simp
  | cons b s ih =>
    rw [breakLine]
    by_cases hb : b = Ascii.newline
    · simp [hb]
    · simp [hb, ih, Ne.symm hb]

/-- What is cut off in front holds no newline. -/
theorem newline_notMem_of_breakLine {s line rest : Text} (h : breakLine s = some (line, rest)) :
    Ascii.newline ∉ line := by
  induction s generalizing line rest with
  | nil => simp at h
  | cons b s ih =>
    rw [breakLine] at h
    by_cases hb : b = Ascii.newline
    · rw [if_pos hb, Option.some.injEq, Prod.mk.injEq] at h
      simp [← h.1]
    · rw [if_neg hb, Option.map_eq_some_iff] at h
      obtain ⟨⟨l, r⟩, hc, he⟩ := h
      rw [Prod.mk.injEq] at he
      rw [← he.1]
      simp [Ne.symm hb, ih hc]

end ScriptBase.Text
