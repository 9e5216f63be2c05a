import ScriptBase.Text.Line

/-!
# The lines of a text

The lines of a text are the parts between its newlines, each without a carriage return at its end.
What stands behind the last newline is a line unless it is empty. Whoever has the lines of a file in
hand may spell them in several ways: a line may end with a newline or with a carriage return and a
newline, and the last one, if it is not empty, with nothing. Every spelling has the same lines.

## Main definitions

* `ScriptBase.Text.afterLine`: what stands behind the first newline.
* `ScriptBase.Text.lines`: the lines of a text.
* `ScriptBase.Text.Spelled`: a text spells a list of lines.

## Main results

* `ScriptBase.Text.lines_of_breakLine_eq_some`, `ScriptBase.Text.lines_of_breakLine_eq_none`: the
  lines of a text, one after another.
* `ScriptBase.Text.Spelled.lines_eq`: the lines of a text that spells lines.
-/

namespace ScriptBase.Text

open Ascii (newline carriageReturn)

variable {s line rest : Text}

/-- What stands behind the first newline of a text, nothing if it has none. -/
def afterLine (s : Text) : Text := (s.breakLine.map Prod.snd).getD []

theorem afterLine_of_some (h : s.breakLine = some (line, rest)) : s.afterLine = rest := by
  simp [afterLine, h]

theorem afterLine_of_none (h : s.breakLine = none) : s.afterLine = [] := by
  simp [afterLine, h]

/-- A text is cut behind the line that its first newline ends. -/
theorem breakLine_append (h : newline ∉ line) (rest : Text) :
    (line ++ newline :: rest).breakLine = some (line, rest) := by
  induction line with
  | nil => simp [breakLine]
  | cons b line ih =>
    obtain ⟨hb, hl⟩ := not_or.1 (mt List.mem_cons.2 h)
    rw [List.cons_append, breakLine, if_neg (Ne.symm hb), ih hl]
    rfl

/-- The parts of a text between its newlines, without the last one if that is empty. -/
def lineParts (s : Text) : List Text :=
  if (s.splitOn newline).getLast? = some [] then (s.splitOn newline).dropLast
  else s.splitOn newline

/-- The lines of a text, as readers give them. -/
def lines (s : Text) : List Text := s.lineParts.map dropReturn

@[simp] theorem lines_nil : lines [] = [] := rfl

/-! ### One line after another -/

/-- The part before a newline comes before the parts of what stands behind. -/
theorem lineParts_append (h : newline ∉ line) (rest : Text) :
    (line ++ newline :: rest).lineParts = line :: rest.lineParts := by
  rw [lineParts, lineParts, splitOn_append h]
  rcases hp : rest.splitOn newline with _ | ⟨part, parts⟩
  · exact absurd hp (splitOn_ne_nil newline rest)
  · rw [List.getLast?_cons_cons, List.dropLast_cons_cons]
    split <;> rfl

theorem lines_append (h : newline ∉ line) (rest : Text) :
    (line ++ newline :: rest).lines = line.dropReturn :: rest.lines := by
  rw [lines, lineParts_append h]
  rfl

theorem lines_of_breakLine_eq_some (h : s.breakLine = some (line, rest)) :
    s.lines = line.dropReturn :: rest.lines := by
  rw [eq_of_breakLine_eq_some h, lines_append (newline_notMem_of_breakLine h)]

/-- A text without a newline is its only line unless it is empty. -/
theorem lines_of_breakLine_eq_none (h : s.breakLine = none) (hs : s ≠ []) :
    s.lines = [s.dropReturn] := by
  rw [lines, lineParts, splitOn_of_notMem (breakLine_eq_none_iff.1 h)]
  simp [hs]

/-- The lines behind the first newline are all lines but the first. -/
theorem lines_afterLine (s : Text) : s.afterLine.lines = s.lines.tail := by
  rcases hb : s.breakLine with _ | ⟨line, rest⟩
  · rw [afterLine_of_none hb]
    by_cases hs : s = []
    · rw [hs]
      rfl
    · rw [lines_of_breakLine_eq_none hb hs]
      rfl
  · rw [afterLine_of_some hb, lines_of_breakLine_eq_some hb]
    rfl

/-- What holds of no text, of a text without a newline, and of a line with its newline in front of a
text of which it holds, holds of all texts. -/
@[elab_as_elim]
theorem line_induction {motive : Text → Prop} (nil : motive [])
    (last : ∀ line, newline ∉ line → line ≠ [] → motive line)
    (cons : ∀ line rest, newline ∉ line → motive rest → motive (line ++ newline :: rest))
    (s : Text) : motive s := by
  induction hn : s.length using Nat.strongRecOn generalizing s with
  | ind n ih =>
    rcases hb : s.breakLine with _ | ⟨line, rest⟩
    · by_cases hs : s = []
      · rw [hs]
        exact nil
      · exact last s (breakLine_eq_none_iff.1 hb) hs
    · obtain rfl := eq_of_breakLine_eq_some hb
      rw [List.length_append, List.length_cons] at hn
      exact cons line rest (newline_notMem_of_breakLine hb) (ih rest.length (by omega) rest rfl)

/-- Only an empty text has no lines. -/
theorem lines_eq_nil_iff : s.lines = [] ↔ s = [] := by
  refine ⟨fun h => ?_, fun h => by rw [h, lines_nil]⟩
  rcases hb : s.breakLine with _ | ⟨line, rest⟩
  · by_cases hs : s = []
    · exact hs
    · rw [lines_of_breakLine_eq_none hb hs] at h
      cases h
  · rw [lines_of_breakLine_eq_some hb] at h
    cases h

/-- There are no more lines than bytes. -/
theorem length_lines_le (s : Text) : s.lines.length ≤ s.length := by
  induction s using line_induction with
  | nil => exact Nat.le_refl _
  | last line hn hl =>
    rw [lines_of_breakLine_eq_none (breakLine_eq_none_iff.2 hn) hl]
    exact List.length_pos_iff.2 hl
  | cons line rest hn ih =>
    rw [lines_append hn, List.length_cons, List.length_append, List.length_cons]
    omega

/-! ### Spelling lines -/

/-- What a line may end with. -/
inductive LineEnd where
  | newline
  | returnNewline
  deriving DecidableEq, Repr

/-- The bytes of a line end. -/
def LineEnd.text : LineEnd → Text
  | newline => [Ascii.newline]
  | returnNewline => [Ascii.carriageReturn, Ascii.newline]

/-- A line can be spelled if it holds no newline and does not end with a carriage return. -/
def IsLine (line : Text) : Prop := newline ∉ line ∧ line.getLast? ≠ some carriageReturn

/-- A text *spells* lines if it is made up of them, each with some line end. The last line may go
without one if it is not empty. -/
inductive Spelled : List Text → Text → Prop
  | nil : Spelled [] []
  | last {line : Text} (hl : IsLine line) (hn : line ≠ []) : Spelled [line] line
  | cons {line text : Text} {lines : List Text} (hl : IsLine line) (e : LineEnd)
      (h : Spelled lines text) : Spelled (line :: lines) (line ++ e.text ++ text)

theorem IsLine.dropReturn_eq (h : IsLine line) : line.dropReturn = line := if_neg h.2

/-- Spelling keeps the lines, whatever they end with. -/
theorem Spelled.lines_eq {lines : List Text} {text : Text} (h : Spelled lines text) :
    text.lines = lines := by
  induction h with
  | nil => rfl
  | last hl hn =>
    rw [lines_of_breakLine_eq_none (breakLine_eq_none_iff.2 hl.1) hn, hl.dropReturn_eq]
  | @cons line text lines hl e h ih =>
    cases e with
    | newline =>
      rw [LineEnd.text, List.append_assoc, List.singleton_append, lines_append hl.1,
        hl.dropReturn_eq, ih]
    | returnNewline =>
      have hr : newline ∉ line ++ [carriageReturn] := by
        rw [List.mem_append, not_or]
        exact ⟨hl.1, by decide⟩
      have hd : (line ++ [carriageReturn]).dropReturn = line := by simp [dropReturn]
      have he : line ++ LineEnd.returnNewline.text ++ text =
          (line ++ [carriageReturn]) ++ newline :: text := by simp [LineEnd.text]
      rw [he, lines_append hr, hd, ih]

end ScriptBase.Text
