import ScriptBase.Proofs.Reader.Remaining

/-!
# Lines and their terminators

Cut after each newline, a text falls into pieces. All of them but the last end with a newline, and
the last one may. A piece ends with a terminator, which is a carriage return and a newline, or a
newline alone, or nothing.

A reader gives a line for each piece. If the piece ends with a newline, the line is the piece
without its terminator, so that the line and the terminator make up the piece. The reader does not
look whether a line has ended with a newline before it drops a carriage return from its end, though.
A text that ends with a carriage return loses it, and no other text loses a byte.

## Main definitions

* `ScriptBase.Text.pieces`: a text cut after each newline.
* `ScriptBase.Text.terminator`, `ScriptBase.Text.unterminated`: the two parts of a piece.
* `ScriptBase.Text.lineOf`: the line that a reader gives for a piece.

## Main results

* `ScriptBase.Text.lines_eq_map_lineOf`: the lines of a text are those of its pieces.
* `ScriptBase.Text.flatten_lines_terminators`: what the lines and their terminators make up.
* `ScriptBase.Reader.each_readLine_eq_pieces`: what a reader gives until it finds no more lines.
-/

namespace ScriptBase

open Ascii (newline carriageReturn)

namespace Text

/-! ### Pieces -/

/-- A text cut after each newline. -/
def pieces : Text → List Text
  | [] => []
  | b :: s =>
    if b = newline then [b] :: pieces s
    else
      match pieces s with
      | [] => [[b]]
      | piece :: rest => (b :: piece) :: rest

@[simp] theorem pieces_nil : pieces [] = [] := rfl

/-- The pieces of a text make up the text. -/
theorem flatten_pieces (s : Text) : s.pieces.flatten = s := by
  induction s with
  | nil => rfl
  | cons b s ih =>
    rw [pieces]
    split
    · rw [List.flatten_cons, ih, List.singleton_append]
    · rcases hp : pieces s with _ | ⟨piece, rest⟩
      · rw [hp] at ih
        rw [← ih]
        rfl
      · rw [hp] at ih
        rw [← ih]
        rfl

/-- A text without a newline is its only piece. -/
theorem pieces_of_notMem {line : Text} (hn : newline ∉ line) (hl : line ≠ []) :
    line.pieces = [line] := by
  induction line with
  | nil => exact absurd rfl hl
  | cons b line ih =>
    obtain ⟨hb, hn⟩ := not_or.1 (mt List.mem_cons.2 hn)
    rw [pieces, if_neg (Ne.symm hb)]
    by_cases hl : line = []
    · rw [hl]
      rfl
    · rw [ih hn hl]

/-- A line and its newline are the first piece of a text. -/
theorem pieces_append {line : Text} (hn : newline ∉ line) (rest : Text) :
    (line ++ newline :: rest).pieces = (line ++ [newline]) :: rest.pieces := by
  induction line with
  | nil => simp [pieces]
  | cons b line ih =>
    obtain ⟨hb, hn⟩ := not_or.1 (mt List.mem_cons.2 hn)
    rw [List.cons_append, pieces, if_neg (Ne.symm hb), ih hn]
    rfl

/-- The first piece of a text: what comes up to and with the first newline, or all of it. -/
def firstPiece (s : Text) : Text := s.pieces.head?.getD []

theorem firstPiece_of_notMem {line : Text} (hn : newline ∉ line) : line.firstPiece = line := by
  by_cases hl : line = []
  · rw [hl]
    rfl
  · rw [firstPiece, pieces_of_notMem hn hl]
    rfl

theorem firstPiece_append {line : Text} (hn : newline ∉ line) (rest : Text) :
    (line ++ newline :: rest).firstPiece = line ++ [newline] := by
  rw [firstPiece, pieces_append hn]
  rfl

/-- Behind the first piece stands what stands behind the first newline. -/
theorem drop_length_firstPiece (s : Text) : s.drop s.firstPiece.length = s.afterLine := by
  induction s using line_induction with
  | nil => rfl
  | last line hn hl =>
    rw [firstPiece_of_notMem hn, List.drop_length, afterLine_of_none (breakLine_eq_none_iff.2 hn)]
  | cons line rest hn ih =>
    have he : line ++ newline :: rest = (line ++ [newline]) ++ rest := by simp
    rw [firstPiece_append hn, afterLine_of_some (breakLine_append hn rest), he, List.drop_left]

/-- Behind the first newline stand all pieces but the first. -/
theorem pieces_afterLine (s : Text) : s.afterLine.pieces = s.pieces.tail := by
  induction s using line_induction with
  | nil => rfl
  | last line hn hl =>
    rw [pieces_of_notMem hn hl, afterLine_of_none (breakLine_eq_none_iff.2 hn)]
    rfl
  | cons line rest hn ih =>
    rw [pieces_append hn, afterLine_of_some (breakLine_append hn rest), List.tail_cons]

/-- What stands behind so many newlines is what the pieces from there on make up. -/
theorem iterate_afterLine (n : Nat) (s : Text) :
    afterLine^[n] s = (s.pieces.drop n).flatten := by
  induction n generalizing s with
  | zero => exact s.flatten_pieces.symm
  | succ n ih => rw [Function.iterate_succ_apply, ih, pieces_afterLine, List.drop_tail]

theorem firstPiece_prefix (s : Text) : s.firstPiece <+: s := by
  rw [firstPiece]
  rcases hp : s.pieces with _ | ⟨piece, rest⟩
  · exact List.nil_prefix
  · have h := s.flatten_pieces
    rw [hp, List.flatten_cons] at h
    exact ⟨rest.flatten, h⟩

/-! ### Terminators -/

/-- What a piece ends with: a carriage return and a newline, a newline, or nothing. -/
def terminator (piece : Text) : Text :=
  if [carriageReturn, newline] <:+ piece then [carriageReturn, newline]
  else if [newline] <:+ piece then [newline]
  else []

/-- A piece without its terminator. -/
def unterminated (piece : Text) : Text := piece.take (piece.length - piece.terminator.length)

theorem terminator_suffix (piece : Text) : piece.terminator <:+ piece := by
  rw [terminator]
  split
  · assumption
  · split
    · assumption
    · exact List.nil_suffix

/-- What stands in front of the terminator and the terminator make up a piece. -/
theorem unterminated_append_terminator (piece : Text) :
    piece.unterminated ++ piece.terminator = piece := by
  obtain ⟨front, h⟩ := piece.terminator_suffix
  have hn : piece.length - piece.terminator.length = front.length := by
    have hl := congrArg List.length h
    rw [List.length_append] at hl
    omega
  have hu : piece.unterminated = front := by
    rw [unterminated, hn]
    exact (congrArg (List.take front.length) h.symm).trans List.take_left
  rw [hu, h]

theorem terminator_of_notMem {line : Text} (hn : newline ∉ line) : line.terminator = [] := by
  have hr : ¬ [carriageReturn, newline] <:+ line := fun h => hn (h.subset (by simp))
  have hs : ¬ [newline] <:+ line := fun h => hn (h.subset (by simp))
  rw [terminator, if_neg hr, if_neg hs]

theorem unterminated_of_notMem {line : Text} (hn : newline ∉ line) : line.unterminated = line := by
  have h := line.unterminated_append_terminator
  rwa [terminator_of_notMem hn, List.append_nil] at h

/-- In front of a newline, a carriage return belongs to the terminator. -/
theorem terminator_append_newline (line : Text) :
    (line ++ [newline]).terminator =
      if line.getLast? = some carriageReturn then [carriageReturn, newline] else [newline] := by
  have hr : [carriageReturn, newline] <:+ line ++ [newline] ↔
      line.getLast? = some carriageReturn := by
    rw [← List.singleton_append, List.suffix_append_self_iff, List.getLast?_eq_some_iff]
    exact exists_congr fun front => eq_comm
  have hs : [newline] <:+ line ++ [newline] := List.suffix_append ..
  rw [terminator, if_pos hs]
  simp only [hr]

theorem unterminated_append_newline (line : Text) :
    (line ++ [newline]).unterminated = line.dropReturn := by
  have h := (line ++ [newline]).unterminated_append_terminator
  rw [terminator_append_newline] at h
  rw [dropReturn]
  split at h
  · next hr =>
    rw [if_pos hr]
    obtain ⟨front, rfl⟩ := List.getLast?_eq_some_iff.1 hr
    rw [List.dropLast_concat]
    exact List.append_cancel_right (h.trans (List.append_assoc front [carriageReturn] [newline]))
  · next hr =>
    rw [if_neg hr]
    exact List.append_cancel_right h

/-! ### Lines -/

/-- The line that a reader gives for a piece. Only if there is a newline is a carriage return before
it a part of the terminator, but it is dropped in any case. -/
def lineOf (piece : Text) : Text :=
  if newline ∈ piece then piece.unterminated else piece.dropReturn

theorem lineOf_of_notMem {line : Text} (hn : newline ∉ line) : line.lineOf = line.dropReturn :=
  if_neg hn

theorem lineOf_append_newline (line : Text) : (line ++ [newline]).lineOf = line.dropReturn := by
  rw [lineOf, if_pos (by simp), unterminated_append_newline]

/-- The lines of a text are those of its pieces. -/
theorem lines_eq_map_lineOf (s : Text) : s.lines = s.pieces.map lineOf := by
  induction s using line_induction with
  | nil => rfl
  | last line hn hl =>
    rw [lines_of_breakLine_eq_none (breakLine_eq_none_iff.2 hn) hl, pieces_of_notMem hn hl,
      List.map_singleton, lineOf_of_notMem hn]
  | cons line rest hn ih =>
    rw [lines_append hn, pieces_append hn, List.map_cons, lineOf_append_newline, ih]

/-- The first line of a text is that of its first piece. -/
theorem head?_lines (s : Text) :
    s.lines.head? = if s.firstPiece = [] then none else some s.firstPiece.lineOf := by
  induction s using line_induction with
  | nil => rfl
  | last line hn hl =>
    rw [firstPiece_of_notMem hn, if_neg hl, lineOf_of_notMem hn,
      lines_of_breakLine_eq_none (breakLine_eq_none_iff.2 hn) hl]
    rfl
  | cons line rest hn ih =>
    rw [firstPiece_append hn, if_neg (by simp), lineOf_append_newline, lines_append hn]
    rfl

theorem dropReturn_concat (front : Text) (b : UInt8) :
    (front ++ [b]).dropReturn = if b = carriageReturn then front else front ++ [b] := by
  simp [dropReturn]

/-- A carriage return at the end of a text stands behind the first newline, if there is one. -/
theorem dropReturn_append_newline (line rest : Text) :
    (line ++ newline :: rest).dropReturn = line ++ newline :: rest.dropReturn := by
  by_cases hr : rest = []
  · rw [hr]
    exact (dropReturn_concat line newline).trans (if_neg (by decide))
  · obtain ⟨front, b, rfl⟩ : ∃ front b, rest = front ++ [b] :=
      ⟨_, _, (List.dropLast_concat_getLast hr).symm⟩
    have he : line ++ newline :: (front ++ [b]) = (line ++ newline :: front) ++ [b] := by simp
    rw [he, dropReturn_concat, dropReturn_concat]
    split
    · rfl
    · exact he.symm

/-- A text loses nothing by dropping a carriage return exactly if it does not end with one. -/
theorem dropReturn_eq_self_iff {s : Text} :
    s.dropReturn = s ↔ s.getLast? ≠ some carriageReturn := by
  refine ⟨fun h hr => ?_, fun h => if_neg h⟩
  obtain ⟨front, rfl⟩ := List.getLast?_eq_some_iff.1 hr
  rw [dropReturn_concat, if_pos rfl] at h
  simpa using congrArg List.length h

/-- The lines of a text and the terminators of its pieces make up the text without the carriage
return that it may end with. -/
theorem flatten_lines_terminators (s : Text) :
    (List.zipWith (· ++ ·) s.lines (s.pieces.map terminator)).flatten = s.dropReturn := by
  induction s using line_induction with
  | nil => rfl
  | last line hn hl =>
    rw [lines_of_breakLine_eq_none (breakLine_eq_none_iff.2 hn) hl, pieces_of_notMem hn hl]
    simp [terminator_of_notMem hn]
  | cons line rest hn ih =>
    have hp : line.dropReturn ++ (line ++ [newline]).terminator = line ++ [newline] := by
      rw [← unterminated_append_newline, unterminated_append_terminator]
    rw [lines_append hn, pieces_append hn, List.map_cons, List.zipWith_cons_cons,
      List.flatten_cons, hp, ih, dropReturn_append_newline, List.append_assoc,
      List.singleton_append]

/-- The lines are the pieces without their terminators exactly if the text does not end with a
carriage return. -/
theorem lines_eq_map_unterminated_iff (s : Text) :
    s.lines = s.pieces.map unterminated ↔ s.getLast? ≠ some carriageReturn := by
  rw [← dropReturn_eq_self_iff]
  constructor
  · intro h
    rw [← flatten_lines_terminators, h]
    simp [List.zipWith_map, unterminated_append_terminator, flatten_pieces]
  · intro h
    induction s using line_induction with
    | nil => rfl
    | last line hn hl =>
      rw [lines_of_breakLine_eq_none (breakLine_eq_none_iff.2 hn) hl, pieces_of_notMem hn hl, h,
        List.map_singleton, unterminated_of_notMem hn]
    | cons line rest hn ih =>
      rw [dropReturn_append_newline] at h
      have hr : rest.dropReturn = rest := (List.cons.inj (List.append_cancel_left h)).2
      rw [lines_append hn, pieces_append hn, List.map_cons, unterminated_append_newline, ih hr]

end Text

namespace Reader

open InStream

/-- Read line by line, some bytes give one line for each of their pieces, and none from then on. A
piece that ends with a newline gives all but its terminator, and the last piece, if it does not,
all but the carriage return that it may end with. With the terminators put back the lines make up
the bytes but for that carriage return, and they are the pieces without their terminators exactly if
the bytes do not end with one. -/
theorem each_readLine_eq_pieces {r : Reader} {d : Disk} {content : Text} {s : InStream}
    (hr : r.closed = false) (h : Offers d content s) (more : Nat) :
    let lines := content.pieces.map Text.lineOf
    (Action.each (fun _ : Unit => r.readLine d) (List.replicate (lines.length + more) ()) s).1 =
        lines.map (fun line => .ok (some line)) ++ List.replicate more (.ok none) ∧
      content.pieces.flatten = content ∧
      (∀ piece ∈ content.pieces, piece.unterminated ++ piece.terminator = piece) ∧
      (List.zipWith (· ++ ·) lines (content.pieces.map Text.terminator)).flatten =
        content.dropReturn ∧
      (lines = content.pieces.map Text.unterminated ↔
        content.getLast? ≠ some carriageReturn) := by
  intro lines
  have hl : content.lines = lines := content.lines_eq_map_lineOf
  rw [← hl]
  exact ⟨each_readLine_of_offers hr more h, content.flatten_pieces,
    fun piece _ => piece.unterminated_append_terminator, content.flatten_lines_terminators,
    content.lines_eq_map_unterminated_iff⟩

/-- A carriage return stays in a line, one belongs to a terminator, and one is lost at the end. -/
theorem each_readLine_eq_pieces_three :
    let content := [0x0d, 0x61, 0x0d, 0x0a, 0x62, 0x0d]
    (opened []).closed = false ∧ Offers .fresh content (.ofText content false) ∧
      (Action.each (fun _ : Unit => (opened []).readLine .fresh) [(), (), ()]
        (.ofText content false)).1 =
          [.ok (some [0x0d, 0x61]), .ok (some [0x62]), .ok none] := by
  intro content
  obtain ⟨hlines, -⟩ :=
    each_readLine_eq_pieces (r := opened []) rfl (offers_ofText .fresh content) 1
  exact ⟨rfl, offers_ofText .fresh content, hlines⟩

/-- Not all lines are the pieces without their terminators: a carriage return that stands at the end
is lost. -/
theorem each_readLine_loses_return :
    ¬ ∀ content : Text,
      (Action.each (fun _ : Unit => (opened []).readLine .fresh)
          (List.replicate (content.pieces.length + 1) ()) (.ofText content false)).1 =
        content.pieces.map (fun piece => .ok (some piece.unterminated)) ++ [.ok none] := by
  intro h
  have h' : ([.ok (some [0x61]), .ok none] : List (Except Fault (Option Text))) =
      [.ok (some [0x61, 0x0d]), .ok none] := h [0x61, 0x0d]
  simp at h'

end Reader

end ScriptBase
