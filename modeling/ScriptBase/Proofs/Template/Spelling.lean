import Mathlib.Data.List.TakeWhile
import ScriptBase.Template.Basic

/-!
# The spelling of templates

A template is a row of tokens: bytes that stand for themselves, two percent signs, and conversions.
A conversion is spelled by a percent sign, flags, the digits of a width, possibly a full stop and
digits behind it, and a letter. Each of these parts goes on as long as it can, so the letter is a
byte with which none of them could go on. A template may also end inside a conversion, behind any of
the parts before the letter.

## Main definitions

* `ScriptBase.Template.Lead`: what stands before the letter of a conversion.
* `ScriptBase.Template.Spelling`: a conversion as it is spelled.
* `ScriptBase.Template.Token`: the tokens.

## Main results

* `ScriptBase.Template.parse_spelling`: a conversion is read from its spelling.
* `ScriptBase.Template.parse_tokens`: each token is read as its piece.
* `ScriptBase.Template.exists_tokens`: every text is a row of tokens, possibly with the lead of a
  conversion behind them.
-/

namespace ScriptBase

namespace Template

open Ascii (isDigit percent minus zero dot)

/-! ### Conversions before their letter -/

/-- Whether a byte is a flag. -/
def isFlag (b : UInt8) : Bool := b = minus || b = zero

/-- The spelling of a conversion without its letter. Zeros in front of the width are flags. -/
structure Lead where
  flags : Text
  width : Text
  /-- The digits behind the full stop, if there is a full stop. -/
  places : Option Text
  isFlag_of_mem : ∀ b ∈ flags, isFlag b = true
  isDigit_of_mem_width : ∀ b ∈ width, isDigit b = true
  head?_width_ne : width.head? ≠ some zero
  isDigit_of_mem_places : ∀ digits ∈ places, ∀ b ∈ digits, isDigit b = true

/-- The number of a run of digits, as a 64-bit word. -/
def number (digits : Text) : UInt64 := digits.foldl withDigit 0

namespace Lead

/-- The bytes behind the percent sign. -/
def marks (l : Lead) : Text :=
  l.flags ++ l.width ++
    match l.places with
    | none => []
    | some digits => dot :: digits

def text (l : Lead) : Text := percent :: l.marks

/-- A byte ends the lead of a conversion if it cannot be part of it. -/
def EndsAt (l : Lead) (b : UInt8) : Prop :=
  isDigit b = false ∧
    (l.places = none → b ≠ dot ∧ (l.width = [] → b ≠ minus ∧ (l.flags = [] → b ≠ percent)))

/-- What of a conversion has been read behind its lead. -/
def reached (l : Lead) : Partial where
  stage :=
    if l.places.isSome then .precision
    else if l.width ≠ [] then .width
    else if l.flags ≠ [] then .flags
    else .sign
  left := l.flags.contains minus
  zeros := l.flags.contains zero
  width := number l.width
  precision := l.places.map number

end Lead

/-- A conversion as it is spelled. -/
structure Spelling extends Lead where
  letter : UInt8
  endsAt_letter : toLead.EndsAt letter

namespace Spelling

def text (c : Spelling) : Text := c.toLead.text ++ [c.letter]

/-- The conversion that is spelled. -/
def conversion (c : Spelling) : Conversion where
  left := c.flags.contains minus
  zeros := c.flags.contains zero
  width := number c.width
  precision := c.places.map number
  letter := c.letter

end Spelling

/-! ### Reading a conversion -/

section Reading

variable {p q : Partial} {b : UInt8}

theorem pieces_cons_of_more (h : p.read b = .more q) (s : Text) :
    pieces (some p) (b :: s) = pieces (some q) s := by
  rw [pieces, h]

theorem pieces_cons_of_done {piece : Piece} (h : p.read b = .done piece) (s : Text) :
    pieces (some p) (b :: s) = piece :: pieces none s := by
  rw [pieces, h]

/-- A digit is neither a percent sign nor a minus sign. -/
theorem ne_of_isDigit (h : isDigit b = true) : b ≠ percent ∧ b ≠ minus := by
  constructor
  · rintro rfl
    cases h
  · rintro rfl
    cases h

/-- Flags are read one after another. -/
theorem pieces_flags {flags : Text} (hf : ∀ b ∈ flags, isFlag b = true)
    (hp : p.stage = .sign ∨ p.stage = .flags) (s : Text) :
    pieces (some p) (flags ++ s) =
      pieces (some { p with
        stage := if flags = [] then p.stage else .flags
        left := p.left || flags.contains minus
        zeros := p.zeros || flags.contains zero }) s := by
  induction flags generalizing p with
  | nil => simp
  | cons b flags ih =>
    obtain ⟨hb, hf⟩ := List.forall_mem_cons.1 hf
    have hr : p.read b = .more { p with
        stage := .flags
        left := p.left || minus == b
        zeros := p.zeros || zero == b } := by
      have hz : zero ≠ minus ∧ zero ≠ percent ∧ minus ≠ percent := by decide
      obtain rfl | rfl : b = minus ∨ b = zero := by simpa [isFlag] using hb
      all_goals rcases hp with hp | hp <;> simp [Partial.read, hp, hz, hz.1.symm]
    rw [List.cons_append, pieces_cons_of_more hr, ih hf (.inr rfl)]
    simp only [List.contains_cons, Bool.or_assoc, ite_self, reduceCtorEq, if_false]

/-- Digits are read one after another while each of them puts itself behind the number so far. -/
theorem pieces_digits {r : UInt64 → Partial}
    (hr : ∀ n b, isDigit b = true → (r n).read b = .more (r (withDigit n b))) {digits : Text}
    (hd : ∀ b ∈ digits, isDigit b = true) (n : UInt64) (s : Text) :
    pieces (some (r n)) (digits ++ s) = pieces (some (r (digits.foldl withDigit n))) s := by
  induction digits generalizing n with
  | nil => rfl
  | cons b digits ih =>
    obtain ⟨hb, hd⟩ := List.forall_mem_cons.1 hd
    rw [List.cons_append, pieces_cons_of_more (hr n b hb), ih hd, List.foldl_cons]

/-- The width is read behind the flags, from a digit on that is not a zero. -/
theorem pieces_width {width : Text} (hw : ∀ b ∈ width, isDigit b = true)
    (hz : width.head? ≠ some zero) (hp : p.stage = .sign ∨ p.stage = .flags) (hp₀ : p.width = 0)
    (s : Text) :
    pieces (some p) (width ++ s) =
      pieces (some { p with
        stage := if width = [] then p.stage else .width
        width := number width }) s := by
  cases width with
  | nil => rw [number, List.foldl_nil, ← hp₀]; rfl
  | cons b width =>
    obtain ⟨hb, hw⟩ := List.forall_mem_cons.1 hw
    have hb₀ : b ≠ zero := by simpa using hz
    obtain ⟨hb₁, hb₂⟩ := ne_of_isDigit hb
    have hr : p.read b = .more { p with stage := .width, width := withDigit 0 b } := by
      rcases hp with hp | hp <;> simp [Partial.read, hp, hb, hb₀, hb₁, hb₂]
    rw [List.cons_append, pieces_cons_of_more hr]
    exact pieces_digits (r := fun n => { p with stage := .width, width := n })
      (fun n b hb => by simp [Partial.read, hb]) hw (withDigit 0 b) s

/-- A full stop starts the places. -/
theorem read_dot (hp : p.stage ≠ .precision) :
    p.read dot = .more { p with stage := .precision, precision := some 0 } := by
  obtain ⟨stage, left, zeros, width, precision⟩ := p
  cases stage with
  | precision => exact absurd rfl hp
  | sign | flags | width => rfl

/-- The digits behind the full stop are read as the precision. -/
theorem pieces_places {digits : Text} (hd : ∀ b ∈ digits, isDigit b = true)
    (hp : p.stage ≠ .precision) (s : Text) :
    pieces (some p) (dot :: digits ++ s) =
      pieces (some { p with stage := .precision, precision := some (number digits) }) s := by
  rw [List.cons_append, pieces_cons_of_more (read_dot hp)]
  exact pieces_digits (r := fun n => { p with stage := .precision, precision := some n })
    (fun n b hb => by simp [Partial.read, hb]) hd 0 s

end Reading

variable {s : Text} {b : UInt8}

/-- A lead is read up to its end. -/
theorem pieces_marks (l : Lead) (s : Text) :
    pieces (some .start) (l.marks ++ s) = pieces (some l.reached) s := by
  obtain ⟨flags, width, places, hf, hw, hz, hd⟩ := l
  have hs : (if flags = [] then Stage.sign else .flags) = .sign ∨
      (if flags = [] then Stage.sign else .flags) = .flags := by
    by_cases hf : flags = [] <;> simp [hf]
  rw [Lead.marks, List.append_assoc, List.append_assoc, pieces_flags hf (.inl rfl),
    pieces_width hw hz hs rfl]
  cases places with
  | none => simp [Lead.reached, Partial.start]
  | some digits =>
    dsimp only
    rw [pieces_places (hd digits rfl)]
    · simp [Lead.reached, Partial.start]
    · by_cases hw : width = [] <;> by_cases hf : flags = [] <;> simp [hw, hf, Partial.start]

/-- The byte that ends a lead is the letter of its conversion. -/
theorem Lead.read_reached {l : Lead} (h : l.EndsAt b) :
    l.reached.read b = .done (.conversion (l.reached.finish b)) := by
  obtain ⟨flags, width, places, _, _, _, _⟩ := l
  obtain ⟨hb, h⟩ := h
  have hz : b ≠ zero := by
    rintro rfl
    cases hb
  cases places with
  | some digits => simp [reached, Partial.read, hb]
  | none =>
    obtain ⟨hd, h⟩ := h rfl
    by_cases hw : width = []
    · obtain ⟨hm, h⟩ := h hw
      by_cases hf : flags = []
      · simp [reached, Partial.read, hw, hf, hb, hz, hd, hm, h hf]
      · simp [reached, Partial.read, hw, hf, hb, hz, hd, hm]
    · simp [reached, Partial.read, hw, hb, hd]

theorem parse_percent_cons (s : Text) : parse (percent :: s) = pieces (some .start) s := rfl

/-- A conversion is read from its spelling, whatever follows it. -/
theorem parse_spelling (c : Spelling) (s : Text) :
    parse (c.text ++ s) = .conversion c.conversion :: parse s := by
  have ht : c.text ++ s = percent :: (c.marks ++ c.letter :: s) := by
    simp [Spelling.text, Lead.text]
  rw [ht, parse_percent_cons, pieces_marks, pieces_cons_of_done (Lead.read_reached c.endsAt_letter)]
  rfl

/-- A template that ends inside a conversion is read as such. -/
theorem parse_lead (l : Lead) : parse l.text = [.unfinished] := by
  have hm := pieces_marks l []
  rw [List.append_nil] at hm
  rw [Lead.text, parse_percent_cons, hm, pieces]

/-! ### Tokens -/

/-- What a template is made up of. -/
inductive Token where
  | literal (b : UInt8) (hb : b ≠ percent)
  | percents
  | conversion (c : Spelling)

namespace Token

def text : Token → Text
  | literal b _ => [b]
  | percents => [percent, percent]
  | conversion c => c.text

/-- The letter of a conversion. -/
def letter? : Token → Option UInt8
  | literal _ _ | percents => none
  | conversion c => some c.letter

def piece : Token → Piece
  | literal b _ => .literal b
  | percents => .literal percent
  | conversion c => .conversion c.conversion

end Token

/-- The text of a row of tokens. -/
def textOf (tokens : List Token) : Text := tokens.flatMap Token.text

/-- The letters of the conversions in a row of tokens. -/
def letters (tokens : List Token) : List UInt8 := tokens.filterMap Token.letter?

theorem textOf_cons_append (token : Token) (tokens : List Token) (s : Text) :
    textOf (token :: tokens) ++ s = token.text ++ (textOf tokens ++ s) := by
  rw [textOf, List.flatMap_cons, List.append_assoc, ← textOf]

theorem letters_cons (token : Token) (tokens : List Token) :
    letters (token :: tokens) = token.letter?.toList ++ letters tokens := by
  cases h : token.letter? <;> simp [letters, h]

/-- Each token is read as its piece, whatever follows. -/
theorem parse_tokens (tokens : List Token) (s : Text) :
    parse (textOf tokens ++ s) = tokens.map Token.piece ++ parse s := by
  induction tokens with
  | nil => rfl
  | cons token tokens ih =>
    rw [textOf_cons_append, List.map_cons, List.cons_append, ← ih]
    cases token with
    | literal b hb => exact parse_cons_of_ne_percent hb _
    | percents => exact parse_percent_percent _
    | conversion c => exact parse_spelling c _

theorem parse_textOf (tokens : List Token) : parse (textOf tokens) = tokens.map Token.piece := by
  have h := parse_tokens tokens []
  rwa [parse_nil, List.append_nil, List.append_nil] at h

/-! ### Every text has tokens -/

/-- A text starts with bytes of a class, as many as there are. -/
theorem exists_run (p : UInt8 → Bool) (s : Text) :
    ∃ run rest, s = run ++ rest ∧ (∀ b ∈ run, p b = true) ∧ ∀ b ∈ rest.head?, p b = false := by
  refine ⟨s.takeWhile p, s.dropWhile p, List.takeWhile_append_dropWhile.symm,
    List.all_eq_true.1 List.all_takeWhile, fun b hb => ?_⟩
  have h := List.head?_dropWhile_not p s
  rwa [Option.mem_def.1 hb] at h

/-- Behind a percent sign that is not followed by a second one, each part of a lead is as long as it
can be. -/
theorem exists_lead (hs : s.head? ≠ some percent) :
    ∃ (l : Lead) (rest : Text), s = l.marks ++ rest ∧ ∀ b ∈ rest.head?, l.EndsAt b := by
  obtain ⟨flags, s, rfl, hf, hf'⟩ := exists_run isFlag s
  obtain ⟨width, s, rfl, hw, hw'⟩ := exists_run isDigit s
  have hz : width.head? ≠ some zero := by
    intro hz
    obtain ⟨width, rfl⟩ := List.head?_eq_some_iff.1 hz
    cases hf' zero rfl
  by_cases hd : s.head? = some dot
  · obtain ⟨s, rfl⟩ := List.head?_eq_some_iff.1 hd
    obtain ⟨digits, rest, rfl, hp, hp'⟩ := exists_run isDigit s
    refine ⟨⟨flags, width, some digits, hf, hw, hz, by simpa using hp⟩, rest, ?_,
      fun b hb => ⟨hp' b hb, nofun⟩⟩
    simp [Lead.marks]
  · refine ⟨⟨flags, width, none, hf, hw, hz, nofun⟩, s, ?_,
      fun b hb => ⟨hw' b hb, fun _ => ⟨?_, ?_⟩⟩⟩
    · simp [Lead.marks]
    · rintro rfl
      exact hd hb
    · rintro rfl
      refine ⟨?_, ?_⟩
      · rintro rfl
        cases hf' minus hb
      · rintro rfl rfl
        exact hs hb

/-- Every text is a row of tokens, unless it ends inside a conversion behind such a row. -/
theorem exists_tokens : (s : Text) →
    ∃ (tokens : List Token) (rest : Text), s = textOf tokens ++ rest ∧
      (rest = [] ∨ ∃ l : Lead, rest = l.text)
  | [] => ⟨[], [], rfl, .inl rfl⟩
  | b :: s => by
    by_cases hb : b = percent
    · subst hb
      by_cases hs : s.head? = some percent
      · obtain ⟨s, rfl⟩ := List.head?_eq_some_iff.1 hs
        obtain ⟨tokens, rest, rfl, hr⟩ := exists_tokens s
        exact ⟨.percents :: tokens, rest, rfl, hr⟩
      · obtain ⟨l, s, rfl, hl⟩ := exists_lead hs
        cases s with
        | nil => exact ⟨[], l.text, by simp [textOf, Lead.text], .inr ⟨l, rfl⟩⟩
        | cons b s =>
          obtain ⟨tokens, rest, rfl, hr⟩ := exists_tokens s
          refine ⟨.conversion ⟨l, b, hl b rfl⟩ :: tokens, rest, ?_, hr⟩
          simp [textOf, Token.text, Spelling.text, Lead.text]
    · obtain ⟨tokens, rest, rfl, hr⟩ := exists_tokens s
      exact ⟨.literal b hb :: tokens, rest, rfl, hr⟩
termination_by s => s.length

end Template

end ScriptBase
