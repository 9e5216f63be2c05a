import Mathlib.Data.List.Forall2
import ScriptBase.Proofs.Template.Concatenation
import ScriptBase.Proofs.Template.Spelling

/-!
# Which templates can be filled

A template can be filled with arguments exactly if it is a row of tokens, its conversions are as
many as the arguments, all their letters are known, and the arguments of numeric conversions carry
numbers. Otherwise the first conversion from the left that cannot be filled decides the fault, and
of what may be wrong with it the first in this order: the template ends inside it, there is no
argument for it, its letter is unknown, its argument carries no number. Arguments that are left over
are a fault only if there is no such conversion.

## Main definitions

* `ScriptBase.Template.Suits`: the arguments that a conversion can be filled with.
* `ScriptBase.Template.FaultAt`: what is wrong at the place that has been reached.
* `ScriptBase.Template.FirstFault`: the first fault from the left.

## Main results

* `ScriptBase.Template.fill_parse_of_firstFault`: the first fault is raised.
* `ScriptBase.Template.taken_or_firstFault`: a template can be filled or has a first fault.
* `ScriptBase.Template.filled_or_faulted`: when a template is filled, and which faults are raised.
-/

namespace ScriptBase

namespace Template

/-! ### Conversions and arguments -/

/-- Whether an argument carries the number that a conversion asks for, if it asks for one. -/
def Carries (letter : UInt8) (arg : Argument) : Prop :=
  (letter ∈ ("di" : Text) → arg.integer.isSome) ∧ (letter ∈ ("f" : Text) → arg.real.isSome)

/-- Whether a conversion with a letter can be filled with an argument. -/
def Suits (letter : UInt8) (arg : Argument) : Prop :=
  letter ∈ ("srdif" : Text) ∧ Carries letter arg

variable {c : Conversion} {arg : Argument}

theorem mem_letters {b : UInt8} :
    b ∈ ("srdif" : Text) ↔ b = 0x73 ∨ b = 0x72 ∨ b = 0x64 ∨ b = 0x69 ∨ b = 0x66 := by
  change b ∈ [0x73, 0x72, 0x64, 0x69, 0x66] ↔ _
  simp

theorem apply_of_unknown [Platform] (h : c.letter ∉ ("srdif" : Text)) :
    c.apply arg = .error (.unknownConversion c.letter) := by
  have hl : Conversion.letter? c.letter = none := by
    simp only [mem_letters, not_or] at h
    simp [Conversion.letter?, h]
  rw [Conversion.apply, hl]

theorem carries_of_text {b : UInt8} (h : b = 0x73 ∨ b = 0x72) : Carries b arg := by
  obtain rfl | rfl := h <;> exact ⟨fun h => absurd h (by decide), fun h => absurd h (by decide)⟩

theorem carries_integer_iff {b : UInt8} (h : b = 0x64 ∨ b = 0x69) :
    Carries b arg ↔ arg.integer.isSome := by
  obtain rfl | rfl := h <;>
    exact ⟨fun h => h.1 (by decide), fun h => ⟨fun _ => h, fun h => absurd h (by decide)⟩⟩

theorem carries_real_iff : Carries 0x66 arg ↔ arg.real.isSome :=
  ⟨fun h => h.2 (by decide), fun h => ⟨fun h => absurd h (by decide), fun _ => h⟩⟩

/-- A known conversion is filled with an argument that carries the number it asks for, and raises a
fault for any other. -/
theorem apply_of_known [Platform] (h : c.letter ∈ ("srdif" : Text)) :
    Carries c.letter arg ∧ (∃ s, c.apply arg = .ok s) ∨
      ¬ Carries c.letter arg ∧ c.apply arg = .error (.numberRequired c.letter arg.quoted) := by
  obtain ⟨left, zeros, width, precision, letter⟩ := c
  obtain ⟨plain, quoted, integer, real⟩ := arg
  obtain rfl | rfl | rfl | rfl | rfl := mem_letters.1 h
  · exact .inl ⟨carries_of_text (.inl rfl), _, rfl⟩
  · exact .inl ⟨carries_of_text (.inr rfl), _, rfl⟩
  · rw [carries_integer_iff (.inl rfl)]
    cases integer with
    | none => exact .inr ⟨nofun, rfl⟩
    | some n => exact .inl ⟨rfl, _, rfl⟩
  · rw [carries_integer_iff (.inr rfl)]
    cases integer with
    | none => exact .inr ⟨nofun, rfl⟩
    | some n => exact .inl ⟨rfl, _, rfl⟩
  · rw [carries_real_iff]
    cases real with
    | none => exact .inr ⟨nofun, rfl⟩
    | some x => exact .inl ⟨rfl, _, rfl⟩

/-- A conversion is filled with an argument that suits it. -/
theorem exists_apply_of_suits [Platform] (h : Suits c.letter arg) : ∃ s, c.apply arg = .ok s := by
  rcases apply_of_known h.1 with ⟨-, hs⟩ | ⟨hn, -⟩
  · exact hs
  · exact absurd h.2 hn

theorem apply_of_not_carries [Platform] (h : c.letter ∈ ("srdif" : Text))
    (hn : ¬ Carries c.letter arg) :
    c.apply arg = .error (.numberRequired c.letter arg.quoted) := by
  rcases apply_of_known h with ⟨hc, -⟩ | ⟨-, he⟩
  · exact absurd hc hn
  · exact he

/-! ### Tokens that are filled -/

/-- The conversions among tokens are as many as the arguments, and each suits its own. -/
abbrev Taken (tokens : List Token) (args : List Argument) : Prop :=
  List.Forall₂ Suits (letters tokens) args

/-- Tokens whose conversions suit the arguments are filled with them. -/
theorem exists_fill_of_taken [Platform] {tokens : List Token} {args : List Argument}
    (h : Taken tokens args) : ∃ t, fill (parse (textOf tokens)) args = .ok t := by
  rw [parse_textOf]
  induction tokens generalizing args with
  | nil =>
    obtain rfl := List.forall₂_nil_left_iff.1 h
    exact ⟨[], rfl⟩
  | cons token tokens ih =>
    cases token with
    | literal b hb =>
      obtain ⟨t, ht⟩ := ih h
      exact ⟨b :: t, map_eq_ok_iff.2 ⟨t, ht, rfl⟩⟩
    | percents =>
      obtain ⟨t, ht⟩ := ih h
      exact ⟨Ascii.percent :: t, map_eq_ok_iff.2 ⟨t, ht, rfl⟩⟩
    | conversion c =>
      obtain ⟨arg, args, hc, hs, rfl⟩ := List.forall₂_cons_left_iff.1 h
      obtain ⟨t, ht⟩ := ih hs
      obtain ⟨s, hs⟩ := exists_apply_of_suits (c := c.conversion) hc
      refine ⟨s ++ t, ?_⟩
      rw [List.map_cons, Token.piece, fill, hs]
      exact map_eq_ok_iff.2 ⟨t, ht, rfl⟩

/-! ### The first fault -/

/-- What is wrong at a place of a template, by the rest of the template and the arguments that are
left there. -/
inductive FaultAt : Text → List Argument → FaultKind → Fault → Prop
  /-- The template ends inside the conversion. -/
  | incomplete (l : Lead) (args : List Argument) :
    FaultAt l.text args .value .incompleteTemplate
  /-- No argument is left for the conversion. -/
  | noArgument (c : Spelling) (later : Text) :
    FaultAt (c.text ++ later) [] .type .notEnoughArguments
  | unknown {c : Spelling} (hc : c.letter ∉ ("srdif" : Text)) (later : Text) (arg : Argument)
      (args : List Argument) :
    FaultAt (c.text ++ later) (arg :: args) .value (.unknownConversion c.letter)
  | noNumber {c : Spelling} (hc : c.letter ∈ ("srdif" : Text)) (later : Text) {arg : Argument}
      (ha : ¬ Carries c.letter arg) (args : List Argument) :
    FaultAt (c.text ++ later) (arg :: args) .type (.numberRequired c.letter arg.quoted)
  /-- The template has ended, and an argument is left. -/
  | unused (arg : Argument) (args : List Argument) :
    FaultAt [] (arg :: args) .type .unusedArguments

/-- A fault is the first of a template if it is met behind tokens whose conversions suit the
arguments before those that are left. -/
def FirstFault (s : Text) (args : List Argument) (kind : FaultKind) (fault : Fault) : Prop :=
  ∃ tokens rest taken left, s = textOf tokens ++ rest ∧ args = taken ++ left ∧
    Taken tokens taken ∧ FaultAt rest left kind fault

variable {s : Text} {args : List Argument} {kind : FaultKind} {fault : Fault}

theorem fill_parse_of_faultAt [Platform] (h : FaultAt s args kind fault) :
    fill (parse s) args = .error fault ∧ fault.kind = kind := by
  cases h with
  | incomplete l => rw [parse_lead]; exact ⟨rfl, rfl⟩
  | noArgument c later => rw [parse_spelling]; exact ⟨rfl, rfl⟩
  | unknown hc later arg args =>
    rw [parse_spelling, fill, apply_of_unknown hc]
    exact ⟨rfl, rfl⟩
  | noNumber hc later ha args =>
    rw [parse_spelling, fill, apply_of_not_carries hc ha]
    exact ⟨rfl, rfl⟩
  | unused arg args => exact ⟨rfl, rfl⟩

/-- The first fault is raised. -/
theorem fill_parse_of_firstFault [Platform] (h : FirstFault s args kind fault) :
    fill (parse s) args = .error fault ∧ fault.kind = kind := by
  obtain ⟨tokens, rest, taken, left, rfl, rfl, ht, hf⟩ := h
  obtain ⟨t, ht⟩ := exists_fill_of_taken ht
  obtain ⟨hf, hk⟩ := fill_parse_of_faultAt hf
  rw [fill_parse_append ht, hf]
  exact ⟨rfl, hk⟩

/-- Tokens behind which a template has its first fault may have another in front of them whose
conversion, if it is one, suits the argument in front of the others. -/
theorem FirstFault.cons {token : Token} {front : List Argument}
    (ht : List.Forall₂ Suits token.letter?.toList front) (h : FirstFault s args kind fault) :
    FirstFault (token.text ++ s) (front ++ args) kind fault := by
  obtain ⟨tokens, rest, taken, left, rfl, rfl, hs, hf⟩ := h
  refine ⟨token :: tokens, rest, front ++ taken, left, (textOf_cons_append _ _ _).symm,
    (List.append_assoc _ _ _).symm, ?_, hf⟩
  rw [Taken, letters_cons]
  exact List.rel_append ht hs

/-- What is wrong at the start of a template is its first fault. -/
theorem FaultAt.firstFault (h : FaultAt s args kind fault) : FirstFault s args kind fault :=
  ⟨[], s, [], args, rfl, rfl, .nil, h⟩

/-- Tokens with the end of a template behind them can be filled, or have a first fault. -/
theorem tokens_taken_or_firstFault (tokens : List Token) {rest : Text}
    (hr : rest = [] ∨ ∃ l : Lead, rest = l.text) (args : List Argument) :
    rest = [] ∧ Taken tokens args ∨
      ∃ kind fault, FirstFault (textOf tokens ++ rest) args kind fault := by
  induction tokens generalizing args with
  | nil =>
    obtain rfl | ⟨l, rfl⟩ := hr
    · cases args with
      | nil => exact .inl ⟨rfl, .nil⟩
      | cons arg args => exact .inr ⟨_, _, (FaultAt.unused arg args).firstFault⟩
    · exact .inr ⟨_, _, (FaultAt.incomplete l args).firstFault⟩
  | cons token tokens ih =>
    rw [textOf_cons_append]
    -- the argument of a conversion is looked at before the tokens behind it
    have step {front args : List Argument}
        (hf : List.Forall₂ Suits token.letter?.toList front) :
        rest = [] ∧ Taken (token :: tokens) (front ++ args) ∨
          ∃ kind fault,
            FirstFault (token.text ++ (textOf tokens ++ rest)) (front ++ args) kind fault := by
      rcases ih args with ⟨hr, ht⟩ | ⟨kind, fault, h⟩
      · rw [Taken, letters_cons]
        exact .inl ⟨hr, List.rel_append hf ht⟩
      · exact .inr ⟨kind, fault, h.cons hf⟩
    cases token with
    | literal | percents => exact step .nil
    | conversion c =>
      rcases args with _ | ⟨arg, args⟩
      · exact .inr ⟨_, _, (FaultAt.noArgument c _).firstFault⟩
      · by_cases hc : c.letter ∈ ("srdif" : Text)
        · by_cases ha : Carries c.letter arg
          · exact step (.cons ⟨hc, ha⟩ .nil)
          · exact .inr ⟨_, _, (FaultAt.noNumber hc _ ha args).firstFault⟩
        · exact .inr ⟨_, _, (FaultAt.unknown hc _ arg args).firstFault⟩

theorem taken_or_firstFault (s : Text) (args : List Argument) :
    (∃ tokens, s = textOf tokens ∧ Taken tokens args) ∨
      ∃ kind fault, FirstFault s args kind fault := by
  obtain ⟨tokens, rest, rfl, hr⟩ := exists_tokens s
  rcases tokens_taken_or_firstFault tokens hr args with ⟨rfl, h⟩ | h
  · exact .inl ⟨tokens, List.append_nil _, h⟩
  · exact .inr h

/-- A fault that is raised is the first one. -/
theorem firstFault_of_error [Platform] (h : fill (parse s) args = .error fault) :
    FirstFault s args fault.kind fault := by
  rcases taken_or_firstFault s args with ⟨tokens, rfl, ht⟩ | ⟨kind, first, hf⟩
  · obtain ⟨t, ht⟩ := exists_fill_of_taken ht
    rw [h] at ht
    cases ht
  · obtain ⟨he, rfl⟩ := fill_parse_of_firstFault hf
    rw [h] at he
    cases he
    exact hf

/-- No fault but that of arguments that are left over has its wording. -/
theorem FaultAt.eq_nil_of_message (h : FaultAt s args kind fault)
    (hm : fault.message = "not all arguments converted during string formatting") :
    s = [] ∧ args ≠ [] := by
  cases h with
  | unused arg args => exact ⟨rfl, List.cons_ne_nil _ _⟩
  | incomplete | noArgument => exact absurd hm (by decide)
  | unknown =>
    have hu : some (0x75 : UInt8) = some 0x6e := congrArg List.head? hm
    exact absurd hu (by decide)
  | noNumber =>
    have hp : some Ascii.percent = some (0x6e : UInt8) := congrArg List.head? hm
    exact absurd hp (by decide)

/-- A template is filled exactly if it is a row of tokens whose conversions are as many as the
arguments, all letters being known, and the arguments of numeric conversions carrying numbers.
Otherwise exactly its first fault is raised. Arguments that are left over are told of only behind a
whole template without other faults. -/
theorem filled_or_faulted [Platform] (s : Text) (args : List Argument) :
    ((∃ t, fill (parse s) args = .ok t) ↔ ∃ tokens, s = textOf tokens ∧ Taken tokens args) ∧
      (∀ kind fault, fill (parse s) args = .error fault ∧ fault.kind = kind ↔
        FirstFault s args kind fault) ∧
      ((∃ fault, fill (parse s) args = .error fault ∧
          fault.message = "not all arguments converted during string formatting") ↔
        ∃ tokens taken left, s = textOf tokens ∧ args = taken ++ left ∧ left ≠ [] ∧
          Taken tokens taken) := by
  refine ⟨⟨?_, ?_⟩, fun kind fault => ⟨?_, fill_parse_of_firstFault⟩, ?_, ?_⟩
  · rintro ⟨t, ht⟩
    rcases taken_or_firstFault s args with h | ⟨kind, fault, h⟩
    · exact h
    · rw [(fill_parse_of_firstFault h).1] at ht
      cases ht
  · rintro ⟨tokens, rfl, h⟩
    exact exists_fill_of_taken h
  · rintro ⟨h, rfl⟩
    exact firstFault_of_error h
  · rintro ⟨fault, h, hm⟩
    obtain ⟨tokens, rest, taken, left, rfl, rfl, ht, hf⟩ := firstFault_of_error h
    obtain ⟨rfl, hn⟩ := hf.eq_nil_of_message hm
    exact ⟨tokens, taken, left, List.append_nil _, rfl, hn, ht⟩
  · rintro ⟨tokens, taken, left, rfl, rfl, hn, ht⟩
    obtain ⟨arg, args, rfl⟩ := List.exists_cons_of_ne_nil hn
    have hf : FirstFault (textOf tokens) (taken ++ arg :: args) .type .unusedArguments :=
      ⟨tokens, [], taken, _, (List.append_nil _).symm, rfl, ht, .unused arg args⟩
    exact ⟨_, (fill_parse_of_firstFault hf).1, by decide +kernel⟩

/-- The first conversion from the left is told of, and of what is wrong with it the first. -/
example [Platform] : fill (parse "%y%") [] = .error .notEnoughArguments ∧
    fill (parse "%-05.") [] = .error .incompleteTemplate :=
  ⟨rfl, rfl⟩

end Template

end ScriptBase
