import ScriptBase.Platform.Reference
import ScriptBase.Template.Fill

/-!
# Templates in a row

A template that can be filled ends outside its conversions, so another template behind it is read as
it is read alone. It also uses up its arguments, so the arguments behind them are those of the other
template. Hence two templates in a row are filled to their texts in a row.

## Main definitions

* `ScriptBase.Template.escaped`: the template of a text that has no conversions.

## Main results

* `ScriptBase.Template.parse_append`: the pieces of two templates in a row.
* `ScriptBase.Template.fill_append`: what two rows of pieces are filled to.
* `ScriptBase.Template.format_append_and_escaped`: two templates in a row, and texts as templates.
-/

namespace ScriptBase

namespace Template

open Ascii (percent)

/-! ### Reading -/

/-- What is read of a text that ends outside a conversion does not depend on what follows. -/
theorem pieces_append {p : Option Partial} {s : Text} (h : .unfinished ∉ pieces p s) (t : Text) :
    pieces p (s ++ t) = pieces p s ++ pieces none t := by
  induction s generalizing p with
  | nil =>
    cases p with
    | none => rfl
    | some p => exact absurd List.mem_cons_self h
  | cons b s ih =>
    cases p with
    | none =>
      by_cases hb : b = percent
      · simp only [List.cons_append, pieces, if_pos hb] at h ⊢
        exact ih h
      · simp only [List.cons_append, pieces, if_neg hb] at h ⊢
        rw [ih fun hm => h (List.mem_cons_of_mem _ hm)]
    | some p =>
      rw [List.cons_append, pieces, pieces]
      rw [pieces] at h
      cases hr : p.read b with
      | more q =>
        rw [hr] at h
        exact ih h
      | done piece =>
        rw [hr] at h
        dsimp only at h ⊢
        rw [ih fun hm => h (List.mem_cons_of_mem _ hm), List.cons_append]

theorem parse_append {s : Text} (h : .unfinished ∉ parse s) (t : Text) :
    parse (s ++ t) = parse s ++ parse t :=
  pieces_append h t

/-! ### Filling -/

theorem map_eq_ok_iff {α β : Type} {f : α → β} {result : Except Fault α} {y : β} :
    result.map f = .ok y ↔ ∃ x, result = .ok x ∧ f x = y := by
  cases result <;> simp [Except.map]

section

variable [Platform] {ps : List Piece} {args : List Argument} {t : Text}

/-- Pieces that can be filled take all their arguments, and what stands behind them is filled with
the arguments behind these. -/
theorem fill_append (h : fill ps args = .ok t) (qs : List Piece) (others : List Argument) :
    fill (ps ++ qs) (args ++ others) = (fill qs others).map (t ++ ·) := by
  fun_induction fill ps args generalizing t with
  | case1 =>
    obtain rfl := Except.ok.inj h
    change fill qs others = _
    cases fill qs others <;> rfl
  | case2 | case4 | case5 | case6 => cases h
  | case3 args b ps ih =>
    obtain ⟨u, hu, rfl⟩ := map_eq_ok_iff.1 h
    rw [List.cons_append, fill, ih hu]
    cases fill qs others <;> rfl
  | case7 c ps arg args s hc ih =>
    obtain ⟨u, hu, rfl⟩ := map_eq_ok_iff.1 h
    rw [List.cons_append, List.cons_append, fill, hc]
    dsimp only
    rw [ih hu]
    cases fill qs others with
    | error fault => rfl
    | ok v => exact congrArg Except.ok (List.append_assoc s u v).symm

/-- A template that can be filled does not end inside a conversion. -/
theorem unfinished_notMem_of_fill (h : fill ps args = .ok t) : .unfinished ∉ ps := by
  fun_induction fill ps args generalizing t with
  | case1 => exact List.not_mem_nil
  | case2 | case4 | case5 | case6 => cases h
  | case3 args b ps ih | case7 c ps arg args s hc ih =>
    obtain ⟨u, hu, -⟩ := map_eq_ok_iff.1 h
    simpa using ih hu

/-- Behind a template that can be filled, another one is filled with the arguments that are left. -/
theorem fill_parse_append {s : Text} (h : fill (parse s) args = .ok t) (u : Text)
    (others : List Argument) :
    fill (parse (s ++ u)) (args ++ others) = (fill (parse u) others).map (t ++ ·) := by
  rw [parse_append (unfinished_notMem_of_fill h), fill_append h]

end

/-! ### Texts as templates -/

/-- A text in which every percent sign is written twice. -/
def escaped (s : Text) : Text := s.flatMap fun b => if b = percent then [percent, percent] else [b]

/-- Only literal bytes are read from a text whose percent signs are written twice. -/
theorem parse_escaped (s : Text) : parse (escaped s) = s.map .literal := by
  induction s with
  | nil => rfl
  | cons b s ih =>
    rw [escaped, List.flatMap_cons, List.map_cons, ← escaped, ← ih]
    split
    · next hb =>
      rw [hb]
      exact parse_percent_percent _
    · next hb => exact parse_cons_of_ne_percent hb _

theorem fill_map_literal [Platform] (s : Text) : fill (s.map .literal) [] = .ok s := by
  induction s with
  | nil => rfl
  | cons b s ih =>
    rw [List.map_cons, fill, ih]
    rfl

/-- Two templates that can be filled are filled in a row, with their arguments in a row, to their
texts in a row. A text whose percent signs are written twice is filled without arguments to the text
itself. -/
theorem format_append_and_escaped [Platform] :
    (∀ {f₁ f₂ t₁ t₂ : Text} {vs₁ vs₂ : List Value}, format f₁ vs₁ = .ok t₁ →
        format f₂ vs₂ = .ok t₂ → format (f₁ ++ f₂) (vs₁ ++ vs₂) = .ok (t₁ ++ t₂)) ∧
      ∀ s : Text, format (escaped s) [] = .ok s := by
  constructor
  · intro f₁ f₂ t₁ t₂ vs₁ vs₂ h₁ h₂
    rw [format] at h₁ h₂ ⊢
    rw [List.map_append, fill_parse_append h₁, h₂]
    rfl
  · intro s
    rw [format, parse_escaped]
    exact fill_map_literal s

open scoped ScriptBase.ReferencePlatform

/-- A template that ends with two percent signs, and one that starts like the rest of a
conversion. -/
theorem format_append_and_escaped_two :
    format (("%d%%" : Text) ++ ("5s%-3s|" : Text)) ([.integer 7] ++ [.text "ab"]) =
      .ok (("7%" : Text) ++ ("5sab |" : Text)) :=
  format_append_and_escaped.1 rfl rfl

end Template

end ScriptBase
