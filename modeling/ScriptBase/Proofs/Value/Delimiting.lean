import ScriptBase.Proofs.Numeral.Runs
import ScriptBase.Proofs.Text.Literals

/-!
# Quoted values tell what they are

A type is built from integers, truth values and texts by pairs and lists. The quoted text of a value
of such a type delimits itself: whatever stands behind it, one can tell where it ends, as long as
what stands behind it does not start with a digit. In a container a comma or a bracket stands behind
each element. So commas, brackets, quotation marks and spaces in the texts that a value holds never
make its text that of another value.

## Main definitions

* `ScriptBase.Delimits`: a way to write values by which they can be told from what stands behind.
* `ScriptBase.Shape`, `ScriptBase.Shape.Carrier`: the types, and their values.
* `ScriptBase.Shape.value`: a value of a type as a value of a script.

## Main results

* `ScriptBase.Delimits.pair`, `ScriptBase.Delimits.list`: pairs and lists delimit themselves if
  their elements do.
* `ScriptBase.Shape.delimits`: the quoted texts of a type delimit themselves.
* `ScriptBase.Shape.quoted_injective`: values of a type with one quoted text are equal.
-/

namespace ScriptBase

open Ascii (isDigit minus backslash hexDigit)

/-- A way to write values *delimits* them if a value can be told from what stands behind it, which
must not start with a digit, and if none is written with a closing bracket at its start. -/
structure Delimits {α : Type} (write : α → Text) : Prop where
  cancel : ∀ {x y : α} {r s : Text}, NoDigitFirst r → NoDigitFirst s →
    write x ++ r = write y ++ s → x = y ∧ r = s
  start : ∀ x : α, ∃ b t, write x = b :: t ∧ b ≠ 0x5d

/-- Different values are written differently. -/
theorem Delimits.injective {α : Type} {write : α → Text} (h : Delimits write) :
    Function.Injective write := by
  intro x y he
  exact (h.cancel noDigitFirst_nil noDigitFirst_nil (congrArg (· ++ []) he)).1

theorem Delimits.of_eq {α : Type} {write write' : α → Text} (h : Delimits write)
    (he : ∀ x, write' x = write x) : Delimits write' := by
  rwa [funext he]

/-! ### Integers -/

namespace Decimal

/-- A numeral ends where the digits end. -/
theorem ofNat_cancel {m n : Nat} {r s : Text} (hr : NoDigitFirst r) (hs : NoDigitFirst s)
    (h : ofNat m ++ r = ofNat n ++ s) : m = n ∧ r = s := by
  obtain ⟨he, hrs⟩ :=
    append_cancel (fun _ => isDigit_of_mem_ofNat) (fun _ => isDigit_of_mem_ofNat) hr hs h
  exact ⟨by rw [← value_ofNat m, he, value_ofNat], hrs⟩

/-- A numeral of a natural number has no minus sign. -/
theorem exists_ofNat_eq_cons (n : Nat) : ∃ b t, ofNat n = b :: t ∧ isDigit b = true := by
  obtain ⟨b, t, h⟩ := List.exists_cons_of_ne_nil (ofNat_ne_nil n)
  exact ⟨b, t, h, isDigit_of_mem_ofNat (h ▸ List.mem_cons_self)⟩

theorem ofNat_append_ne_minus (n : Nat) (r s : Text) : ofNat n ++ r ≠ minus :: s := by
  obtain ⟨b, t, hb, hd⟩ := exists_ofNat_eq_cons n
  rw [hb, List.cons_append]
  rintro h
  obtain rfl := (List.cons.inj h).1
  exact absurd hd (by decide)

theorem ofInt_cancel {m n : Int} {r s : Text} (hr : NoDigitFirst r) (hs : NoDigitFirst s)
    (h : ofInt m ++ r = ofInt n ++ s) : m = n ∧ r = s := by
  cases m with
  | ofNat m =>
    cases n with
    | ofNat n =>
      obtain ⟨rfl, rfl⟩ := ofNat_cancel hr hs h
      exact ⟨rfl, rfl⟩
    | negSucc n => exact absurd h (ofNat_append_ne_minus m r _)
  | negSucc m =>
    cases n with
    | ofNat n => exact absurd h.symm (ofNat_append_ne_minus n s _)
    | negSucc n =>
      obtain ⟨he, rfl⟩ := ofNat_cancel hr hs (List.cons.inj h).2
      obtain rfl := Nat.succ.inj he
      exact ⟨rfl, rfl⟩

end Decimal

theorem Delimits.integer : Delimits fun n : Int64 => Decimal.ofInt n.toInt where
  cancel hr hs h := by
    obtain ⟨he, rfl⟩ := Decimal.ofInt_cancel hr hs h
    exact ⟨Int64.toInt_inj.1 he, rfl⟩
  start n := by
    cases n.toInt with
    | ofNat n =>
      obtain ⟨b, t, hb, hd⟩ := Decimal.exists_ofNat_eq_cons n
      refine ⟨b, t, hb, ?_⟩
      rintro rfl
      exact absurd hd (by decide)
    | negSucc n => exact ⟨minus, _, rfl, by decide⟩

theorem Delimits.truth : Delimits fun b : Bool => if b then ("True" : Text) else "False" where
  cancel {x y r s} _ _ h := by
    cases x <;> cases y
    · exact ⟨rfl, List.append_cancel_left h⟩
    · exact absurd (List.cons.inj h).1 (by decide)
    · exact absurd (List.cons.inj h).1 (by decide)
    · exact ⟨rfl, List.append_cancel_left h⟩
  start b := by
    cases b
    · exact ⟨0x46, _, rfl, by decide⟩
    · exact ⟨0x54, _, rfl, by decide⟩

/-! ### Texts -/

namespace Text

variable {quote b c : UInt8} {t u r s : Text}

theorem hexDigit_inj : ∀ m < 16, ∀ n < 16, hexDigit m = hexDigit n → m = n := by
  intro m hm n hn h
  have hv := hexValue?_hexDigit m hm
  rw [h, hexValue?_hexDigit n hn] at hv
  exact (Option.some.inj hv).symm

/-- A byte can be told from what stands behind that which it is written as. -/
theorem Escape.cancel (hb : Escape quote b t) (hc : Escape quote c u) (h : t ++ r = u ++ s) :
    b = c ∧ r = s := by
  cases hb with
  | plain _ hb _ =>
    cases hc with
    | plain _ _ _ => exact List.cons.inj h
    | short _ _ _ _ => exact absurd (List.cons.inj h).1 hb
    | hex => exact absurd (List.cons.inj h).1 hb
  | short d hd hb _ =>
    cases hc with
    | plain _ hc _ => exact absurd (List.cons.inj h).1.symm hc
    | short e _ hc _ =>
      obtain ⟨rfl, rfl⟩ := List.cons.inj (List.cons.inj h).2
      exact ⟨Option.some.inj (hb.symm.trans hc), rfl⟩
    | hex => exact absurd (List.cons.inj (List.cons.inj h).2).1 hd
  | hex =>
    cases hc with
    | plain _ hc _ => exact absurd (List.cons.inj h).1.symm hc
    | short e he _ _ => exact absurd (List.cons.inj (List.cons.inj h).2).1.symm he
    | hex =>
      obtain ⟨h₁, h⟩ := List.cons.inj (List.cons.inj (List.cons.inj h).2).2
      obtain ⟨h₂, h⟩ := List.cons.inj h
      obtain ⟨hb₁, hb₂⟩ := toNat_div_lt_and_mod_lt b
      obtain ⟨hc₁, hc₂⟩ := toNat_div_lt_and_mod_lt c
      refine ⟨UInt8.toNat_inj.1 ?_, h⟩
      rw [← Nat.div_add_mod b.toNat 16, ← Nat.div_add_mod c.toNat 16,
        hexDigit_inj _ hb₁ _ hc₁ h₁, hexDigit_inj _ hb₂ _ hc₂ h₂]

/-- No byte is written as something that starts with the mark. -/
theorem Escape.append_ne_mark (hq : IsMark quote) (hb : Escape quote b t) :
    t ++ r ≠ quote :: s := by
  have hm : backslash ≠ quote := by
    obtain rfl | rfl := hq <;> decide
  intro h
  cases hb with
  | plain hb _ _ => exact hb (List.cons.inj h).1
  | short _ _ _ _ => exact hm (List.cons.inj h).1
  | hex => exact hm (List.cons.inj h).1

/-- What a text is written as ends at the first mark that is not escaped. -/
theorem flatMap_escapeByte_cancel (hq : IsMark quote) {t u : Text}
    (h : t.flatMap (escapeByte quote) ++ quote :: r = u.flatMap (escapeByte quote) ++ quote :: s) :
    t = u ∧ r = s := by
  induction t generalizing u with
  | nil =>
    cases u with
    | nil => exact ⟨rfl, (List.cons.inj h).2⟩
    | cons c u =>
      rw [List.flatMap_cons, List.append_assoc] at h
      exact absurd h.symm ((escape_escapeByte hq c).append_ne_mark hq)
  | cons b t ih =>
    rw [List.flatMap_cons, List.append_assoc] at h
    cases u with
    | nil => exact absurd h ((escape_escapeByte hq b).append_ne_mark hq)
    | cons c u =>
      rw [List.flatMap_cons, List.append_assoc] at h
      obtain ⟨rfl, he⟩ := (escape_escapeByte hq b).cancel (escape_escapeByte hq c) h
      obtain ⟨rfl, rfl⟩ := ih he
      exact ⟨rfl, rfl⟩

end Text

theorem Delimits.text : Delimits Text.quoted where
  cancel {t u r s} _ _ h := by
    simp only [Text.quoted_eq, List.cons_append, List.append_assoc, List.nil_append,
      List.cons.injEq] at h
    obtain ⟨hq, h⟩ := h
    rw [← hq] at h
    exact Text.flatMap_escapeByte_cancel (Text.isMark_enclosingQuote t) h
  start s := by
    refine ⟨s.enclosingQuote, _, Text.quoted_eq s, ?_⟩
    obtain h | h := Text.isMark_enclosingQuote s <;> rw [h] <;> decide

/-! ### Pairs and lists -/

section Containers

variable {α β : Type} {write : α → Text} {write' : β → Text}

/-- How a pair is written by the texts of its elements. -/
def pairText (s t : Text) : Text := ("(" : Text) ++ s ++ (", " : Text) ++ t ++ (")" : Text)

/-- How a list is written by the texts of its elements. -/
def listText (ss : List Text) : Text := ("[" : Text) ++ Text.joinWith ", " ss ++ ("]" : Text)

theorem pairText_append (s t r : Text) :
    pairText s t ++ r = 0x28 :: (s ++ 0x2c :: 0x20 :: (t ++ 0x29 :: r)) := by
  simp only [pairText, List.append_assoc]
  rfl

theorem Delimits.pair (h : Delimits write) (h' : Delimits write') :
    Delimits fun p : α × β => pairText (write p.1) (write' p.2) where
  cancel {p q r s} _ _ he := by
    rw [pairText_append, pairText_append] at he
    obtain ⟨hx, he⟩ := h.cancel (noDigitFirst_cons rfl _) (noDigitFirst_cons rfl _)
      (List.cons.inj he).2
    obtain ⟨hy, he⟩ := h'.cancel (noDigitFirst_cons rfl _) (noDigitFirst_cons rfl _)
      (List.cons.inj (List.cons.inj he).2).2
    exact ⟨Prod.ext hx hy, (List.cons.inj he).2⟩
  start p := ⟨0x28, _, rfl, by decide⟩

/-- What is written behind the first element of a list, with something behind the list. -/
def laterText (write : α → Text) (xs : List α) (r : Text) : Text :=
  xs.flatMap (fun x => 0x2c :: 0x20 :: write x) ++ 0x5d :: r

theorem laterText_nil (r : Text) : laterText write [] r = 0x5d :: r := rfl

theorem laterText_cons (x : α) (xs : List α) (r : Text) :
    laterText write (x :: xs) r = 0x2c :: 0x20 :: (write x ++ laterText write xs r) := by
  simp [laterText]

theorem noDigitFirst_laterText (xs : List α) (r : Text) : NoDigitFirst (laterText write xs r) := by
  cases xs with
  | nil => exact noDigitFirst_cons rfl _
  | cons x xs => exact noDigitFirst_cons rfl _

theorem listText_nil (r : Text) : listText [] ++ r = 0x5b :: 0x5d :: r := rfl

theorem joinWith_append (x : α) (xs : List α) (r : Text) :
    Text.joinWith ", " ((x :: xs).map write) ++ 0x5d :: r = write x ++ laterText write xs r := by
  induction xs generalizing x with
  | nil => rfl
  | cons y xs ih =>
    rw [List.map_cons, List.map_cons, Text.joinWith_cons_cons, ← List.map_cons, laterText_cons,
      List.append_assoc, List.append_assoc, ih]
    rfl

theorem listText_cons (x : α) (xs : List α) (r : Text) :
    listText ((x :: xs).map write) ++ r = 0x5b :: (write x ++ laterText write xs r) := by
  rw [← joinWith_append, listText, List.append_assoc, List.append_assoc]
  rfl

/-- The elements behind the first one can be told from what stands behind their list. -/
theorem Delimits.laterText_cancel (h : Delimits write) {xs ys : List α} {r s : Text}
    (he : laterText write xs r = laterText write ys s) : xs = ys ∧ r = s := by
  induction xs generalizing ys with
  | nil =>
    cases ys with
    | nil => exact ⟨rfl, (List.cons.inj he).2⟩
    | cons y ys =>
      rw [laterText_nil, laterText_cons] at he
      exact absurd (List.cons.inj he).1 (by decide)
  | cons x xs ih =>
    cases ys with
    | nil =>
      rw [laterText_nil, laterText_cons] at he
      exact absurd (List.cons.inj he).1 (by decide)
    | cons y ys =>
      rw [laterText_cons, laterText_cons] at he
      obtain ⟨rfl, hl⟩ := h.cancel (noDigitFirst_laterText _ _) (noDigitFirst_laterText _ _)
        (List.cons.inj (List.cons.inj he).2).2
      obtain ⟨rfl, rfl⟩ := ih hl
      exact ⟨rfl, rfl⟩

/-- An element is not written as the end of a list. -/
theorem Delimits.append_ne_bracket (h : Delimits write) (x : α) (r s : Text) :
    write x ++ r ≠ 0x5d :: s := by
  obtain ⟨b, t, hb, hc⟩ := h.start x
  rw [hb]
  exact fun he => hc (List.cons.inj he).1

theorem Delimits.list (h : Delimits write) :
    Delimits fun xs : List α => listText (xs.map write) where
  cancel {xs ys r s} _ _ he := by
    cases xs with
    | nil =>
      cases ys with
      | nil => exact ⟨rfl, (List.cons.inj (List.cons.inj he).2).2⟩
      | cons y ys =>
        rw [List.map_nil, listText_nil, listText_cons] at he
        exact absurd (List.cons.inj he).2.symm (h.append_ne_bracket _ _ _)
    | cons x xs =>
      cases ys with
      | nil =>
        rw [List.map_nil, listText_nil, listText_cons] at he
        exact absurd (List.cons.inj he).2 (h.append_ne_bracket _ _ _)
      | cons y ys =>
        rw [listText_cons, listText_cons] at he
        obtain ⟨rfl, hl⟩ := h.cancel (noDigitFirst_laterText _ _) (noDigitFirst_laterText _ _)
          (List.cons.inj he).2
        obtain ⟨rfl, rfl⟩ := h.laterText_cancel hl
        exact ⟨rfl, rfl⟩
  start xs := ⟨0x5b, _, rfl, by decide⟩

end Containers

namespace Value

theorem quoted_integer (n : Int64) : (integer n).quoted = Decimal.ofInt n.toInt := by
  rw [quoted, render]

theorem quoted_truth (b : Bool) : (truth b).quoted = if b then ("True" : Text) else "False" := by
  rw [quoted, render]

theorem quoted_pair (v w : Value) : (pair v w).quoted = pairText v.quoted w.quoted := by
  rw [quoted, render]
  rfl

theorem quoted_list (vs : List Value) : (list vs).quoted = listText (vs.map quoted) := by
  rw [quoted, render, renderAll_eq_map]
  rfl

end Value

/-! ### Types -/

/-- The types that are built from integers, truth values and texts by pairs and lists. -/
inductive Shape where
  | integer
  | truth
  | text
  | pair (σ τ : Shape)
  | list (τ : Shape)

namespace Shape

/-- The values of a type. -/
def Carrier : Shape → Type
  | integer => Int64
  | truth => Bool
  | text => Text
  | pair σ τ => σ.Carrier × τ.Carrier
  | list τ => List τ.Carrier

/-- A value of a type as a value of a script. -/
def value : (τ : Shape) → τ.Carrier → Value
  | integer, n => .integer n
  | truth, b => .truth b
  | text, s => .text s
  | pair σ τ, p => .pair (σ.value p.1) (τ.value p.2)
  | list τ, xs => .list (xs.map τ.value)

/-- The quoted texts of a type delimit themselves. -/
theorem delimits : (τ : Shape) → Delimits fun x : τ.Carrier => (τ.value x).quoted
  | integer => Delimits.integer.of_eq Value.quoted_integer
  | truth => Delimits.truth.of_eq Value.quoted_truth
  | text => Delimits.text.of_eq Value.quoted_text
  | pair σ τ => (σ.delimits.pair τ.delimits).of_eq fun p =>
    Value.quoted_pair (σ.value p.1) (τ.value p.2)
  | list τ => τ.delimits.list.of_eq fun xs => by
    refine (Value.quoted_list (xs.map τ.value)).trans ?_
    rw [List.map_map]
    rfl

/-- Values of one type that have the same quoted text are the same value. -/
theorem quoted_injective (τ : Shape) :
    Function.Injective fun x : τ.Carrier => (τ.value x).quoted :=
  τ.delimits.injective

/-- Commas and marks in a text do not make two texts of it. -/
example :
    (Value.list [.text "a', 'b"]).quoted = "[\"a', 'b\"]" ∧
      (Value.list [.text "a", .text "b"]).quoted = "['a', 'b']" := by
  decide +kernel

end Shape

end ScriptBase
