import Mathlib.Logic.Function.Basic
import ScriptBase.Value.Render

/-!
# Quoted texts are literals

What a byte is written as between two quotation marks is read as that byte again, and reading goes
on right behind it, whatever stands there. So the quoted form of a text is read as the text. Its
closing mark is the only mark of its kind that is not escaped, and no control byte stands in it.

## Main definitions

* `ScriptBase.Text.Escape`: the ways in which a byte is written.
* `ScriptBase.Text.bare`: the bytes of a literal that are not escaped.

## Main results

* `ScriptBase.Text.escape_escapeByte`: how each byte is written.
* `ScriptBase.Text.unescaped?_escape`: a byte is read from what it is written as.
* `ScriptBase.Text.quoted_decodes`: quoted forms as literals.
-/

namespace ScriptBase

open Ascii (backslash newline carriageReturn tab delete singleQuote doubleQuote hexDigit)

namespace Text

variable {quote b : UInt8} {s : Text}

/-! ### How bytes are written -/

/-- The quotation marks. -/
def IsMark (quote : UInt8) : Prop := quote = singleQuote ∨ quote = doubleQuote

/-- The bytes that may stand in a literal. -/
def IsShown (b : UInt8) : Prop := 0x20 ≤ b ∧ b ≠ delete

theorem isMark_enclosingQuote (s : Text) : IsMark s.enclosingQuote := by
  rw [enclosingQuote]
  split
  · exact .inr rfl
  · exact .inl rfl

/-- The ways in which a byte is written between two marks. -/
inductive Escape (quote b : UInt8) : Text → Prop
  /-- The byte stands for itself. -/
  | plain (hq : b ≠ quote) (hb : b ≠ backslash) (hs : IsShown b) : Escape quote b [b]
  /-- A backslash and one byte that tells which is meant. -/
  | short (c : UInt8) (hx : c ≠ 0x78) (hc : unescape? quote c = some b) (hs : IsShown c) :
    Escape quote b [backslash, c]
  /-- The number of the byte in hexadecimal digits. -/
  | hex : Escape quote b
      [backslash, 0x78, hexDigit (b.toNat / 16), hexDigit (b.toNat % 16)]

theorem unescape?_of_isMark (hq : IsMark quote) :
    unescape? quote backslash = some backslash ∧ unescape? quote quote = some quote ∧
      unescape? quote 0x6e = some newline ∧ unescape? quote 0x72 = some carriageReturn ∧
      unescape? quote 0x74 = some tab := by
  obtain rfl | rfl := hq <;> decide

/-- Every byte is written in one of these ways. -/
theorem escape_escapeByte (hq : IsMark quote) (b : UInt8) :
    Escape quote b (escapeByte quote b) := by
  obtain ⟨hb, hm, hn, hr, ht⟩ := unescape?_of_isMark hq
  unfold escapeByte
  split
  · next h =>
    subst h
    exact .short backslash (by decide) hb ⟨by decide, by decide⟩
  split
  · next h =>
    subst h
    exact .short 0x6e (by decide) hn ⟨by decide, by decide⟩
  split
  · next h =>
    subst h
    exact .short 0x72 (by decide) hr ⟨by decide, by decide⟩
  split
  · next h =>
    subst h
    exact .short 0x74 (by decide) ht ⟨by decide, by decide⟩
  split
  · next h =>
    subst h
    obtain rfl | rfl := hq <;> exact .short _ (by decide) hm ⟨by decide, by decide⟩
  split
  · exact .hex
  · next hb _ _ _ hq hc =>
    simp only [Bool.or_eq_true, decide_eq_true_eq, not_or, UInt8.not_lt] at hc
    exact .plain hq hb hc

/-- A byte has two hexadecimal digits. -/
theorem toNat_div_lt_and_mod_lt (b : UInt8) : b.toNat / 16 < 16 ∧ b.toNat % 16 < 16 := by
  have h := b.toNat_lt
  omega

theorem isShown_hexDigit : ∀ n < 16, IsShown (hexDigit n) := by
  unfold IsShown
  decide

/-- No control byte is written. -/
theorem Escape.isShown {t : Text} (h : Escape quote b t) : ∀ c ∈ t, IsShown c := by
  have hs : IsShown backslash := ⟨by decide, by decide⟩
  cases h with
  | plain hq hb h => simpa using h
  | short c hx hc h => simpa using ⟨hs, h⟩
  | hex =>
    have hx : IsShown 0x78 := ⟨by decide, by decide⟩
    obtain ⟨h₁, h₂⟩ := toNat_div_lt_and_mod_lt b
    simpa using ⟨hs, hx, isShown_hexDigit _ h₁, isShown_hexDigit _ h₂⟩

/-! ### Reading what a byte is written as -/

theorem unescaped?_cons_of_ne (hb : b ≠ backslash) (s : Text) :
    unescaped? quote (b :: s) =
      if b = quote then if s.isEmpty then some [] else none
      else if b < 0x20 || b = delete then none
      else (unescaped? quote s).map (b :: ·) := by
  rw [unescaped?.eq_4 quote b s (fun _ _ _ h => absurd h hb) fun _ _ h => absurd h hb]
  simp [hb]

theorem unescaped?_backslash_cons (hb : b ≠ 0x78) (s : Text) :
    unescaped? quote (backslash :: b :: s) =
      match unescape? quote b with
      | some b => (unescaped? quote s).map (b :: ·)
      | none => none :=
  unescaped?.eq_3 quote b s fun _ _ _ h => absurd h hb

theorem hexValue?_hexDigit : ∀ n < 16, hexValue? (hexDigit n) = some n := by decide

/-- The two hexadecimal digits of a byte are read as the byte. -/
theorem unescaped?_hex (b : UInt8) (s : Text) :
    unescaped? quote
        (backslash :: 0x78 :: hexDigit (b.toNat / 16) :: hexDigit (b.toNat % 16) :: s) =
      (unescaped? quote s).map (b :: ·) := by
  have h : unescaped? quote
      (backslash :: 0x78 :: hexDigit (b.toNat / 16) :: hexDigit (b.toNat % 16) :: s) = _ :=
    unescaped?.eq_2 quote _ _ s
  obtain ⟨h₁, h₂⟩ := toNat_div_lt_and_mod_lt b
  rw [h, hexValue?_hexDigit _ h₁, hexValue?_hexDigit _ h₂]
  dsimp only
  rw [Nat.div_add_mod, UInt8.ofNat_toNat]

/-- A byte is read from what it is written as, and the reading goes on behind that. -/
theorem unescaped?_escape {t : Text} (h : Escape quote b t) (s : Text) :
    unescaped? quote (t ++ s) = (unescaped? quote s).map (b :: ·) := by
  cases h with
  | plain hq hb hs =>
    have hc : (b < 0x20 || b = delete) = false := by
      simpa [IsShown, UInt8.not_lt] using hs
    rw [List.singleton_append, unescaped?_cons_of_ne hb, if_neg hq, hc]
    rfl
  | short c hx hc hs =>
    change unescaped? quote (backslash :: c :: s) = _
    rw [unescaped?_backslash_cons hx, hc]
  | hex => exact unescaped?_hex b s

/-! ### Bytes that are not escaped -/

/-- The bytes that are not escaped by a backslash, without the backslashes that escape. -/
def bare : Text → Text
  | [] => []
  | [b] => [b]
  | b :: c :: s => if b = backslash then bare s else b :: bare (c :: s)

theorem bare_cons_of_ne (hb : b ≠ backslash) (s : Text) : bare (b :: s) = b :: bare s := by
  cases s with
  | nil => rfl
  | cons c s => rw [bare, if_neg hb]

theorem bare_backslash_cons (b : UInt8) (s : Text) : bare (backslash :: b :: s) = bare s := by
  rw [bare, if_pos rfl]

theorem hexDigit_ne : ∀ n < 16, hexDigit n ≠ backslash ∧ hexDigit n ≠ singleQuote ∧
    hexDigit n ≠ doubleQuote := by
  decide

/-- What a byte is written as has no mark that is not escaped, and escapes nothing behind it. -/
theorem exists_bare_escape (hq : IsMark quote) {t : Text} (h : Escape quote b t) :
    ∃ u, quote ∉ u ∧ ∀ s, bare (t ++ s) = u ++ bare s := by
  cases h with
  | plain hne hb hs => exact ⟨[b], by simpa using hne.symm, bare_cons_of_ne hb⟩
  | short c hx hc hs => exact ⟨[], List.not_mem_nil, bare_backslash_cons c⟩
  | hex =>
    obtain ⟨h₁, h₂⟩ := toNat_div_lt_and_mod_lt b
    obtain ⟨hb₁, hs₁, hd₁⟩ := hexDigit_ne _ h₁
    obtain ⟨hb₂, hs₂, hd₂⟩ := hexDigit_ne _ h₂
    refine ⟨[hexDigit (b.toNat / 16), hexDigit (b.toNat % 16)], ?_, fun s => ?_⟩
    · obtain rfl | rfl := hq
      · simpa using ⟨hs₁.symm, hs₂.symm⟩
      · simpa using ⟨hd₁.symm, hd₂.symm⟩
    · change bare (backslash :: 0x78 :: hexDigit _ :: hexDigit _ :: s) = _
      rw [bare_backslash_cons, bare_cons_of_ne hb₁, bare_cons_of_ne hb₂]
      rfl

/-! ### Texts -/

/-- What a text is written as is read as the text up to the mark behind it. -/
theorem unescaped?_flatMap (hq : IsMark quote) (s : Text) :
    unescaped? quote (s.flatMap (escapeByte quote) ++ [quote]) = some s := by
  induction s with
  | nil =>
    obtain rfl | rfl := hq <;> rfl
  | cons b s ih =>
    rw [List.flatMap_cons, List.append_assoc, unescaped?_escape (escape_escapeByte hq b), ih]
    rfl

/-- Only marks that are escaped stand in what a text is written as. -/
theorem exists_bare_flatMap (hq : IsMark quote) (s : Text) :
    ∃ u, quote ∉ u ∧ ∀ t, bare (s.flatMap (escapeByte quote) ++ t) = u ++ bare t := by
  induction s with
  | nil => exact ⟨[], List.not_mem_nil, fun t => rfl⟩
  | cons b s ih =>
    obtain ⟨u, hu, hb⟩ := exists_bare_escape hq (escape_escapeByte hq b)
    obtain ⟨v, hv, hs⟩ := ih
    refine ⟨u ++ v, by simp [hu, hv], fun t => ?_⟩
    rw [List.flatMap_cons, List.append_assoc, hb, hs, List.append_assoc]

/-- A text is read from its quoted form. -/
theorem unquoted?_quoted (s : Text) : unquoted? s.quoted = some s := by
  have hq := isMark_enclosingQuote s
  rw [quoted_eq, unquoted?, if_pos (by simpa [IsMark] using hq)]
  exact unescaped?_flatMap hq s

/-- The quoted form of a text stands between two equal marks, double quotes exactly if the text has
single quotes and no double quotes. It is read as the text. The closing mark is the only one of its
kind that is not escaped, and no control byte stands between the marks. So different texts have
different quoted forms. -/
theorem quoted_decodes :
    (∀ s : Text, ∃ quote inside,
      (Value.text s).quoted = quote :: (inside ++ [quote]) ∧
        (quote = singleQuote ∨ quote = doubleQuote) ∧
        (quote = doubleQuote ↔ singleQuote ∈ s ∧ doubleQuote ∉ s) ∧
        unquoted? (Value.text s).quoted = some s ∧
        quote ∉ bare inside ∧ bare (inside ++ [quote]) = bare inside ++ [quote] ∧
        ∀ b ∈ inside, 0x20 ≤ b ∧ b ≠ 0x7f) ∧
      Function.Injective fun s : Text => (Value.text s).quoted := by
  constructor
  · intro s
    have hq := isMark_enclosingQuote s
    obtain ⟨u, hu, hb⟩ := exists_bare_flatMap hq s
    have hi : bare (s.flatMap (escapeByte s.enclosingQuote)) = u := by
      have h := hb []
      rwa [List.append_nil, bare, List.append_nil] at h
    refine ⟨s.enclosingQuote, s.flatMap (escapeByte s.enclosingQuote), ?_, hq,
      enclosingQuote_eq_doubleQuote_iff s, ?_, ?_, ?_, fun b hm => ?_⟩
    · rw [Value.quoted_text, quoted_eq]
    · rw [Value.quoted_text, unquoted?_quoted]
    · rwa [hi]
    · rw [hb, hi]
      rfl
    · obtain ⟨c, -, hc⟩ := List.mem_flatMap.1 hm
      exact (escape_escapeByte hq c).isShown b hc
  · intro s t h
    dsimp only at h
    rw [Value.quoted_text, Value.quoted_text] at h
    have hs := unquoted?_quoted s
    rw [h, unquoted?_quoted] at hs
    exact (Option.some.inj hs).symm

/-- A text with both quotation marks that looks like an escape, and a control byte. -/
example : Text.quoted "\\n'\"\x01" = "'\\\\n\\'\"\\x01'" := by
  decide +kernel

end Text

end ScriptBase
