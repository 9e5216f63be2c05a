import ScriptBase.Platform.Basic
import ScriptBase.Proofs.Text.Encoding
import ScriptBase.Text.Decode

/-!
# The characters of a text on a lawful platform

A lawful platform takes the first character of a text to be the scalar value whose encoding stands
there, or the broken sequence that stands there. So the characters of a text make up the text, and
the encodings in a well-formed text are read as the scalar values that they are the encodings of.

What is read in front of a text that starts with no continuation byte is read as if it stood alone,
malformed or not: an encoding that goes on in such a text does not exist, and so a broken sequence
does not reach into it.

## Main results

* `ScriptBase.Text.firstGlyph_cases`: the first character of a text.
* `ScriptBase.Text.glyphs_induction`: induction by characters, from left to right.
* `ScriptBase.Text.ofGlyphs_glyphs`: the characters of a text make up the text.
* `ScriptBase.Text.WellFormed.glyphs_append`: reading a text behind a well-formed one.
* `ScriptBase.Text.NoContinuationFirst.glyphs_append`: reading a text in front of one that starts
  with no continuation byte.
-/

namespace ScriptBase

/-! ### Broken sequences -/

namespace IsBroken

variable {m n s t : Text}

/-- A text starts with no more than one broken sequence. -/
theorem unique (hm : IsBroken m s) (hn : IsBroken n s) : m = n := by
  have hle {m n : Text} (hm : IsBroken m s) (hn : IsBroken n s) : m.length ≤ n.length := by
    rcases hm.starts with h | h
    · rw [h]
      exact List.length_pos_iff.2 hn.ne_nil
    · exact hn.longest m hm.isPrefix h
  exact List.prefix_of_prefix_length_le hm.isPrefix hn.isPrefix (hle hm hn) |>.eq_of_length
    (Nat.le_antisymm (hle hm hn) (hle hn hm))

/-- A broken sequence does not reach into a text that starts with no continuation byte. -/
theorem append (hm : IsBroken m s) (hs : s ≠ []) (ht : t.NoContinuationFirst) :
    IsBroken m (s ++ t) where
  isPrefix := hm.isPrefix.trans (List.prefix_append s t)
  ne_nil := hm.ne_nil
  starts := hm.starts
  longest other ho := by
    rintro ⟨c, hc⟩
    exact hm.longest other (ht.isPrefix_of_encodeChar_isPrefix hs hc ho) ⟨c, hc⟩

end IsBroken

namespace Text

open Platform (firstGlyph)

variable [Platform] [LawfulPlatform] {b : UInt8} {m s t : Text} {c : Char}

/-! ### The first character -/

/-- A scalar value is read exactly where its encoding stands. -/
theorem firstGlyph_eq_scalar_iff (hs : s ≠ []) :
    firstGlyph s = .scalar c ↔ String.utf8EncodeChar c <+: s := by
  obtain ⟨b, s, rfl⟩ := List.exists_cons_of_ne_nil hs
  exact LawfulPlatform.firstGlyph_eq_scalar_iff b s c

theorem isBroken_of_firstGlyph (hs : s ≠ []) (h : firstGlyph s = .malformed m) : IsBroken m s := by
  obtain ⟨b, s, rfl⟩ := List.exists_cons_of_ne_nil hs
  exact LawfulPlatform.isBroken_of_firstGlyph b s m h

theorem firstGlyph_encodeChar_append (c : Char) (t : Text) :
    firstGlyph (String.utf8EncodeChar c ++ t) = .scalar c :=
  (firstGlyph_eq_scalar_iff (encodeChar_append_ne_nil c t)).2 (List.prefix_append _ t)

/-- A text starts with the encoding of a scalar value or with a broken sequence, and this is what is
read. -/
theorem firstGlyph_cases (hs : s ≠ []) :
    (∃ c t, s = String.utf8EncodeChar c ++ t) ∨
      ∃ m t, s = m ++ t ∧ firstGlyph s = .malformed m ∧ IsBroken m s := by
  cases h : firstGlyph s with
  | scalar c =>
    obtain ⟨t, ht⟩ := (firstGlyph_eq_scalar_iff hs).1 h
    exact .inl ⟨c, t, ht.symm⟩
  | malformed m =>
    have hm := isBroken_of_firstGlyph hs h
    obtain ⟨t, ht⟩ := hm.isPrefix
    exact .inr ⟨m, t, ht.symm, rfl, hm⟩

/-- The first character takes a part of the text, one byte at least. -/
theorem bytes_firstGlyph (hs : s ≠ []) :
    (firstGlyph s).bytes <+: s ∧ 0 < (firstGlyph s).bytes.length := by
  obtain ⟨c, t, rfl⟩ | ⟨m, t, -, hg, hm⟩ := firstGlyph_cases hs
  · rw [firstGlyph_encodeChar_append]
    exact ⟨List.prefix_append _ t, length_encodeChar_pos c⟩
  · rw [hg]
    exact ⟨hm.isPrefix, List.length_pos_iff.2 hm.ne_nil⟩

/-! ### The characters of a text -/

/-- The characters behind the first are those of the rest of the text. -/
theorem glyphs_eq_cons (hs : s ≠ []) :
    s.glyphs = firstGlyph s :: glyphs (s.drop (firstGlyph s).bytes.length) := by
  have hpos := (bytes_firstGlyph hs).2
  obtain ⟨b, s, rfl⟩ := List.exists_cons_of_ne_nil hs
  rw [glyphs, glyphsFrom, glyphsFrom_eq_drop]
  obtain ⟨n, hn⟩ := Nat.exists_eq_add_of_le' hpos
  rw [hn, List.drop_succ_cons, Nat.add_sub_cancel]

theorem glyphs_encodeChar_append (c : Char) (t : Text) :
    glyphs (String.utf8EncodeChar c ++ t) = .scalar c :: glyphs t := by
  rw [glyphs_eq_cons (encodeChar_append_ne_nil c t), firstGlyph_encodeChar_append,
    Glyph.bytes_scalar, List.drop_left]

theorem glyphs_malformed_append (hm : m ≠ []) (h : firstGlyph (m ++ t) = .malformed m) :
    glyphs (m ++ t) = .malformed m :: glyphs t := by
  rw [glyphs_eq_cons (List.append_ne_nil_of_left_ne_nil hm t), h, Glyph.bytes_malformed,
    List.drop_left]

/-- Induction on a text by its characters, from left to right. -/
theorem glyphs_induction {p : Text → Prop} (nil : p [])
    (malformed : ∀ m t, IsBroken m (m ++ t) → firstGlyph (m ++ t) = .malformed m → p t → p (m ++ t))
    (scalar : ∀ c t, p t → p (String.utf8EncodeChar c ++ t)) (s : Text) : p s := by
  induction hn : s.length using Nat.strong_induction_on generalizing s with
  | _ n ih =>
    rcases eq_or_ne s [] with rfl | hs
    · exact nil
    obtain ⟨c, t, rfl⟩ | ⟨m, t, rfl, hg, hm⟩ := firstGlyph_cases hs
    · refine scalar c t (ih t.length ?_ t rfl)
      have := length_encodeChar_pos c
      rw [List.length_append] at hn
      omega
    · refine malformed m t hm hg (ih t.length ?_ t rfl)
      have := List.length_pos_iff.2 hm.ne_nil
      rw [List.length_append] at hn
      omega

/-- The characters of a text make up the text. -/
@[simp] theorem ofGlyphs_glyphs (s : Text) : ofGlyphs s.glyphs = s := by
  induction s using glyphs_induction with
  | nil => rfl
  | malformed m t hm hg ih =>
    rw [glyphs_malformed_append hm.ne_nil hg, ofGlyphs_cons, ih, Glyph.bytes_malformed]
  | scalar c t ih => rw [glyphs_encodeChar_append, ofGlyphs_cons, ih, Glyph.bytes_scalar]

/-- Only an empty text has no characters. -/
theorem glyphs_eq_nil_iff : s.glyphs = [] ↔ s = [] := by
  refine ⟨fun h => ?_, fun h => by rw [h, glyphs_nil]⟩
  rw [← ofGlyphs_glyphs s, h, ofGlyphs_nil]

/-- Every character of a text takes one byte at least. -/
theorem bytes_ne_nil_of_mem_glyphs {g : Glyph} (hg : g ∈ s.glyphs) : g.bytes ≠ [] := by
  induction s using glyphs_induction with
  | nil => simp at hg
  | malformed m t hm h ih =>
    rw [glyphs_malformed_append hm.ne_nil h] at hg
    rcases List.mem_cons.1 hg with rfl | hg
    · exact hm.ne_nil
    · exact ih hg
  | scalar c t ih =>
    rw [glyphs_encodeChar_append] at hg
    rcases List.mem_cons.1 hg with rfl | hg
    · exact String.utf8EncodeChar_ne_nil
    · exact ih hg

/-! ### Well-formed texts -/

/-- The scalar values of a list are read from its encoding. -/
theorem glyphs_encode_append (cs : List Char) (t : Text) :
    glyphs (encode cs ++ t) = cs.map Glyph.scalar ++ glyphs t := by
  induction cs with
  | nil => rfl
  | cons c cs ih =>
    rw [encode_cons, List.append_assoc, glyphs_encodeChar_append, ih, List.map_cons,
      List.cons_append]

theorem glyphs_encode (cs : List Char) : glyphs (encode cs) = cs.map Glyph.scalar := by
  have h := glyphs_encode_append cs []
  rwa [List.append_nil, glyphs_nil, List.append_nil] at h

/-- What stands behind a well-formed text is read as if it stood alone. -/
theorem WellFormed.glyphs_append (hs : WellFormed s) (t : Text) :
    glyphs (s ++ t) = glyphs s ++ glyphs t := by
  obtain ⟨cs, rfl⟩ := hs
  rw [glyphs_encode_append, glyphs_encode]

/-- A text is well-formed exactly if none of its characters is malformed. -/
theorem wellFormed_iff : s.WellFormed ↔ ∀ g ∈ s.glyphs, 0 ≤ g.number := by
  constructor
  · rintro ⟨cs, rfl⟩ g hg
    rw [glyphs_encode] at hg
    obtain ⟨c, -, rfl⟩ := List.mem_map.1 hg
    exact Int.natCast_nonneg c.toNat
  · intro h
    exact ⟨s.glyphs.map Glyph.toChar, by rw [encode_map_toChar h, ofGlyphs_glyphs]⟩

/-! ### Texts that go on with no sequence in front of them -/

/-- What stands in front of a text that starts with no continuation byte is read as if it stood
alone. -/
theorem NoContinuationFirst.glyphs_append (ht : NoContinuationFirst t) (s : Text) :
    glyphs (s ++ t) = glyphs s ++ glyphs t := by
  induction s using glyphs_induction with
  | nil => rfl
  | scalar c s ih =>
    rw [List.append_assoc, glyphs_encodeChar_append, glyphs_encodeChar_append, ih,
      List.cons_append]
  | malformed m s hm hg ih =>
    have hn : m ++ s ≠ [] := List.append_ne_nil_of_left_ne_nil hm.ne_nil s
    -- no encoding stands at the start, so the same broken sequence is read
    have hg' : firstGlyph (m ++ s ++ t) = .malformed m := by
      have hn' : m ++ s ++ t ≠ [] := List.append_ne_nil_of_left_ne_nil hn t
      cases hf : firstGlyph (m ++ s ++ t) with
      | scalar c =>
        have hc := (firstGlyph_eq_scalar_iff hn').1 hf
        have hc' := ht.isPrefix_of_encodeChar_isPrefix hn List.prefix_rfl hc
        rw [(firstGlyph_eq_scalar_iff hn).2 hc'] at hg
        cases hg
      | malformed n =>
        rw [(isBroken_of_firstGlyph hn' hf).unique (hm.append hn ht)]
    rw [glyphs_malformed_append hm.ne_nil hg, List.append_assoc,
      glyphs_malformed_append hm.ne_nil (by rwa [← List.append_assoc]), ih, List.cons_append]

/-- What stands in front of a well-formed text is read as if it stood alone. -/
theorem glyphs_append_of_wellFormed (ht : t.WellFormed) (s : Text) :
    glyphs (s ++ t) = glyphs s ++ glyphs t :=
  ht.noContinuationFirst.glyphs_append s

/-- A scalar value is the last character of a text exactly if its encoding stands at the end. -/
theorem getLast?_glyphs_eq_scalar_iff :
    s.glyphs.getLast? = some (.scalar c) ↔ String.utf8EncodeChar c <:+ s := by
  constructor
  · intro h
    obtain ⟨gs, hgs⟩ := List.getLast?_eq_some_iff.1 h
    refine ⟨ofGlyphs gs, ?_⟩
    have hs := ofGlyphs_glyphs s
    rw [hgs, ofGlyphs_append] at hs
    simpa using hs
  · rintro ⟨t, rfl⟩
    have hc := glyphs_encode [c]
    rw [encode_cons, encode_nil, List.append_nil] at hc
    rw [glyphs_append_of_wellFormed ⟨[c], by simp⟩, hc]
    exact List.getLast?_concat

end Text

end ScriptBase
