import Mathlib.Algebra.Order.BigOperators.Group.List
import ScriptBase.Proofs.Floating.ReadingBack
import ScriptBase.Proofs.Text.Encoding
import ScriptBase.Proofs.Value.Parts

/-!
# Optional values in containers

A container writes its elements quoted. For a script, an optional value that is present is what it
holds, so one expects the text of the container in which each such value is replaced by what it
holds. But the quoted text of an optional value is the plain text of what it holds. So the container
has that text exactly if none of the optional values in it, at any depth, holds a text or character
itself, and otherwise it has a shorter one, without the quotation marks.

At its place in a container, an optional value that is present leaves the plain text of what it
holds, and an absent one leaves `None`. The two can be told apart unless the first one holds an
absent value or the text `None`.

## Main definitions

* `ScriptBase.Value.unwrapped`: a value in which optional values are replaced by what they hold.
* `ScriptBase.Value.innermost`: what an optional value holds in the end.

## Main results

* `ScriptBase.Value.quoted_unwrapped_of_forall`, `ScriptBase.Value.length_quoted_lt`: when quotation
  marks are lost.
* `ScriptBase.Value.plain_eq_none_iff`: the values that are written as an absent value.
* `ScriptBase.Value.plain_container_iff`: containers with optional values.
-/

namespace ScriptBase

namespace Text

/-! ### Lengths -/

theorem length_joinWith (separator : Text) (ss : List Text) :
    (joinWith separator ss).length =
      (ss.map List.length).sum + (ss.length - 1) * separator.length := by
  induction ss with
  | nil => simp
  | cons s ss ih =>
    cases ss with
    | nil => simp
    | cons t rest =>
      rw [joinWith_cons_cons, List.length_append, List.length_append, ih]
      simp only [List.map_cons, List.sum_cons, List.length_cons, Nat.add_sub_cancel, Nat.add_mul]
      omega

section Joined

variable {α : Type} {separator : Text} {xs : List α} {f g : α → Text}

/-- Texts that are no longer one by one are no longer in a row. -/
theorem length_joinWith_le (h : ∀ x ∈ xs, (f x).length ≤ (g x).length) :
    (joinWith separator (xs.map f)).length ≤ (joinWith separator (xs.map g)).length := by
  have hs := List.sum_le_sum h
  simp only [length_joinWith, List.map_map, List.length_map, Function.comp_def]
  omega

theorem length_joinWith_lt (h : ∀ x ∈ xs, (f x).length ≤ (g x).length)
    (hlt : ∃ x ∈ xs, (f x).length < (g x).length) :
    (joinWith separator (xs.map f)).length < (joinWith separator (xs.map g)).length := by
  have hs := List.sum_lt_sum (fun x => (f x).length) (fun x => (g x).length) h hlt
  simp only [length_joinWith, List.map_map, List.length_map, Function.comp_def]
  omega

end Joined

theorem Escape.length_pos {quote b : UInt8} {t : Text} (h : Escape quote b t) : 0 < t.length := by
  cases h <;> exact Nat.succ_pos _

/-- A quoted form is longer than its text. -/
theorem length_lt_quoted (s : Text) : s.length < s.quoted.length := by
  have hq := isMark_enclosingQuote s
  have hs : s.length ≤ (s.flatMap (escapeByte s.enclosingQuote)).length := by
    generalize s.enclosingQuote = quote at hq
    induction s with
    | nil => exact Nat.le_refl _
    | cons b s ih =>
      have hb := (escape_escapeByte hq b).length_pos
      rw [List.flatMap_cons, List.length_append, List.length_cons]
      omega
  rw [quoted_eq, List.length_cons, List.length_append]
  omega

end Text

namespace Value

/-! ### Replacing optional values -/

mutual

/-- A value in which each optional value that is present is replaced by what it holds. -/
def unwrapped : Value → Value
  | some v => v.unwrapped
  | pair v w => pair v.unwrapped w.unwrapped
  | list vs => list (unwrappedAll vs)
  | dict entries => dict (unwrappedEntries entries)
  | integer n => integer n
  | natural n => natural n
  | truth b => truth b
  | real x => real x
  | text s => text s
  | byte b => byte b
  | char n => char n
  | none => none
  | span s => span s

def unwrappedAll : List Value → List Value
  | [] => []
  | v :: vs => v.unwrapped :: unwrappedAll vs

def unwrappedEntries : List (Atom × Value) → List (Atom × Value)
  | [] => []
  | (k, v) :: es => (k, v.unwrapped) :: unwrappedEntries es

end

theorem unwrapped_of_isSimple {v : Value} (h : v.isSimple = true) : v.unwrapped = v := by
  cases v with
  | some | pair | list | dict => cases h
  | _ => rfl

theorem unwrapped_some (v : Value) : (some v).unwrapped = v.unwrapped := by
  rw [unwrapped]

theorem unwrapped_pair (v w : Value) :
    (pair v w).unwrapped = pair v.unwrapped w.unwrapped := by
  rw [unwrapped]

theorem unwrapped_list (vs : List Value) : (list vs).unwrapped = list (vs.map unwrapped) := by
  have h : unwrappedAll vs = vs.map unwrapped := by
    induction vs with
    | nil => rfl
    | cons v vs ih => rw [unwrappedAll, ih, List.map_cons]
  rw [unwrapped, h]

theorem unwrapped_dict (entries : List (Atom × Value)) :
    (dict entries).unwrapped = dict (entries.map fun e => (e.1, e.2.unwrapped)) := by
  have h : unwrappedEntries entries = entries.map fun e => (e.1, e.2.unwrapped) := by
    induction entries with
    | nil => rfl
    | cons e entries ih => rw [unwrappedEntries, ih, List.map_cons]
  rw [unwrapped, h]

theorem isContainer_unwrapped {v : Value} (h : v.isContainer = true) :
    v.unwrapped.isContainer = true := by
  cases v with
  | pair | list | dict | span =>
    rw [unwrapped]
    rfl
  | _ => cases h

/-! ### When quotation marks are lost -/

theorem length_plain_lt {v : Value} (h : v.isTextual = true) :
    v.plain.length < v.quoted.length :=
  quoted_of_isTextual h ▸ v.plain.length_lt_quoted

theorem length_plain_le (v : Value) : v.plain.length ≤ v.quoted.length := by
  cases h : v.isTextual with
  | true => exact Nat.le_of_lt (length_plain_lt h)
  | false => rw [plain_eq_quoted h]

/-- The two texts of a value differ exactly if it is a text or a character. -/
theorem plain_eq_quoted_iff {v : Value} : v.plain = v.quoted ↔ v.isTextual = false := by
  refine ⟨fun he => Bool.eq_false_iff.2 fun h => ?_, plain_eq_quoted⟩
  exact Nat.ne_of_lt (length_plain_lt h) (congrArg List.length he)

theorem length_pairText (s t : Text) : (pairText s t).length = s.length + t.length + 4 := by
  have h₁ : ("(" : Text).length = 1 := rfl
  have h₂ : (", " : Text).length = 2 := rfl
  have h₃ : (")" : Text).length = 1 := rfl
  simp only [pairText, List.length_append, h₁, h₂, h₃]
  omega

theorem length_listText (ss : List Text) :
    (listText ss).length = (Text.joinWith ", " ss).length + 2 := by
  have h₁ : ("[" : Text).length = 1 := rfl
  have h₂ : ("]" : Text).length = 1 := rfl
  simp only [listText, List.length_append, h₁, h₂]
  omega

theorem length_dictText (ss : List Text) :
    (dictText ss).length = (Text.joinWith ", " ss).length + 2 := by
  have h₁ : ("\x7b" : Text).length = 1 := rfl
  have h₂ : ("\x7d" : Text).length = 1 := rfl
  simp only [dictText, List.length_append, h₁, h₂]
  omega

/-- No quoted text gets shorter by unwrapping. -/
theorem length_quoted_le (v : Value) : v.quoted.length ≤ v.unwrapped.quoted.length := by
  induction v using Value.induction with
  | simple v h => rw [unwrapped_of_isSimple h]
  | some v ih =>
    rw [quoted_some, unwrapped_some]
    exact (length_plain_le v).trans ih
  | pair v w ihv ihw =>
    rw [unwrapped_pair, quoted_pair, quoted_pair, length_pairText, length_pairText]
    omega
  | list vs ih =>
    rw [unwrapped_list, quoted_list, quoted_list, length_listText, length_listText, List.map_map]
    exact Nat.add_le_add_right (Text.length_joinWith_le ih) 2
  | dict entries ih =>
    rw [unwrapped_dict, quoted_dict, quoted_dict, length_dictText, length_dictText, List.map_map]
    refine Nat.add_le_add_right (Text.length_joinWith_le fun e he => ?_) 2
    simp only [Function.comp_apply, entryText, List.length_append]
    exact Nat.add_le_add_left (ih e he) _

/-- A value in which an optional value holds a text or a character loses quotation marks. -/
theorem length_quoted_lt {v w : Value} (h : (some w).Within v) (hw : w.isTextual = true) :
    v.quoted.length < v.unwrapped.quoted.length := by
  induction h with
  | self =>
    rw [quoted_some, unwrapped_some]
    exact (length_plain_lt hw).trans_le (length_quoted_le w)
  | @some v _ ih =>
    rw [quoted_some, unwrapped_some]
    exact (length_plain_le v).trans_lt ih
  | left _ w ih =>
    have hl := length_quoted_le w
    rw [unwrapped_pair, quoted_pair, quoted_pair, length_pairText, length_pairText]
    omega
  | right v _ ih =>
    have hl := length_quoted_le v
    rw [unwrapped_pair, quoted_pair, quoted_pair, length_pairText, length_pairText]
    omega
  | @element v vs hv _ ih =>
    rw [unwrapped_list, quoted_list, quoted_list, length_listText, length_listText, List.map_map]
    refine Nat.add_lt_add_right (Text.length_joinWith_lt (fun u _ => ?_) ⟨v, hv, ih⟩) 2
    exact length_quoted_le u
  | @entry e entries he _ ih =>
    rw [unwrapped_dict, quoted_dict, quoted_dict, length_dictText, length_dictText, List.map_map]
    refine Nat.add_lt_add_right (Text.length_joinWith_lt (fun u _ => ?_) ⟨e, he, ?_⟩) 2
    all_goals simp only [Function.comp_apply, entryText, List.length_append]
    · exact Nat.add_le_add_left (length_quoted_le u.2) _
    · exact Nat.add_lt_add_left ih _

/-- A value in which no optional value holds a text or a character loses nothing. -/
theorem quoted_unwrapped_of_forall {v : Value}
    (h : ∀ w, (some w).Within v → w.isTextual = false) : v.unwrapped.quoted = v.quoted := by
  induction v using Value.induction with
  | simple v hv => rw [unwrapped_of_isSimple hv]
  | some v ih =>
    rw [unwrapped_some, quoted_some, ih fun w hw => h w hw.some, plain_eq_quoted (h v .self)]
  | pair v w ihv ihw =>
    rw [unwrapped_pair, quoted_pair, quoted_pair, ihv fun u hu => h u (hu.left w),
      ihw fun u hu => h u (hu.right v)]
  | list vs ih =>
    rw [unwrapped_list, quoted_list, quoted_list, List.map_map]
    exact congrArg listText (List.map_congr_left fun v hv =>
      ih v hv fun u hu => h u (.element hv hu))
  | dict entries ih =>
    rw [unwrapped_dict, quoted_dict, quoted_dict, List.map_map]
    exact congrArg dictText (List.map_congr_left fun e he =>
      congrArg (entryText e.1) (ih e he fun u hu => h u (.entry he hu)))

/-! ### Values that look absent -/

/-- What an optional value holds, once it is no optional value that is present itself. -/
def innermost : Value → Value
  | some v => v.innermost
  | v => v

/-- A text that starts with another byte than `None` is another text. -/
theorem ne_none_of_head? {s : Text} {b : UInt8} (h : s.head? = .some b) (hb : b ≠ 0x4e) :
    s ≠ ("None" : Text) := by
  rintro rfl
  exact hb (Option.some.inj h).symm

theorem ne_none_of_isDigit {s : Text} {b : UInt8} (h : s.head? = .some b)
    (hb : Ascii.isDigit b = true) : s ≠ ("None" : Text) := by
  refine ne_none_of_head? h ?_
  rintro rfl
  exact absurd hb (by decide)

theorem ofNat_ne_none (n : Nat) : Decimal.ofNat n ≠ ("None" : Text) := by
  obtain ⟨b, t, h, hb⟩ := Decimal.exists_ofNat_eq_cons n
  exact ne_none_of_isDigit (h ▸ rfl) hb

theorem ofInt_ne_none (n : Int) : Decimal.ofInt n ≠ ("None" : Text) := by
  cases n with
  | ofNat n => exact ofNat_ne_none n
  | negSucc n => exact ne_none_of_head? (b := Ascii.minus) rfl (by decide)

theorem numeral_ne_none (m : DecimalNumeral) : m.text ≠ ("None" : Text) := by
  obtain ⟨sign, whole, places, exponent⟩ := m
  cases sign with
  | plus => exact ne_none_of_head? (b := Ascii.plus) rfl (by decide)
  | minus => exact ne_none_of_head? (b := Ascii.minus) rfl (by decide)
  | none =>
    obtain ⟨b, t, h⟩ := List.exists_cons_of_ne_nil whole.ne_nil
    refine ne_none_of_isDigit (b := b) ?_ (whole.isDigit_of_mem b (h ▸ List.mem_cons_self))
    rw [DecimalNumeral.text, h]
    rfl

theorem floating_ne_none (x : Binary64) : x.text ≠ ("None" : Text) := by
  cases hx : x.isFinite with
  | true =>
    obtain ⟨m, hm, -⟩ := Floating.exists_text hx
    exact hm ▸ numeral_ne_none m
  | false =>
    have he : (x.exponentField == binary64.topField) = true := by
      simpa [Floating.isFinite] using hx
    rw [Floating.text, Floating.isNaN, Floating.isInfinite, he, Bool.true_and, Bool.true_and, bne,
      Floating.signText]
    cases x.fraction == 0 with
    | true => cases x.isNegative <;> exact ne_none_of_head? rfl (by decide)
    | false => exact ne_none_of_head? rfl (by decide)

/-- The encoding of one character is no text of four. -/
theorem encode_ne_none (c : Char) : Text.encode [c] ≠ ("None" : Text) := by
  intro h
  have hn : ("None" : Text) = [0x4e, 0x6f, 0x6e, 0x65] := by decide +kernel
  obtain ⟨b, later, hc, -, hlater⟩ := Text.exists_encodeChar_eq c
  rw [Text.encode_cons, Text.encode_nil, List.append_nil, hc, hn] at h
  obtain ⟨-, rfl⟩ := List.cons.inj h
  -- the second character would be a continuation byte
  exact absurd (hlater 0x6f List.mem_cons_self) (by decide)

theorem plain_innermost (v : Value) : v.innermost.plain = v.plain := by
  induction v using Value.induction with
  | some v ih => rw [innermost, ih, plain_some]
  | simple v h =>
    cases v with
    | some => cases h
    | _ => rfl
  | pair | list | dict => rfl

theorem innermost_ne_some (v u : Value) : v.innermost ≠ some u := by
  induction v using Value.induction with
  | some v ih => rwa [innermost]
  | simple v h =>
    cases v with
    | some => cases h
    | _ => exact nofun
  | pair | list | dict => exact nofun

theorem eq_of_plain_eq_none {v : Value} (hv : ∀ u, v ≠ some u) (h : v.plain = ("None" : Text)) :
    v = none ∨ v = text "None" := by
  cases v with
  | none => exact .inl rfl
  | text s => exact .inr (congrArg text ((plain_text s).symm.trans h))
  | some u => exact absurd rfl (hv u)
  | integer n =>
    rw [plain, render] at h
    exact absurd h (ofInt_ne_none _)
  | natural n =>
    rw [plain, render] at h
    exact absurd h (ofNat_ne_none _)
  | real x =>
    rw [plain, render] at h
    exact absurd h (floating_ne_none x)
  | char n =>
    rw [plain, render] at h
    exact absurd h (encode_ne_none _)
  | byte b =>
    rw [plain, render] at h
    have hl : 1 = 4 := congrArg List.length h
    omega
  | truth b =>
    rw [plain, render] at h
    cases b <;> exact absurd h (ne_none_of_head? rfl (by decide))
  | pair | list | dict | span =>
    rw [plain, render] at h
    exact absurd h (ne_none_of_head? rfl (by decide))

/-- Only an absent value, the text `None` and the optional values that hold one of these in the end
are written as an absent value. -/
theorem plain_eq_none_iff (v : Value) :
    v.plain = ("None" : Text) ↔ v.innermost = none ∨ v.innermost = text "None" := by
  rw [← plain_innermost]
  refine ⟨eq_of_plain_eq_none v.innermost_ne_some, ?_⟩
  rintro (h | h) <;> rw [h]
  · exact plain_none
  · exact plain_text _

/-! ### Containers -/

/-- A container has the text in which the optional values that are present are written as what they
hold, quoted if that is a text or a character, exactly if none of them, at any depth, holds a text
or a character itself. At its place such a value is written as the plain text of what it holds,
which is the quoted one exactly if that is no text and no character, and an absent value is written
as `None`. Which of the two stands there can be told, unless the first one holds, in the end, an
absent value or the text `None`. -/
theorem plain_container_iff {c : Value} (hc : c.isContainer = true) :
    (c.plain = c.unwrapped.plain ↔ ∀ w, (some w).Within c → w.isTextual = false) ∧
      ∀ frames : List Frame, ∃ front back, ∀ v : Value,
        (plug frames (some v)).plain = front ++ v.plain ++ back ∧
          (plug frames none).plain = front ++ ("None" : Text) ++ back ∧
          (v.plain = v.quoted ↔ v.isTextual = false) ∧
          ((plug frames (some v)).plain = (plug frames none).plain ↔
            v.innermost = none ∨ v.innermost = text "None") := by
  refine ⟨?_, fun frames => ?_⟩
  · rw [plain_eq_quoted_of_isContainer hc,
      plain_eq_quoted_of_isContainer (isContainer_unwrapped hc)]
    refine ⟨fun h w hw => ?_, fun h => (quoted_unwrapped_of_forall h).symm⟩
    cases ht : w.isTextual with
    | false => rfl
    | true => exact absurd (congrArg List.length h) (Nat.ne_of_lt (length_quoted_lt hw ht))
  · obtain ⟨front, back, h⟩ := exists_texts_plug frames
    have hnone : (plug frames none).plain = front ++ ("None" : Text) ++ back := by
      obtain ⟨hq, hp⟩ := h none (plain_eq_quoted rfl)
      rw [hp, hq, ← plain_eq_quoted rfl, plain_none]
    refine ⟨front, back, fun v => ?_⟩
    have hsome : (plug frames (some v)).plain = front ++ v.plain ++ back := by
      obtain ⟨hq, hp⟩ := h (some v) (plain_eq_quoted rfl)
      rw [hp, hq, quoted_some]
    refine ⟨hsome, hnone, plain_eq_quoted_iff, ?_⟩
    rw [hsome, hnone, List.append_left_inj, List.append_right_inj, plain_eq_none_iff]

/-- A text in a list in an optional value is quoted, and the text `None` in an optional value looks
like an absent value. -/
theorem plain_container_iff_two :
    let c := list [some (list [text "a"]), none, some (integer 5)]
    (c.isContainer = true ∧ c.plain = ("[['a'], None, 5]" : Text)) ∧
      (∀ w, (some w).Within c → w.isTextual = false) ∧
      (list [some (text "None")]).plain = (list [none]).plain := by
  intro c
  have hc : c.plain = ("[['a'], None, 5]" : Text) ∧ c.plain = c.unwrapped.plain := by
    decide +kernel
  obtain ⟨htext, hplace⟩ := plain_container_iff (c := c) rfl
  obtain ⟨front, back, h⟩ := hplace [.element [] []]
  exact ⟨⟨rfl, hc.1⟩, htext.1 hc.2, (h (text "None")).2.2.2.2 (.inr rfl)⟩

/-- A text in an optional value in a container is not quoted. -/
theorem plain_container_loses_marks :
    ¬ ∀ c : Value, c.isContainer = true → c.plain = c.unwrapped.plain := by
  intro h
  exact absurd (h (list [some (text "a")]) rfl) (by decide +kernel)

end Value

end ScriptBase
