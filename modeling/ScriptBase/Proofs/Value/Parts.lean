import ScriptBase.Proofs.Value.Delimiting

/-!
# What values are made of

A value is simple, or it is an optional value, a pair, a list or a dictionary and made of others.
What it is made of stands in it, and so does what these are made of, to any depth.

The quoted text of a container is put together from those of its elements, and the texts of what is
no text and no character are the same. So what a container writes around a place in it, at any
depth, does not hang on the value there.

## Main definitions

* `ScriptBase.Value.isContainer`, `ScriptBase.Value.isTextual`: containers, texts and characters.
* `ScriptBase.Value.Within`: a value stands in another one, at any depth.
* `ScriptBase.Value.Frame`, `ScriptBase.Value.plug`: containers with a place for a value.

## Main results

* `ScriptBase.Value.induction`: values by what they are made of.
* `ScriptBase.Value.plain_eq_quoted`: values that have one text.
* `ScriptBase.Value.exists_texts_plug`: what is written around a place.
-/

namespace ScriptBase

namespace Value

/-! ### What values are made of -/

/-- Whether a value is not made of others. -/
def isSimple : Value → Bool
  | some _ | pair _ _ | list _ | dict _ => false
  | _ => true

/-- Whether a value is a container. -/
def isContainer : Value → Bool
  | pair _ _ | list _ | dict _ | span _ => true
  | _ => false

/-- Whether a value is a text or a character. -/
def isTextual : Value → Bool
  | text _ | byte _ | char _ => true
  | _ => false

/-- What holds of all values that are not made of others, and of a value if it holds of those that
it is made of, holds of all values. -/
@[elab_as_elim]
theorem induction {motive : Value → Prop} (simple : ∀ v, v.isSimple = true → motive v)
    (some : ∀ v, motive v → motive (some v))
    (pair : ∀ v w, motive v → motive w → motive (pair v w))
    (list : ∀ vs, (∀ v ∈ vs, motive v) → motive (list vs))
    (dict : ∀ entries : List (Atom × Value), (∀ e ∈ entries, motive e.2) → motive (dict entries))
    (v : Value) : motive v := by
  refine @Value.rec motive (fun vs => ∀ v ∈ vs, motive v) (fun es => ∀ e ∈ es, motive e.2)
    (fun e => motive e.2) (fun _ => simple _ rfl) (fun _ => simple _ rfl) (fun _ => simple _ rfl)
    (fun _ => simple _ rfl) (fun _ => simple _ rfl) (fun _ => simple _ rfl)
    (fun _ => simple _ rfl) (simple _ rfl) some pair list dict (fun _ => simple _ rfl)
    ?_ ?_ ?_ ?_ ?_ v
  · exact List.forall_mem_nil _
  · exact fun _ _ hv hvs => List.forall_mem_cons.2 ⟨hv, hvs⟩
  · exact List.forall_mem_nil _
  · exact fun _ _ he hes => List.forall_mem_cons.2 ⟨he, hes⟩
  · exact fun _ _ hv => hv

/-- A value *stands in* another one if it is that value or stands in one that it is made of. -/
inductive Within (u : Value) : Value → Prop
  | self : Within u u
  | some {v} (h : Within u v) : Within u (some v)
  | left {v} (h : Within u v) (w : Value) : Within u (pair v w)
  | right {w} (v : Value) (h : Within u w) : Within u (pair v w)
  | element {v vs} (hv : v ∈ vs) (h : Within u v) : Within u (list vs)
  | entry {e : Atom × Value} {entries} (he : e ∈ entries) (h : Within u e.2) :
    Within u (dict entries)

/-! ### The texts of values -/

/-- How a dictionary is written by the texts of its entries. -/
def dictText (ss : List Text) : Text :=
  ("\x7b" : Text) ++ Text.joinWith ", " ss ++ ("\x7d" : Text)

/-- How an entry is written by the text of its value. -/
def entryText (k : Atom) (s : Text) : Text := keyText k ++ (": " : Text) ++ s

theorem quoted_dict (entries : List (Atom × Value)) :
    (dict entries).quoted = dictText (entries.map fun e => entryText e.1 e.2.quoted) := by
  have h : renderEntries entries = entries.map fun e => entryText e.1 e.2.quoted := by
    induction entries with
    | nil => rfl
    | cons e entries ih =>
      rw [renderEntries, ih, List.map_cons]
      rfl
  rw [quoted, render, h]
  rfl

theorem plain_some (v : Value) : (some v).plain = v.plain := by
  rw [plain, render, plain]

theorem plain_none : none.plain = ("None" : Text) := by
  rw [plain, render]

/-- Both texts of what is no text and no character are the same. -/
theorem plain_eq_quoted {v : Value} (h : v.isTextual = false) : v.plain = v.quoted := by
  cases v with
  | text | byte | char => cases h
  | _ => rw [plain, quoted, render, render]

/-- A text or a character is quoted as its plain text. -/
theorem quoted_of_isTextual {v : Value} (h : v.isTextual = true) : v.quoted = v.plain.quoted := by
  cases v with
  | text | byte | char =>
    rw [plain, quoted, render, render]
    rfl
  | _ => cases h

/-- A container is never quoted. -/
theorem plain_eq_quoted_of_isContainer {v : Value} (h : v.isContainer = true) :
    v.plain = v.quoted :=
  plain_eq_quoted (by cases v <;> first | rfl | cases h)

/-! ### Around a place -/

/-- A container, or an optional value, with a place for a value. -/
inductive Frame where
  | some
  | left (w : Value)
  | right (v : Value)
  | element (before after : List Value)
  | entry (before : List (Atom × Value)) (k : Atom) (after : List (Atom × Value))

/-- Puts a value into the place. -/
def Frame.fill : Frame → Value → Value
  | some, v => .some v
  | left w, v => pair v w
  | right u, v => pair u v
  | element before after, v => list (before ++ v :: after)
  | entry before k after, v => dict (before ++ (k, v) :: after)

/-- Puts a value into the place of the last of some frames that stand one in another. -/
def plug (frames : List Frame) (v : Value) : Value := frames.foldr Frame.fill v

/-- What stands around one of some texts in a row does not hang on it. -/
theorem exists_joinWith (separator : Text) (before after : List Text) :
    ∃ front back, ∀ s,
      Text.joinWith separator (before ++ s :: after) = front ++ s ++ back := by
  induction before with
  | nil =>
    cases after with
    | nil => exact ⟨[], [], fun s => by simp⟩
    | cons t after =>
      refine ⟨[], separator ++ Text.joinWith separator (t :: after), fun s => ?_⟩
      rw [List.nil_append, Text.joinWith_cons_cons, List.append_assoc, List.nil_append]
  | cons t before ih =>
    obtain ⟨front, back, h⟩ := ih
    refine ⟨t ++ separator ++ front, back, fun s => ?_⟩
    have hc : Text.joinWith separator (t :: (before ++ s :: after)) =
        t ++ separator ++ Text.joinWith separator (before ++ s :: after) := by
      cases before <;> rfl
    rw [List.cons_append, hc, h]
    simp only [List.append_assoc]

/-- What a container writes around a place does not hang on the value there. -/
theorem Frame.exists_quoted_fill (frame : Frame) :
    ∃ front back, ∀ v : Value, v.plain = v.quoted →
      (frame.fill v).quoted = front ++ v.quoted ++ back := by
  cases frame with
  | some =>
    refine ⟨[], [], fun v hv => ?_⟩
    rw [fill, quoted_some, hv, List.nil_append, List.append_nil]
  | left w =>
    refine ⟨"(", (", " : Text) ++ (w.quoted ++ (")" : Text)), fun v _ => ?_⟩
    rw [fill, quoted_pair, pairText]
    simp only [List.append_assoc]
  | right u =>
    refine ⟨("(" : Text) ++ u.quoted ++ (", " : Text), ")", fun v _ => ?_⟩
    rw [fill, quoted_pair, pairText]
  | element before after =>
    obtain ⟨front, back, h⟩ := exists_joinWith ", " (before.map quoted) (after.map quoted)
    refine ⟨("[" : Text) ++ front, back ++ ("]" : Text), fun v _ => ?_⟩
    rw [fill, quoted_list, List.map_append, List.map_cons, listText, h]
    simp only [List.append_assoc]
  | entry before k after =>
    obtain ⟨front, back, h⟩ := exists_joinWith ", "
      (before.map fun e => entryText e.1 e.2.quoted) (after.map fun e => entryText e.1 e.2.quoted)
    refine ⟨("\x7b" : Text) ++ (front ++ (keyText k ++ (": " : Text))), back ++ ("\x7d" : Text),
      fun v _ => ?_⟩
    rw [fill, quoted_dict, List.map_append, List.map_cons, dictText, h, entryText]
    simp only [List.append_assoc]

/-- Around a value that has one text, the frames write the same, whichever value it is. -/
theorem exists_texts_plug (frames : List Frame) :
    ∃ front back, ∀ v : Value, v.plain = v.quoted →
      (plug frames v).quoted = front ++ v.quoted ++ back ∧
        (plug frames v).plain = (plug frames v).quoted := by
  induction frames with
  | nil => exact ⟨[], [], fun v hv => ⟨by simp [plug], hv⟩⟩
  | cons frame frames ih =>
    obtain ⟨front, back, h⟩ := ih
    obtain ⟨front', back', h'⟩ := frame.exists_quoted_fill
    refine ⟨front' ++ front, back ++ back', fun v hv => ?_⟩
    obtain ⟨hq, hp⟩ := h v hv
    refine ⟨(h' _ hp).trans ?_, plain_eq_quoted ?_⟩
    · rw [hq]
      simp only [List.append_assoc]
    · cases frame <;> rfl

end Value

end ScriptBase
