import ScriptBase.Dict.Shelf
import ScriptBase.Proofs.Dict.Contents

/-!
# Dictionaries under names as finite maps

Steps on dictionaries under names do what the same steps do on finite maps. A dictionary that is
made of entries keeps the first of those with one key, an assignment and an update keep the last
value, and reading a key inserts an initial value only where there is none. A step changes the one
dictionary that it is for. So a copy goes its own way, and so does what it was made from, and a step
that asks for something changes nothing, whatever it is answered.

No answer hangs on the order of the entries, but for the lists of entries and the texts that are
made of them, which are those of some list of the map.

## Main definitions

* `ScriptBase.Maps`: finite maps under names; `ScriptBase.Shelf.maps`: those of a shelf.
* `ScriptBase.ShelfStep.target?`: the name of the dictionary that a step may change.
* `ScriptBase.ShelfStep.on`: what a step does to the maps.
* `ScriptBase.ShelfStep.Answers`: what is answered to a step.
* `ScriptBase.ShelfStep.AnsweredInTurn`: what is answered to steps in a row.

## Main results

* `ScriptBase.Shelf.maps_perform`, `ScriptBase.Shelf.answers_perform`: one step.
* `ScriptBase.Shelf.get?_perform_of_ne`: a step leaves the other dictionaries as they are.
* `ScriptBase.Shelf.performAll_on_maps`: steps in a row.
-/

namespace ScriptBase

/-! ### Finite maps under names -/

/-- Maps from atoms to atoms under names. -/
abbrev Maps := Text → Option (Atom → Option Atom)

namespace Maps

/-- No maps. -/
def none : Maps := fun _ => .none

/-- The maps with one of them changed, if it is there. -/
def change (m : Maps) (name : Text) (f : (Atom → Option Atom) → Atom → Option Atom) : Maps :=
  Function.update m name ((m name).map f)

theorem change_of_eq_none {m : Maps} {name : Text} (h : m name = .none)
    (f : (Atom → Option Atom) → Atom → Option Atom) : m.change name f = m := by
  rw [change, h, Option.map_none, ← h, Function.update_eq_self]

theorem change_of_eq_some {m : Maps} {name : Text} {g : Atom → Option Atom} (h : m name = some g)
    (f : (Atom → Option Atom) → Atom → Option Atom) :
    m.change name f = Function.update m name (some (f g)) := by
  rw [change, h, Option.map_some]

/-- What is answered to a step that asks for the map under a name: what is told of the map, and a
fault if there is none. -/
def Asked (m : Maps) (name : Text) (told : (Atom → Option Atom) → Except Fault ShelfAnswer → Prop)
    (outcome : Except Fault ShelfAnswer) : Prop :=
  match m name with
  | .none => outcome = .error .nothingNamed
  | some f => told f outcome

end Maps

namespace ShelfStep

/-- The name of the dictionary that a step may change. -/
def target? : ShelfStep → Option Text
  | make name _ | assign name _ _ | touch name _ _ | update name _ => some name
  | copy _ target => some target
  | _ => none

/-- What a step does to the maps. -/
def on (m : Maps) : ShelfStep → Maps
  | make name es =>
    Function.update m name (some fun key => (es.find? fun e => e.1 = key).map Prod.snd)
  | copy name target => (m name).elim m fun f => Function.update m target (some f)
  | assign name key value => m.change name fun f => Function.update f key (some value)
  | touch name key initial =>
    m.change name fun f => Function.update f key (some ((f key).getD initial))
  | update name source => (m source).elim m fun g => m.change name fun f key => (g key).or (f key)
  | _ => m

/-- What is answered to a step. -/
def Answers (m : Maps) : ShelfStep → Except Fault ShelfAnswer → Prop
  | make _ _ => (· = .ok .done)
  | copy name _ | assign name _ _ => m.Asked name fun _ => (· = .ok .done)
  | get name key fallback => m.Asked name fun f => (· = .ok (.value ((f key).getD fallback)))
  | lookup name key =>
    m.Asked name fun f => (· = (f key).elim (.error .missingKey) fun value => .ok (.value value))
  | touch name key initial => m.Asked name fun f => (· = .ok (.value ((f key).getD initial)))
  | contains name key => m.Asked name fun f => (· = .ok (.flag (f key).isSome))
  | update name source => m.Asked name fun _ => m.Asked source fun _ => (· = .ok .done)
  | size name => m.Asked name fun f => (· = .ok (.count {key | f key ≠ Option.none}.ncard))
  | isEmpty name =>
    m.Asked name fun f outcome =>
      ∃ b, outcome = .ok (.flag b) ∧ (b = true ↔ ∀ key, f key = Option.none)
  | isTrue name =>
    m.Asked name fun f outcome =>
      ∃ b, outcome = .ok (.flag b) ∧ (b = true ↔ ∃ key, f key ≠ Option.none)
  | same name other =>
    m.Asked name fun f => m.Asked other fun g outcome =>
      ∃ b, outcome = .ok (.flag b) ∧ (b = true ↔ f = g)
  | entries name =>
    m.Asked name fun f outcome =>
      ∃ es : Entries Atom Atom, outcome = .ok (.entries es) ∧ es.Lists f
  | shown name =>
    m.Asked name fun f outcome =>
      ∃ es : Entries Atom Atom, es.Lists f ∧
        outcome = .ok (.text (Value.dict (es.map fun e => (e.1, .ofAtom e.2))).plain)

/-- What is answered to steps in a row. -/
inductive AnsweredInTurn : Maps → List ShelfStep → List (Except Fault ShelfAnswer) → Prop
  | nil (m : Maps) : AnsweredInTurn m [] []
  | cons {m : Maps} {step : ShelfStep} {steps : List ShelfStep} {outcome : Except Fault ShelfAnswer}
    {outcomes : List (Except Fault ShelfAnswer)} (h : step.Answers m outcome)
    (hs : AnsweredInTurn (step.on m) steps outcomes) :
    AnsweredInTurn m (step :: steps) (outcome :: outcomes)

end ShelfStep

namespace Shelf

variable {shelf : Shelf}

/-- The maps of the dictionaries on a shelf. -/
def maps (shelf : Shelf) : Maps := fun name => (shelf.get? name).map Dict.get?

theorem maps_insert (shelf : Shelf) (name : Text) (d : Dict Atom Atom) :
    maps (shelf.insert name d) = Function.update shelf.maps name (some d.get?) := by
  ext1 n
  rw [maps, Dict.get?_insert_eq_update, Function.update_apply, Function.update_apply]
  split <;> rfl

theorem maps_eq_some {name : Text} {d : Dict Atom Atom} (h : shelf.get? name = some d) :
    shelf.maps name = some d.get? := by
  rw [maps, h]
  rfl

theorem maps_eq_none {name : Text} (h : shelf.get? name = none) : shelf.maps name = none := by
  rw [maps, h]
  rfl

/-! ### One step -/

theorem outcome_dict (name : Text) (shelf : Shelf) :
    (dict name).outcome shelf =
      match shelf.get? name with
      | some d => (.ok d, shelf)
      | none => (.error .nothingNamed, shelf) := by
  simp only [dict, Action.outcome_bind, Action.outcome_get]
  cases shelf.get? name <;> rfl

/-- A step that asks for a dictionary is run on it. -/
theorem outcome_dict_bind {α : Type} (name : Text) (next : Dict Atom Atom → Action Shelf α)
    (shelf : Shelf) :
    (dict name >>= next).outcome shelf =
      match shelf.get? name with
      | some d => (next d).outcome shelf
      | none => (.error .nothingNamed, shelf) := by
  rw [Action.outcome_bind, outcome_dict]
  cases shelf.get? name <;> rfl

/-- A step that has no target changes nothing. -/
theorem perform_of_target?_eq_none {step : ShelfStep} (h : step.target? = none) (shelf : Shelf) :
    ((perform step).outcome shelf).2 = shelf := by
  cases step with
  | make | copy | assign | touch | update => cases h
  | same name other =>
    simp only [perform, outcome_dict_bind]
    cases shelf.get? name with
    | none => rfl
    | some d => cases shelf.get? other <;> rfl
  | lookup name key =>
    simp only [perform, outcome_dict_bind]
    cases shelf.get? name with
    | none => rfl
    | some d =>
      simp only [Action.outcome_bind, Action.outcome_ofExcept]
      cases d.lookup key <;> rfl
  | get name | contains name | size name | isEmpty name | isTrue name | entries name
  | shown name =>
    simp only [perform, outcome_dict_bind]
    cases shelf.get? name <;> rfl

/-- A step that puts a changed dictionary in the place of one changes its map. -/
theorem maps_dict_bind {name : Text} {next : Dict Atom Atom → Action Shelf ShelfAnswer}
    {changed : Dict Atom Atom → Dict Atom Atom} {f : (Atom → Option Atom) → Atom → Option Atom}
    (hn : ∀ d, ((next d).outcome shelf).2 = shelf.insert name (changed d))
    (hf : ∀ d, (changed d).get? = f d.get?) :
    maps ((dict name >>= next).outcome shelf).2 = shelf.maps.change name f := by
  rw [outcome_dict_bind]
  cases h : shelf.get? name with
  | none => exact (Maps.change_of_eq_none (maps_eq_none h) f).symm
  | some d =>
    dsimp only
    rw [Maps.change_of_eq_some (maps_eq_some h), hn, ← hf, maps_insert]

/-- A step does to the maps of a shelf what it does to maps. -/
theorem maps_perform (step : ShelfStep) (shelf : Shelf) :
    maps ((perform step).outcome shelf).2 = step.on shelf.maps := by
  cases step with
  | make name es =>
    rw [ShelfStep.on, ← Dict.get?_ofFirst, ← maps_insert]
    rfl
  | copy name target =>
    rw [perform, outcome_dict_bind, ShelfStep.on]
    cases h : shelf.get? name with
    | none =>
      rw [maps_eq_none h]
      rfl
    | some d =>
      rw [maps_eq_some h]
      exact maps_insert shelf target d
  | assign name key value =>
    rw [perform, ShelfStep.on]
    exact maps_dict_bind (fun _ => rfl) fun d => Dict.get?_insert_eq_update d key value
  | touch name key initial =>
    rw [perform, ShelfStep.on]
    exact maps_dict_bind (fun _ => rfl) fun d => Dict.get?_touch_eq_update d key initial
  | update name source =>
    rw [perform, ShelfStep.on]
    cases hs : shelf.get? source with
    | none =>
      rw [maps_eq_none hs, Option.elim_none, outcome_dict_bind]
      cases shelf.get? name with
      | none => rfl
      | some d =>
        dsimp only
        rw [outcome_dict_bind, hs]
    | some other =>
      rw [maps_eq_some hs, Option.elim_some]
      refine maps_dict_bind (fun d => ?_) fun d => funext (Dict.get?_update d other)
      rw [outcome_dict_bind, hs]
      rfl
  | get | lookup | contains | size | isEmpty | isTrue | same | entries | shown =>
    rw [perform_of_target?_eq_none rfl]
    rfl

/-- A step leaves the dictionaries as they are that it is not for. -/
theorem get?_perform_of_ne {step : ShelfStep} {name : Text} (h : step.target? ≠ some name)
    (shelf : Shelf) : ((perform step).outcome shelf).2.get? name = shelf.get? name := by
  have insert {n : Text} (d : Dict Atom Atom) (hn : some n ≠ some name) :
      Dict.get? (shelf.insert n d) name = shelf.get? name := by
    rw [Dict.get?_insert, if_neg fun he => hn (congrArg some he)]
  cases step with
  | make n es => exact insert _ h
  | copy n target =>
    rw [perform, outcome_dict_bind]
    cases shelf.get? n with
    | none => rfl
    | some d => exact insert d h
  | assign n key value | touch n key initial =>
    rw [perform, outcome_dict_bind]
    cases hd : shelf.get? n with
    | none => rfl
    | some d => exact insert _ h
  | update n source =>
    rw [perform, outcome_dict_bind]
    cases shelf.get? n with
    | none => rfl
    | some d =>
      dsimp only
      rw [outcome_dict_bind]
      cases shelf.get? source with
      | none => rfl
      | some other => exact insert _ h
  | get | lookup | contains | size | isEmpty | isTrue | same | entries | shown =>
    rw [perform_of_target?_eq_none rfl]

/-! ### What is answered -/

/-- What is asked of a dictionary is told of what it maps. -/
theorem asked_bind {name : Text} {next : Dict Atom Atom → Action Shelf ShelfAnswer}
    {told : (Atom → Option Atom) → Except Fault ShelfAnswer → Prop} {shelf : Shelf}
    (h : ∀ d, shelf.get? name = some d → told d.get? ((next d).outcome shelf).1) :
    shelf.maps.Asked name told ((dict name >>= next).outcome shelf).1 := by
  rw [outcome_dict_bind, Maps.Asked, maps]
  cases hd : shelf.get? name with
  | none => rfl
  | some d => exact h d hd

/-- A dictionary is true exactly if some key has a value. -/
theorem isTrue_ofDict_iff {d : Dict Atom Atom} :
    (Value.ofDict d).isTrue = true ↔ ∃ key, d.get? key ≠ none := by
  have h : (Value.ofDict d).isTrue = !d.isEmpty := by
    rw [Value.ofDict, Value.isTrue, List.isEmpty_map, Dict.isEmpty]
  rw [h, Bool.not_eq_true', Bool.eq_false_iff, ne_eq, Dict.isEmpty_eq_true_iff, not_forall]

/-- A step is answered by the maps of the shelf. -/
theorem answers_perform (step : ShelfStep) (shelf : Shelf) :
    step.Answers shelf.maps ((perform step).outcome shelf).1 := by
  cases step with
  | make name es => rfl
  | copy | assign | get | touch | contains =>
    rw [perform, ShelfStep.Answers]
    exact asked_bind fun _ _ => rfl
  | lookup name key =>
    rw [perform, ShelfStep.Answers]
    refine asked_bind fun d _ => ?_
    rw [Action.outcome_bind, Action.outcome_ofExcept, Dict.lookup]
    cases d.get? key <;> rfl
  | update name source =>
    rw [perform, ShelfStep.Answers]
    exact asked_bind fun _ _ => asked_bind fun _ _ => rfl
  | size name =>
    rw [perform, ShelfStep.Answers]
    refine asked_bind fun d _ => ?_
    rw [← Dict.size_eq_ncard]
    rfl
  | isEmpty name =>
    rw [perform, ShelfStep.Answers]
    exact asked_bind fun d _ => ⟨_, rfl, Dict.isEmpty_eq_true_iff⟩
  | isTrue name =>
    rw [perform, ShelfStep.Answers]
    exact asked_bind fun d _ => ⟨_, rfl, isTrue_ofDict_iff⟩
  | same name other =>
    rw [perform, ShelfStep.Answers]
    exact asked_bind fun d _ => asked_bind fun e _ => ⟨_, rfl, Dict.same_eq_true_iff⟩
  | entries name =>
    rw [perform, ShelfStep.Answers]
    exact asked_bind fun d _ => ⟨_, rfl, d.lists_entries.perm (List.mergeSort_perm _ _)⟩
  | shown name =>
    rw [perform, ShelfStep.Answers]
    exact asked_bind fun d _ => ⟨_, d.lists_entries, rfl⟩

/-! ### Steps in a row -/

/-- Steps in a row are answered by the maps that those before them leave, and leave the maps that
they make of these. -/
theorem performAll_refines (steps : List ShelfStep) (shelf : Shelf) :
    ShelfStep.AnsweredInTurn shelf.maps steps (performAll steps shelf).1 ∧
      maps (performAll steps shelf).2 = steps.foldl ShelfStep.on shelf.maps := by
  induction steps generalizing shelf with
  | nil => exact ⟨.nil _, rfl⟩
  | cons step steps ih =>
    obtain ⟨ha, hm⟩ := ih ((perform step).outcome shelf).2
    rw [maps_perform] at ha hm
    exact ⟨.cons (answers_perform step shelf) ha, hm⟩

/-- Dictionaries under names, made and changed by any steps from nothing on, are the finite maps
that the same steps make, and every step is answered by these maps. The keys of a dictionary are all
different, and its size is the number of keys that have a value, which are finitely many. A further
step leaves every dictionary as it is but the one that it is for, and a step that is for none leaves
them all; so does a request for a key that has to have a value, which is a fault exactly if it has
none. -/
theorem performAll_on_maps (steps : List ShelfStep) :
    let shelf := (performAll steps .empty).2
    ShelfStep.AnsweredInTurn .none steps (performAll steps .empty).1 ∧
      shelf.maps = steps.foldl ShelfStep.on .none ∧
      (∀ name d, shelf.get? name = some d →
        d.entries.Lists d.get? ∧ {key | d.get? key ≠ none}.Finite ∧
          d.size = {key | d.get? key ≠ none}.ncard) ∧
      (∀ (step : ShelfStep) (name : Text), step.target? ≠ some name →
        ((perform step).outcome shelf).2.get? name = shelf.get? name) ∧
      (∀ step : ShelfStep, step.target? = none → ((perform step).outcome shelf).2 = shelf) ∧
      ∀ name d key, shelf.get? name = some d →
        (((perform (.lookup name key)).outcome shelf).1 = .error .missingKey ↔
          d.get? key = none) := by
  intro shelf
  obtain ⟨hanswered, hmaps⟩ := performAll_refines steps .empty
  refine ⟨hanswered, hmaps, fun name d _ => ⟨d.lists_entries, d.finite_keys, d.size_eq_ncard⟩,
    fun step name h => get?_perform_of_ne h shelf,
    fun step h => perform_of_target?_eq_none h shelf, fun name d key hd => ?_⟩
  have h := answers_perform (.lookup name key) shelf
  rw [ShelfStep.Answers, Maps.Asked, maps_eq_some hd] at h
  rw [show _ = _ from h]
  cases d.get? key <;> simp

/-- A dictionary that is made of two entries with one key, and a copy of it that is assigned to; the
first is then updated from itself. -/
theorem performAll_on_maps_four :
    let key : Atom := .integer 1
    let steps : List ShelfStep :=
      [.make [0x61] [(key, .integer 10), (key, .integer 11)], .copy [0x61] [0x62],
        .assign [0x62] key (.integer 12), .update [0x61] [0x61]]
    let shelf := (performAll steps .empty).2
    (shelf.maps [0x61]).bind (· key) = some (.integer 10) ∧
      (shelf.maps [0x62]).bind (· key) = some (.integer 12) ∧
      (∃ d, shelf.get? [0x61] = some d ∧ d.size = {key | d.get? key ≠ none}.ncard ∧
        ((perform (.lookup [0x61] (.integer 2))).outcome shelf).1 = .error .missingKey) ∧
      ((perform (.touch [0x62] (.integer 2) (.integer 0))).outcome shelf).2.get? [0x61] =
        shelf.get? [0x61] ∧
      ((perform (.lookup [0x61] (.integer 2))).outcome shelf).2 = shelf := by
  intro key steps shelf
  obtain ⟨-, hmaps, hdict, hothers, hkept, hmissing⟩ := performAll_on_maps steps
  refine ⟨?_, ?_, ⟨_, rfl, (hdict [0x61] _ rfl).2.2, (hmissing [0x61] _ _ rfl).2 rfl⟩,
    hothers _ _ (by decide), hkept _ rfl⟩
  · rw [hmaps]
    rfl
  · rw [hmaps]
    rfl

end Shelf

end ScriptBase
