import ScriptBase.Fault

/-!
# Actions

An action works on a state and gives a result or raises a fault. What it has done to the state stays
done in both cases.

## Main definitions

* `ScriptBase.Action`: actions.
* `ScriptBase.Action.outcome`: the result of an action and the state that it leaves.
* `ScriptBase.Action.on`: an action on a part of the state.
* `ScriptBase.Action.each`: actions one after another, whatever they raise.
* `ScriptBase.Action.Keeps`: an action keeps a property of states.
* `ScriptBase.Action.Refines`: an action does what another one does on related states.
* `ScriptBase.Action.Commutes`: an action does the same on states and on their images.
-/

namespace ScriptBase

/-- A computation that changes a state and gives a result or raises a fault. The state that it
leaves is kept in both cases. -/
abbrev Action (σ α : Type) := ExceptT Fault (StateM σ) α

namespace Action

variable {σ τ ι α β : Type}

/-- The result of an action, or the fault that it raises, and the state that it leaves. -/
def outcome (action : Action σ α) (s : σ) : Except Fault α × σ := action.run.run s

/-- Gives a result, or raises a fault, that is known already. -/
def ofExcept : Except Fault α → Action σ α
  | .ok a => pure a
  | .error fault => throw fault

/-- Runs an action on a part of the state. -/
def on (part : σ → τ) (withPart : τ → σ → σ) (action : Action τ α) : Action σ α :=
  ExceptT.mk fun s =>
    let (result, t) := action.outcome (part s)
    (result, withPart t s)

/-- The outcomes of the actions for the elements of a list, one after another, and the state that
they leave. A fault of one does not keep the others from being run. -/
def each (action : ι → Action σ α) : List ι → σ → List (Except Fault α) × σ
  | [], s => ([], s)
  | i :: is, s =>
    let (result, s) := (action i).outcome s
    let (results, s) := each action is s
    (result :: results, s)

/-! ### Outcomes -/

@[simp] theorem outcome_pure (a : α) (s : σ) : outcome (pure a) s = (.ok a, s) := rfl

@[simp] theorem outcome_throw (fault : Fault) (s : σ) :
    outcome (throw fault : Action σ α) s = (.error fault, s) := rfl

@[simp] theorem outcome_get (s : σ) : outcome (get : Action σ σ) s = (.ok s, s) := rfl

@[simp] theorem outcome_set (s t : σ) : outcome (set t : Action σ PUnit) s = (.ok ⟨⟩, t) := rfl

@[simp] theorem outcome_modify (f : σ → σ) (s : σ) :
    outcome (modify f : Action σ PUnit) s = (.ok ⟨⟩, f s) := rfl

@[simp] theorem outcome_ofExcept (result : Except Fault α) (s : σ) :
    outcome (ofExcept result) s = (result, s) := by
  cases result <;> rfl

@[simp] theorem outcome_on (part : σ → τ) (withPart : τ → σ → σ) (action : Action τ α) (s : σ) :
    outcome (on part withPart action) s =
      ((action.outcome (part s)).1, withPart (action.outcome (part s)).2 s) := rfl

theorem outcome_ite (c : Prop) [Decidable c] (a b : Action σ α) (s : σ) :
    outcome (if c then a else b) s = if c then outcome a s else outcome b s := by
  split <;> rfl

/-- An action is followed by another exactly if it raises no fault. -/
theorem outcome_bind (action : Action σ α) (next : α → Action σ β) (s : σ) :
    outcome (action >>= next) s =
      match outcome action s with
      | (.ok a, s) => outcome (next a) s
      | (.error fault, s) => (.error fault, s) := by
  unfold outcome ExceptT.run StateT.run
  simp only [bind, ExceptT.bind, ExceptT.mk, StateT.bind, ExceptT.bindCont]
  cases action s with
  | mk result t => cases result <;> rfl

@[simp] theorem outcome_map (f : α → β) (action : Action σ α) (s : σ) :
    outcome (f <$> action) s = ((outcome action s).1.map f, (outcome action s).2) := by
  unfold outcome ExceptT.run StateT.run
  simp only [Functor.map, ExceptT.map, ExceptT.mk, bind, StateT.bind]
  cases action s with
  | mk result t => cases result <;> rfl

/-- A handler goes on from the state at which the fault was raised. -/
theorem outcome_tryCatch (action : Action σ α) (handler : Fault → Action σ α) (s : σ) :
    outcome (tryCatch action handler) s =
      match outcome action s with
      | (.ok a, s) => (.ok a, s)
      | (.error fault, s) => outcome (handler fault) s := by
  unfold outcome ExceptT.run StateT.run
  simp only [tryCatch, tryCatchThe, MonadExceptOf.tryCatch, ExceptT.tryCatch, ExceptT.mk, bind,
    StateT.bind]
  cases action s with
  | mk result t => cases result <;> rfl

@[simp] theorem length_each (action : ι → Action σ α) (is : List ι) (s : σ) :
    (each action is s).1.length = is.length := by
  induction is generalizing s with
  | nil => rfl
  | cons i is ih => simp [each, ih]

/-- Actions in a row are run from the state that those before them leave. -/
theorem each_append (action : ι → Action σ α) (is js : List ι) (s : σ) :
    each action (is ++ js) s =
      ((each action is s).1 ++ (each action js (each action is s).2).1,
        (each action js (each action is s).2).2) := by
  induction is generalizing s with
  | nil => rfl
  | cons i is ih => simp [each, ih]

/-- Actions in a row that all return are all run if a fault of one would keep the others from being
run. -/
theorem outcome_forM_of_each {action : ι → Action σ Unit} {is : List ι} {s : σ}
    (h : ∀ result ∈ (each action is s).1, result = .ok ()) :
    (is.forM action).outcome s = (.ok (), (each action is s).2) := by
  induction is generalizing s with
  | nil => rfl
  | cons i is ih =>
    obtain ⟨hi, his⟩ := List.forall_mem_cons.1 h
    change (action i >>= fun _ => is.forM action).outcome s = _
    rw [outcome_bind, show (action i).outcome s = (.ok (), _) from Prod.ext hi rfl]
    exact ih his

/-! ### Properties that actions keep -/

variable {p : σ → Prop}

/-- An action *keeps* a property of states if a state with the property is left with it, by a
result and by a fault. -/
def Keeps (action : Action σ α) (p : σ → Prop) : Prop := ∀ s, p s → p (action.outcome s).2

theorem Keeps.bind {action : Action σ α} {next : α → Action σ β} (ha : action.Keeps p)
    (hn : ∀ a, (next a).Keeps p) : (action >>= next).Keeps p := by
  intro s hs
  have ht := ha s hs
  rw [outcome_bind]
  generalize action.outcome s = left at ht
  rcases left with ⟨fault | a, t⟩
  · exact ht
  · exact hn a t ht

theorem Keeps.map {action : Action σ α} (h : action.Keeps p) (f : α → β) :
    (f <$> action).Keeps p := by
  intro s hs
  rw [outcome_map]
  exact h s hs

/-- What each of the actions keeps holds after all of them. -/
theorem Keeps.each {action : ι → Action σ α} (h : ∀ i, (action i).Keeps p) :
    ∀ (is : List ι) (s : σ), p s → p (each action is s).2
  | [], _, hs => hs
  | i :: is, s, hs => Keeps.each h is _ (h i s hs)

/-! ### Actions on related states -/

/-- An action *refines* another along a relation of states if both give the same result in related
states, also where it is a fault, and leave related states. -/
def Refines (r : σ → τ → Prop) (action : Action σ α) (other : Action τ α) : Prop :=
  ∀ s t, r s t →
    (action.outcome s).1 = (other.outcome t).1 ∧ r (action.outcome s).2 (other.outcome t).2

theorem Refines.map {r : σ → τ → Prop} {action : Action σ α} {other : Action τ α}
    (h : action.Refines r other) (f : α → β) : (f <$> action).Refines r (f <$> other) := by
  intro s t hr
  obtain ⟨he, hr'⟩ := h s t hr
  rw [outcome_map, outcome_map, he]
  exact ⟨rfl, hr'⟩

theorem Refines.bind {r : σ → τ → Prop} {action : Action σ α} {other : Action τ α}
    {next : α → Action σ β} {next' : α → Action τ β} (h : action.Refines r other)
    (hn : ∀ a, (next a).Refines r (next' a)) :
    (action >>= next).Refines r (other >>= next') := by
  intro s t hr
  obtain ⟨he, hr'⟩ := h s t hr
  rw [outcome_bind, outcome_bind]
  generalize action.outcome s = left at he hr'
  generalize other.outcome t = left' at he hr'
  obtain ⟨result, s'⟩ := left
  obtain ⟨result', t'⟩ := left'
  obtain rfl := he
  rcases result with fault | a
  · exact ⟨rfl, hr'⟩
  · exact hn a s' t' hr'

/-- Actions in a row refine others if each of them refines the other in its place. -/
theorem Refines.each {r : σ → τ → Prop} {action : ι → Action σ α} {other : ι → Action τ α}
    (h : ∀ i, (action i).Refines r (other i)) :
    ∀ (is : List ι) (s : σ) (t : τ), r s t →
      (Action.each action is s).1 = (Action.each other is t).1 ∧
        r (Action.each action is s).2 (Action.each other is t).2
  | [], _, _, hr => ⟨rfl, hr⟩
  | i :: is, s, t, hr => by
    obtain ⟨h₁, hr₁⟩ := h i s t hr
    obtain ⟨h₂, hr₂⟩ := Refines.each h is _ _ hr₁
    exact ⟨by simp only [Action.each, h₁, h₂], hr₂⟩

/-! ### Actions that commute with a function on states -/

variable {f : σ → σ}

/-- An action *commutes* with a function on states if in the image of a state it gives the result
that it gives in the state, also where that is a fault, and leaves the image of what it leaves
there. -/
def Commutes (f : σ → σ) (action : Action σ α) : Prop :=
  action.Refines (fun s t => t = f s) action

theorem commutes_iff {action : Action σ α} :
    action.Commutes f ↔
      ∀ s, action.outcome (f s) = ((action.outcome s).1, f (action.outcome s).2) := by
  constructor
  · intro h s
    obtain ⟨hr, hs⟩ := h s _ rfl
    exact Prod.ext hr.symm hs
  · rintro h s _ rfl
    rw [h]
    exact ⟨rfl, rfl⟩

theorem commutes_pure (a : α) : (pure a : Action σ α).Commutes f := by
  rintro s _ rfl
  exact ⟨rfl, rfl⟩

theorem commutes_throw (fault : Fault) : (throw fault : Action σ α).Commutes f := by
  rintro s _ rfl
  exact ⟨rfl, rfl⟩

theorem commutes_ofExcept (result : Except Fault α) :
    (ofExcept result : Action σ α).Commutes f := by
  rintro s _ rfl
  rw [outcome_ofExcept, outcome_ofExcept]
  exact ⟨rfl, rfl⟩

theorem commutes_modify {g : σ → σ} (h : ∀ s, g (f s) = f (g s)) :
    (modify g : Action σ PUnit).Commutes f := by
  rintro s _ rfl
  exact ⟨rfl, h s⟩

theorem Commutes.bind {action : Action σ α} {next : α → Action σ β} (h : action.Commutes f)
    (hn : ∀ a, (next a).Commutes f) : (action >>= next).Commutes f :=
  Refines.bind h hn

theorem Commutes.map {action : Action σ α} (h : action.Commutes f) (g : α → β) :
    (g <$> action).Commutes f :=
  Refines.map h g

/-- What an action reads off the state may be anything that the function leaves alone. -/
theorem commutes_get_bind {next : σ → Action σ α} (hf : ∀ s, next (f s) = next s)
    (h : ∀ s, (next s).Commutes f) : ((get : Action σ σ) >>= next).Commutes f := by
  rintro s _ rfl
  rw [outcome_bind, outcome_bind]
  simp only [outcome_get, hf]
  exact h s s _ rfl

theorem Commutes.ite {c : Prop} [Decidable c] {action other : Action σ α}
    (h : action.Commutes f) (ho : other.Commutes f) :
    (if c then action else other).Commutes f := by
  split
  · exact h
  · exact ho

theorem Commutes.tryCatch {action : Action σ α} {handler : Fault → Action σ α}
    (h : action.Commutes f) (hh : ∀ fault, (handler fault).Commutes f) :
    (tryCatch action handler).Commutes f := by
  rintro s _ rfl
  obtain ⟨hr, hs⟩ := h s _ rfl
  rw [outcome_tryCatch, outcome_tryCatch]
  generalize action.outcome s = left at hr hs
  generalize action.outcome (f s) = left' at hr hs
  obtain ⟨result, t⟩ := left
  obtain ⟨result', t'⟩ := left'
  obtain rfl := hr
  rcases result with fault | a
  · exact hh fault t t' hs
  · exact ⟨rfl, hs⟩

/-- An action on a part of the state commutes with a function on the state if it commutes with what
the function does to the part. -/
theorem Commutes.on {g : τ → τ} {part : σ → τ} {withPart : τ → σ → σ} {action : Action τ α}
    (h : action.Commutes g) (hpart : ∀ s, part (f s) = g (part s))
    (hwith : ∀ t s, withPart (g t) (f s) = f (withPart t s)) :
    (on part withPart action).Commutes f := by
  rintro s _ rfl
  obtain ⟨hr, hs⟩ := h (part s) _ rfl
  rw [outcome_on, outcome_on, hpart, ← hr, hs]
  exact ⟨rfl, hwith _ s⟩

/-- Actions in a row give the same results from the image of a state, and leave the image of the
state that they leave. -/
theorem Commutes.each {action : ι → Action σ α} (h : ∀ i, (action i).Commutes f) (is : List ι)
    (s : σ) : Action.each action is (f s) =
      ((Action.each action is s).1, f (Action.each action is s).2) := by
  obtain ⟨hr, hs⟩ := Refines.each h is s _ rfl
  exact Prod.ext hr.symm hs

end Action

end ScriptBase
