import ScriptBase.ClassName.Naming

/-!
# What is answered about the names of classes

Steps name classes and ask for names, each in an environment of its own. After any steps, what is
answered about a class is told by the assignments that were made: the name is the last one that the
class was given, or else the one that it has from the start. An assignment says nothing about
another class, be it a base or derived. One that raises a fault is not made: no later outcome is
another than it would be without it.

## Main definitions

* `ScriptBase.Class.seededName?`: the name that a class has from the start.
* `ScriptBase.Naming.performIn`: running a step in an environment.
* `ScriptBase.Naming.assignments`: the assignments that were made in a run, by its outcomes.
* `ScriptBase.Naming.nameAfter?`: the name that a class has after assignments.

## Main results

* `ScriptBase.Naming.Named.performIn`: what a step does to the names.
* `ScriptBase.Naming.Named.each`: what a run does to them.
* `ScriptBase.Naming.answers_after_run`: what is answered after any run.
-/

namespace ScriptBase

/-! ### Names from the start -/

/-- The name that a builtin class has from the start. -/
def BuiltinClass.name : BuiltinClass → Text
  | wideInteger | integer => "int"
  | wideReal | real => "float"
  | truth => "bool"
  | text | byte | char => "str"
  | file | reader | writer => "file"

/-- The name that a class has from the start, if it has one. -/
def Class.seededName? : Class → Option Text
  | builtin b => some b.name
  | own _ | derived _ _ => none

namespace ClassNames

theorem get?_initial (c : Class) : initial.get? c = c.seededName? := by
  cases c with
  | builtin b => cases b <;> rfl
  | own id => rfl
  | derived id base => rfl

/-- Naming a class needs well-formed settings, and changes no names without them. -/
theorem outcome_assign (c : Class) (name : Text) (names : ClassNames) (host : Host) :
    (assign c name).outcome (names, host) =
      match host.environment.settings with
      | .error fault => (.error fault, names, host)
      | .ok _ => (.ok (), names.insert c name,
          ((Host.trace (.classNamed name)).outcome host).2) := by
  rw [assign, Action.outcome_bind, Action.outcome_on, Host.outcome_trace]
  cases host.environment.settings with
  | error fault => rfl
  | ok settings => rfl

end ClassNames

namespace Naming

open ScriptBase.Action

/-! ### Steps in environments -/

/-- The names on a host with another environment. -/
def within (e : Environment) (s : Naming) : Naming :=
  { s with host := { s.host with environment := e } }

/-- Runs a step in an environment. -/
def performIn (use : Environment × NamingStep) : Action Naming NamingAnswer := do
  modify (within use.1)
  perform use.2

/-- What is answered to a step in an environment. -/
def answer (e : Environment) (step : NamingStep) (s : Naming) : Except Fault NamingAnswer :=
  ((performIn (e, step)).outcome s).1

/-- The assignment that a step with an outcome has made, if it has made one. -/
def assignment? : (Environment × NamingStep) × Except Fault NamingAnswer → Option (Class × Text)
  | ((_, .assign c name), .ok _) => some (c, name)
  | _ => none

/-- The assignments that steps with their outcomes have made. -/
def assignments (uses : List (Environment × NamingStep))
    (outcomes : List (Except Fault NamingAnswer)) : List (Class × Text) :=
  (uses.zip outcomes).filterMap assignment?

theorem assignments_cons (use : Environment × NamingStep) (uses : List (Environment × NamingStep))
    (outcome : Except Fault NamingAnswer) (outcomes : List (Except Fault NamingAnswer)) :
    assignments (use :: uses) (outcome :: outcomes) =
      (assignment? (use, outcome)).toList ++ assignments uses outcomes := by
  rw [assignments, List.zip_cons_cons, List.filterMap_cons]
  cases assignment? (use, outcome) <;> rfl

/-- The name that a class has after assignments: the last one that it was given, or else the one
that it has from the start. -/
def nameAfter? (made : List (Class × Text)) (c : Class) : Option Text :=
  ((made.filter fun a => a.1 = c).getLast?.map Prod.snd).or c.seededName?

theorem nameAfter?_concat (made : List (Class × Text)) (c d : Class) (name : Text) :
    nameAfter? (made ++ [(c, name)]) d = if c = d then some name else nameAfter? made d := by
  by_cases h : c = d <;> simp [nameAfter?, h]

/-- A class has a name if it has one from the start, or was given one. -/
theorem isSome_nameAfter? {made : List (Class × Text)} {c : Class} :
    (nameAfter? made c).isSome = true ↔
      c.seededName?.isSome = true ∨ ∃ name, (c, name) ∈ made := by
  rw [nameAfter?, Option.isSome_or, Bool.or_eq_true, or_comm, Option.isSome_map,
    List.getLast?_isSome, ne_eq, List.filter_eq_nil_iff]
  simp

/-- The names are those after assignments. -/
def Named (s : Naming) (made : List (Class × Text)) : Prop :=
  ∀ c, s.names.get? c = nameAfter? made c

theorem named_start (host : Host) : Named (start host) [] := fun c => ClassNames.get?_initial c

variable {s : Naming} {made : List (Class × Text)}

/-! ### One step -/

/-- With malformed settings an assignment raises their fault and is not made. Otherwise it is
made. -/
theorem outcome_performIn_assign (e : Environment) (c : Class) (name : Text) (s : Naming) :
    (performIn (e, .assign c name)).outcome s =
      match e.settings with
      | .error fault => (.error fault, s.within e)
      | .ok _ => (.ok .done, ⟨s.names.insert c name,
          ((Host.trace (.classNamed name)).outcome (s.within e).host).2⟩) := by
  simp only [performIn, perform, outcome_bind, outcome_modify, outcome_on,
    ClassNames.outcome_assign, within]
  cases e.settings with
  | error fault => rfl
  | ok settings => rfl

/-- Asking for a name leaves the names as they are. -/
theorem outcome_performIn_name (e : Environment) (c : Class) (s : Naming) :
    (performIn (e, .name c)).outcome s = ((s.names.name c).map .name, s.within e) := by
  simp only [performIn, perform, outcome_bind, outcome_modify, outcome_get, outcome_ofExcept,
    within]
  cases s.names.name c with
  | error fault => rfl
  | ok name => rfl

/-- A step changes the names by the assignment that it has made. -/
theorem Named.performIn (h : Named s made) (use : Environment × NamingStep) :
    Named ((performIn use).outcome s).2
      (made ++ (assignment? (use, ((Naming.performIn use).outcome s).1)).toList) := by
  obtain ⟨e, step⟩ := use
  have hasked : Named (s.within e) (made ++ (none : Option (Class × Text)).toList) := by
    rw [Option.toList_none, List.append_nil]
    exact h
  cases step with
  | assign c name =>
    rw [outcome_performIn_assign]
    cases e.settings with
    | error fault => exact hasked
    | ok settings =>
      intro d
      rw [assignment?, Option.toList_some, nameAfter?_concat, ← h d]
      exact Dict.get?_insert _ _ _ _
  | name c =>
    rw [outcome_performIn_name]
    exact hasked
  | isNamed c => exact hasked
  | same c d => exact hasked
  | isInstance c d => exact hasked

/-! ### Steps in a row -/

/-- Steps in a row change the names by the assignments that they have made. -/
theorem Named.each (h : Named s made) (uses : List (Environment × NamingStep)) :
    Named (Action.each Naming.performIn uses s).2
      (made ++ assignments uses (Action.each Naming.performIn uses s).1) := by
  induction uses generalizing s made with
  | nil => exact (List.append_nil made).symm ▸ h
  | cons use uses ih =>
    have hnext := ih (h.performIn use)
    rw [List.append_assoc, ← assignments_cons] at hnext
    exact hnext

/-- Outcomes hang on the names and not on the host, since each step finds an environment of its
own. -/
theorem refines_performIn (use : Environment × NamingStep) :
    (performIn use).Refines (fun s t : Naming => s.names = t.names) (performIn use) := by
  rintro s ⟨_, host⟩ rfl
  obtain ⟨e, step⟩ := use
  cases step with
  | assign c name =>
    rw [outcome_performIn_assign, outcome_performIn_assign]
    cases e.settings with
    | error fault => exact ⟨rfl, rfl⟩
    | ok settings => exact ⟨rfl, rfl⟩
  | name c =>
    rw [outcome_performIn_name, outcome_performIn_name]
    exact ⟨rfl, rfl⟩
  | isNamed c => exact ⟨rfl, rfl⟩
  | same c d => exact ⟨rfl, rfl⟩
  | isInstance c d => exact ⟨rfl, rfl⟩

/-! ### Answers -/

theorem Named.answer_name (h : Named s made) (e : Environment) (c : Class) :
    answer e (.name c) s =
      match nameAfter? made c with
      | some name => .ok (.name name)
      | none => .error .unnamedClass := by
  rw [answer, outcome_performIn_name, ClassNames.name, h c]
  cases nameAfter? made c with
  | none => rfl
  | some name => rfl

theorem Named.answer_isNamed (h : Named s made) (e : Environment) (c : Class) :
    answer e (.isNamed c) s = .ok (.flag (nameAfter? made c).isSome) := by
  rw [← h c]
  rfl

/-- Naming a class, be that traced or refused, changes no answer for another class. -/
theorem Named.answer_of_ne (h : Named s made) {c d : Class} (hd : d ≠ c) (e e' : Environment)
    (name : Text) :
    let later := ((Naming.performIn (e, .assign c name)).outcome s).2
    answer e' (.name d) later = answer e' (.name d) s ∧
      answer e' (.isNamed d) later = answer e' (.isNamed d) s := by
  have hlater := h.performIn (e, .assign c name)
  have hsame : nameAfter? (made ++ (assignment? ((e, .assign c name),
      ((Naming.performIn (e, .assign c name)).outcome s).1)).toList) d = nameAfter? made d := by
    generalize ((Naming.performIn (e, .assign c name)).outcome s).1 = outcome
    cases outcome with
    | error fault => exact congrArg (nameAfter? · d) (List.append_nil made)
    | ok answer => exact (nameAfter?_concat made c d name).trans (if_neg (Ne.symm hd))
  exact ⟨by rw [hlater.answer_name, h.answer_name, hsame],
    by rw [hlater.answer_isNamed, h.answer_isNamed, hsame]⟩

/-- Naming a class returns exactly if the settings are well-formed. -/
theorem answer_assign (e : Environment) (c : Class) (name : Text) (s : Naming) :
    answer e (.assign c name) s = e.settings.map fun _ => .done := by
  rw [answer, outcome_performIn_assign]
  cases e.settings with
  | error fault => rfl
  | ok settings => rfl

/-- An assignment that raises a fault is as good as none for all that comes later. -/
theorem each_of_malformed {e : Environment} {fault : Fault} (h : e.settings = .error fault)
    (c : Class) (name : Text) (later : List (Environment × NamingStep)) (s : Naming) :
    (Action.each performIn ((e, .assign c name) :: later) s).1 =
      .error fault :: (Action.each performIn later s).1 := by
  rw [Action.each, outcome_performIn_assign, h]
  exact congrArg _ (Refines.each refines_performIn later (s.within e) s rfl).1

/-- After any steps, each in an environment of its own:

* a class has a name exactly if it has one from the start or was given one;
* its name is the last one that it was given, or else the one from the start, and asking for it
  raises a fault if there is neither;
* naming a class changes no answer for another class;
* naming a class returns exactly if the settings are well-formed. If they are not, it raises their
  fault, and no later outcome is another than it would be without it. -/
theorem answers_after_run (host : Host) (uses : List (Environment × NamingStep)) :
    let run := Action.each performIn uses (start host)
    let made := assignments uses run.1
    (∀ e c, ∃ named, answer e (.isNamed c) run.2 = .ok (.flag named) ∧
      (named = true ↔ c.seededName?.isSome = true ∨ ∃ name, (c, name) ∈ made)) ∧
    (∀ e c, answer e (.name c) run.2 =
      match nameAfter? made c with
      | some name => .ok (.name name)
      | none => .error .unnamedClass) ∧
    (∀ e e' c d name, d ≠ c →
      let later := ((performIn (e, .assign c name)).outcome run.2).2
      answer e' (.name d) later = answer e' (.name d) run.2 ∧
        answer e' (.isNamed d) later = answer e' (.isNamed d) run.2) ∧
    ∀ e c name, answer e (.assign c name) run.2 = (e.settings.map fun _ => .done) ∧
      ∀ fault, e.settings = .error fault → fault.kind = .configuration ∧ ∀ later,
        (Action.each performIn ((e, .assign c name) :: later) run.2).1 =
          .error fault :: (Action.each performIn later run.2).1 := by
  intro run made
  have h : Named run.2 made := (named_start host).each uses
  refine ⟨fun e c => ⟨_, h.answer_isNamed e c, isSome_nameAfter?⟩, h.answer_name,
    fun e e' _ _ name hd => h.answer_of_ne hd e e' name, fun e c name => ?_⟩
  exact ⟨answer_assign e c name _, fun fault hf =>
    ⟨Environment.kind_of_settings hf, fun later => each_of_malformed hf c name later _⟩⟩

end Naming

end ScriptBase
