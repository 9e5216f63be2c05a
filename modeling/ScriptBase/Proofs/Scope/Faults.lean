import ScriptBase.Proofs.Writer.Delivery
import ScriptBase.Scope

/-!
# Faults that leave a block

However a resource is handed to a block, it is closed once after the block, and it is closed from
the state that the block has left. A fault of the block leaves the whole then, unless closing raises
one: a fault of closing takes the place of that of the block. A writer whose bytes cannot be handed
on is closed with such a fault, so a script does not always see what its block has raised.

## Main definitions

* `ScriptBase.Action.counted`: an action with a count of its runs.
* `ScriptBase.Handing`: the ways in which a resource is handed to a block.

## Main results

* `ScriptBase.Handing.fault_leaves_iff`: which fault leaves, and how often the resource is closed.
* `ScriptBase.Handing.fault_replaced`: a fault of a block that does not leave.
-/

namespace ScriptBase

/-- An action with a count of its runs beside the state. -/
def Action.counted {σ α : Type} (action : Action σ α) : Action (σ × Nat) α := do
  modify fun s => (s.1, s.2 + 1)
  Action.on Prod.fst (fun t s => (t, s.2)) action

@[simp] theorem Action.outcome_counted {σ α : Type} (action : Action σ α) (s : σ × Nat) :
    action.counted.outcome s = ((action.outcome s.1).1, (action.outcome s.1).2, s.2 + 1) := by
  simp [counted, outcome_bind]

/-- How a resource is handed to a block. -/
inductive Handing where
  /-- By a reference to it. -/
  | reference
  /-- By its owner, which might have none. -/
  | owner
  deriving DecidableEq, Repr

namespace Handing

variable {σ ρ : Type}

/-- Runs a block on a resource that is handed to it, and closes the resource. -/
def closing (how : Handing) (r : ρ) (block close : ρ → Action σ Unit) : Action σ Unit :=
  match how with
  | reference => withClosing (block r) (close r)
  | owner => withOwned (some r) block close

/-- How a resource is handed to a block makes no difference. -/
theorem closing_eq (how : Handing) (r : ρ) (block close : ρ → Action σ Unit) :
    how.closing r block close = withClosing (block r) (close r) := by
  cases how <;> rfl

/-- After a block that raises a fault, its resource is closed once. The fault leaves exactly if
closing raises no other one, and another one leaves in its place. -/
theorem fault_leaves_iff (how : Handing) (r : ρ) (block : ρ → Action (σ × Nat) Unit)
    (close : ρ → Action σ Unit) (s : σ × Nat) (fault : Fault)
    (h : ((block r).outcome s).1 = .error fault) :
    let left := ((block r).outcome s).2
    let closed := (close r).outcome left.1
    let whole := (how.closing r block fun r => (close r).counted).outcome s
    whole.2 = (closed.2, left.2 + 1) ∧
      (whole.1 = .error fault ↔ ∀ other, closed.1 = .error other → other = fault) ∧
      ∀ other, closed.1 = .error other → whole.1 = .error other := by
  intro left closed whole
  have hw : whole = (do let _ ← closed.1; .error fault, closed.2, left.2 + 1) := by
    change (how.closing r block fun r => (close r).counted).outcome s = _
    rw [closing_eq, outcome_withClosing, Action.outcome_counted, h]
  rw [hw]
  refine ⟨rfl, ?_, fun other ho => by rw [ho]; rfl⟩
  rcases closed.1 with other | _
  · have he : (do let _ ← (Except.error other : Except Fault Unit); Except.error fault) =
        (.error other : Except Fault Unit) := rfl
    rw [he]
    simp
  · exact ⟨fun _ _ => nofun, fun _ => rfl⟩

/-- A block that writes a byte and raises a fault, on a sink with room for it and on one without
room: the fault leaves and does not leave, and the writer is closed once both times. -/
theorem fault_leaves_iff_two :
    let host := Host.start ⟨none, none⟩ .fresh none
    let stop : Fault := .raised .value [0x61]
    let block : Unit → Action (Writing × Nat) Unit := fun _ =>
      Action.on Prod.fst (fun w s => (w, s.2)) (do Writing.write [0x62]; throw stop)
    let whole := fun room =>
      (reference.closing () block fun _ => Writing.close.counted).outcome
        (.onSink [] 0 (some room) false host, 0)
    (∀ room, ((block ()).outcome (.onSink [] 0 (some room) false host, 0)).1 = .error stop) ∧
      ((whole 1).1 = .error stop ∧ (whole 1).2.2 = 1) ∧
      (whole 0).1 ≠ .error stop ∧ (whole 0).2.2 = 1 := by
  intro host stop block
  have hraise room : ((block ()).outcome (.onSink [] 0 (some room) false host, 0)).1 =
      .error stop := rfl
  have hleft room : ((block ()).outcome (.onSink [] 0 (some room) false host, 0)).2.2 = 0 := rfl
  obtain ⟨hcount, hleaves, -⟩ := fault_leaves_iff reference () block (fun _ => Writing.close)
    (.onSink [] 0 (some 1) false host, 0) stop (hraise 1)
  obtain ⟨hcount', -, hother⟩ := fault_leaves_iff reference () block (fun _ => Writing.close)
    (.onSink [] 0 (some 0) false host, 0) stop (hraise 0)
  rw [hleft] at hcount hcount'
  have hclosed : (Writing.close.outcome
      ((block ()).outcome (.onSink [] 0 (some 1) false host, 0)).2.1).1 = .ok () := rfl
  rw [hclosed] at hleaves
  have hstop := hleaves.2 nofun
  have hfailed := hother (.writeFailed []) rfl
  exact ⟨hraise, ⟨hstop, by rw [hcount]⟩, by rw [hfailed]; simp [stop], by rw [hcount']⟩

/-- Not every fault of a block leaves: a writer that cannot hand on its bytes is closed with a fault
of its own. -/
theorem fault_replaced :
    ¬ ∀ (σ ρ : Type) (how : Handing) (r : ρ) (block close : ρ → Action σ Unit) (s : σ)
        (fault : Fault), ((block r).outcome s).1 = .error fault →
      ((how.closing r block close).outcome s).1 = .error fault := by
  intro h
  have he := h Writing Unit .reference ()
    (fun _ => do Writing.write [0x78]; throw (.raised .value "stop")) (fun _ => Writing.close)
    (.onSink File.streamName 8192 (some 0) false (.start ⟨none, none⟩ .fresh none))
    (.raised .value "stop") rfl
  cases he

end Handing

end ScriptBase
