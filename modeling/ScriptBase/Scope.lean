import ScriptBase.Action

/-!
# Using a resource in a block

A block uses a resource, and the resource is closed when the block ends, however it ends. A fault of
the block is raised again after that, unless closing raises one of its own, which then takes its
place.

## Main definitions

* `ScriptBase.withClosing`: runs a block and closes its resource.
* `ScriptBase.withOwned`: the same with a resource that may be missing.
* `ScriptBase.Probe`: a resource that counts how it is used.
-/

namespace ScriptBase

/-- Runs a block and then `close`, also if the block raises a fault. -/
def withClosing {σ : Type} (block close : Action σ Unit) : Action σ Unit := do
  tryCatch block fun fault => do
    close
    throw fault
  close

/-- The resource is closed after the block, and what leaves the block is its own result, unless
closing raises a fault. -/
theorem outcome_withClosing {σ : Type} (block close : Action σ Unit) (s : σ) :
    (withClosing block close).outcome s =
      let left := close.outcome (block.outcome s).2
      (do let _ ← left.1; (block.outcome s).1, left.2) := by
  simp only [withClosing, Action.outcome_bind, Action.outcome_tryCatch]
  rcases block.outcome s with ⟨_ | _, t⟩ <;> dsimp only
  · rcases close.outcome t with ⟨_ | _, u⟩ <;> rfl
  · rcases close.outcome t with ⟨_ | _, u⟩ <;> rfl

theorem commutes_withClosing {σ : Type} {f : σ → σ} {block close : Action σ Unit}
    (hb : block.Commutes f) (hc : close.Commutes f) : (withClosing block close).Commutes f :=
  (hb.tryCatch fun fault => hc.bind fun _ => Action.commutes_throw fault).bind fun _ => hc

/-- Runs a block on a resource and closes it. A resource that is missing is a fault, and then the
block is not run. -/
def withOwned {σ ρ : Type} (resource : Option ρ) (block close : ρ → Action σ Unit) :
    Action σ Unit :=
  match resource with
  | none => throw .nullResource
  | some r => withClosing (block r) (close r)

/-! ### Counting -/

/-- A resource that counts how often it is used and closed. -/
structure Probe where
  uses : Nat
  closes : Nat
  deriving DecidableEq, Repr

namespace Probe

/-- A resource that has not been used. -/
def fresh : Probe := ⟨0, 0⟩

/-- Raises a fault, if there is one. -/
def raising {σ : Type} (fault : Option Fault) : Action σ Unit :=
  match fault with
  | none => pure ()
  | some fault => throw fault

/-- Counts a use. -/
def use : Action Probe Unit := modify fun p => { p with uses := p.uses + 1 }

/-- Counts a closing, and then raises a fault, if there is one. -/
def close (fault : Option Fault) : Action Probe Unit := do
  modify fun p => { p with closes := p.closes + 1 }
  raising fault

/-- A block that uses the resource, closes it if it is to, and then raises a fault, if there is
one. -/
def block (closing : Bool) (closeFault blockFault : Option Fault) : Action Probe Unit := do
  use
  if closing then close closeFault
  raising blockFault

end Probe

end ScriptBase
