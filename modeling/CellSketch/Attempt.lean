import CellSketch.Number.Scalar

/-!
# Attempt — work that keeps what it did before it failed

A drawing that meets a number it cannot use stops there, and what was drawn up to that point stays.
An attempt is therefore a state together with the fault that stopped the work, if one did.
-/

namespace CellSketch

open Number

/-- What work leaves behind, and why it stopped early, if it did. -/
structure Attempt (σ : Type) where
  state : σ
  fault : Option Fault := none
  deriving DecidableEq, Repr

namespace Attempt

variable {σ τ β : Type}

/-- Goes on with the state, unless the work stopped. -/
def andThen (r : Attempt σ) (next : σ → Attempt σ) : Attempt σ :=
  match r.fault with
  | none => next r.state
  | some _ => r

/-- The same work on a larger state. -/
def map (f : σ → τ) (r : Attempt σ) : Attempt τ := ⟨f r.state, r.fault⟩

/-- Stops for a fault and goes on otherwise. -/
@[macro_inline] def barring (fault : Option Fault) (s : σ) (next : Attempt σ) : Attempt σ :=
  match fault with
  | none => next
  | some f => ⟨s, some f⟩

/-- Takes one step for each element, up to the first that fails. -/
def each (step : σ → β → Attempt σ) (s : σ) : List β → Attempt σ
  | [] => ⟨s, none⟩
  | b :: rest => (step s b).andThen fun next => each step next rest

end Attempt

end CellSketch
