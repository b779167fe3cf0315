import CellSketch.Error
import CellSketch.Flow.Network
import CellSketch.Parts

/-!
# Engine — what draws the components of a graph

A graph is drawn component by component, each as a network of its own.  Which vertices belong
together and where the boxes of a network have their centres is up to an engine, and it may fail.
What it answers is measured in any arithmetic; here the boxes are snapped to whole cells.
-/

namespace CellSketch
namespace Flow

open Number

/-- Vertices by their index in the graph, in the order in which the component was put together. -/
abbrev Component := List Nat

/-- Components that share out the vertices below `count`. -/
structure Shared (count : Nat) (cs : List Component) : Prop where
  perm : cs.flatten.Perm (List.range count)
  inhabited : ∀ c ∈ cs, c ≠ []

/-- An engine that draws graphs. -/
structure Engine (α : Type) where
  /-- The connected components of the vertices below `count`. -/
  components : (count : Nat) → (edges : List (Nat × Nat)) → List Component
  shared : ∀ count edges, Shared count (components count edges)
  /-- The centres of the boxes of a network, or why it cannot be drawn. -/
  centres : Network → Except String (Nat → Point α)

section Corners

variable {α : Type} [Scalar α]

/-- The cell nearest to the top left corner of a box with this centre; a half goes to the even
neighbour. -/
def snap (centre : Point α) (width : Nat) : Except Fault Cell := do
  let x ← Scalar.round (centre.x - Scalar.whole width / Scalar.whole 2)
  let y ← Scalar.round (centre.y - Scalar.whole boxHeight / Scalar.whole 2)
  .ok ⟨x, y⟩

namespace Engine

/-- The centres of the boxes of a network.  A box by itself needs no engine. -/
def centresOf (engine : Engine α) (n : Network) : Except Error (Nat → Point α) :=
  match n.widths.toList with
  | [w] =>
      .ok fun _ => ⟨Scalar.whole w / Scalar.whole 2, Scalar.whole boxHeight / Scalar.whole 2⟩
  | _ => (engine.centres n).mapError .layoutFailed

/-- The top left corners of a network's boxes, before it is moved to its place. -/
def corners (engine : Engine α) (n : Network) : Except Error (List Cell) := do
  let centre ← engine.centresOf n
  (n.widths.toList.zipIdx.mapM fun (w, v) => snap (centre v) w).mapError .number

end Engine
end Corners
end Flow
end CellSketch
