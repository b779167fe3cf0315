import CellSketch.Flow.Engine
import CellSketch.Flow.Route
import CellSketch.Report

/-!
# Layout — boxes and edges of a flow graph on the grid

The connected components of a graph are placed side by side.  Each is drawn by an engine, which may
fail; its boxes are snapped to whole cells and moved so that the component starts at the left of its
share and at the top.  Then all edges are routed around all boxes.
-/

namespace CellSketch
namespace Flow

open Number

/-- Free columns between components. -/
def componentSpacing : Nat := 4

/-! ## Components -/

namespace Graph

/-- The edges by the indexes of their ends. -/
def indexedEdges (g : Graph) : List (Nat × Nat) :=
  g.edges.filterMap fun e => do
    let a ← g.indexOf? e.source
    let b ← g.indexOf? e.target
    some (a, b)

/-- A component as a network of its own, numbered in its order. -/
def network (g : Graph) (c : Component) : Network where
  widths := (c.filterMap fun v => (g.nodes[v]?).map (·.width)).toArray
  edges := (g.indexedEdges.filterMap fun (a, b) => do
    let i ← c.findIdx? (· == a)
    let j ← c.findIdx? (· == b)
    some (i, j)).toArray

section Drawn

variable {α : Type} [Scalar α]

/-- The connected components. -/
def components (engine : Engine α) (g : Graph) : List Component :=
  engine.components g.nodes.length g.indexedEdges

/-- The components with the corners of their boxes, if the engine draws them all. -/
def drawnBy (engine : Engine α) (g : Graph) : Except Error (List (Component × List Cell)) :=
  (g.components engine).mapM fun c => (engine.corners (g.network c)).map (c, ·)

end Drawn
end Graph

/-! ## Boxes -/

/-- The smallest number of a list, zero if there is none. -/
def least (xs : List Int) : Int := xs.min?.getD 0

/-- The largest number of a list, zero if none is positive. -/
def extent (xs : List Int) : Int := xs.foldl max 0

/-- Moves the boxes of a component so that it starts in column `left` and in row zero. -/
def shiftTo (left : Int) (corners : List Cell) : List Cell :=
  let x := least (corners.map (·.x))
  let y := least (corners.map (·.y))
  corners.map fun c => ⟨c.x - x + left, c.y - y⟩

/-- The corners of the boxes of all components, each component with `componentSpacing` free columns
to the one before. -/
def placeComponents (widths : Component → List Nat) :
    (left : Int) → List (Component × List Cell) → List (Nat × Cell)
  | _, [] => []
  | left, (c, corners) :: rest =>
      let placed := shiftTo left corners
      let right := extent ((placed.zip (widths c)).map fun (p, w) => p.x - left + w)
      c.zip placed ++ placeComponents widths (left + right + componentSpacing) rest

/-! ## Layouts -/

/-- An edge with the points of its way. -/
structure RoutedEdge where
  source : Id
  target : Id
  points : List Cell
  arrow : Arrow
  deriving DecidableEq, Repr

structure Layout where
  width : Int
  height : Int
  boxes : List Box
  edges : List RoutedEdge
  deriving DecidableEq, Repr

namespace Graph

/-- The boxes of all nodes, given the components as they are drawn. -/
def boxesOf (g : Graph) (drawn : List (Component × List Cell)) : List Box :=
  let placed := placeComponents (fun c => (g.network c).widths.toList) 0 drawn
  g.nodes.zipIdx.filterMap fun (node, i) =>
    (placed.find? (·.1 == i)).map fun (_, p) =>
      ⟨node.id, node.label, p.x, p.y, node.width, boxHeight⟩

end Graph

/-- The first column to the right of all boxes. -/
def boxesWidth (boxes : List Box) : Int := extent (boxes.map fun b => b.x + b.width)

/-- The first row below all boxes. -/
def boxesHeight (boxes : List Box) : Int := extent (boxes.map fun b => b.y + b.height)

/-- Routes an edge between its boxes. -/
def routeEdge (boxes : List Box) (e : Edge) : Option (RoutedEdge × List Notice) := do
  let source ← boxes.find? (·.id == e.source)
  let target ← boxes.find? (·.id == e.target)
  let (points, notices) :=
    route source target e.arrow (occupied boxes) (boxesWidth boxes) (boxesHeight boxes)
  some (⟨e.source, e.target, points, e.arrow⟩, notices)

/-- The layout of a graph, given its components as they are drawn. -/
def Graph.layoutOf (g : Graph) (drawn : List (Component × List Cell)) : Layout × List Notice :=
  let boxes := g.boxesOf drawn
  let routed := g.edges.filterMap (routeEdge boxes)
  let points := routed.flatMap fun (e, _) => e.points
  let width := max (boxesWidth boxes) (extent (points.map (·.x + 1)))
  let height := max (boxesHeight boxes) (extent (points.map (·.y + 1)))
  (⟨width, height, boxes, routed.map (·.1)⟩,
    routed.flatMap (·.2) ++ [.flowPlaced boxes.length drawn.length width height])

/-- The layout of a graph, drawn by an engine. -/
def layoutWith {α : Type} [Scalar α] (engine : Engine α) (g : Graph) : Report Layout := do
  let drawn ← g.drawnBy engine
  let (layout, notices) := g.layoutOf drawn
  Report.tell notices
  return layout

end Flow
end CellSketch
