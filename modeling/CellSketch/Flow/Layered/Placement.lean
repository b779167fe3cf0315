import CellSketch.Flow.Grouping
import CellSketch.Flow.Layered.Ordering

/-!
# Placement — columns for the vertices of ordered layers

Vertices of neighbouring layers are aligned into blocks that run straight down, and each block is
then pushed as far to one side as the spacing allows.  This is done four times, aligning from above
or below and from the left or right; the column of a vertex is the mean of the two middle results.

Columns are counted in half cells while blocks are placed, since half the width of a box may be
half a cell, and all numbers stay whole.
-/

namespace CellSketch
namespace Flow
namespace Layered

open Number

/-! ## Conflicts -/

/-- The waypoint above a waypoint, if what is above it is one. -/
def waypointAbove? (l : Layers) (v : Nat) : Option Nat :=
  (l.neighbors false v).find? l.isWaypoint

/-- The edges between a layer and the one above that cross a piece of a long edge, as pairs of upper
and lower vertex. -/
def layerConflicts (l : Layers) (o : Order) (upper layer : Array Nat) : List (Nat × Nat) :=
  let last := upper.size - 1
  let scan := layer.toList.zipIdx.foldl
    (fun (found, least, first) (v, i) =>
      let inner := waypointAbove? l v
      if l.isWaypoint v && (i + 1 == layer.size || inner.isSome) then
        let greatest := match inner with
          | some u => o.placeOf u
          | none => last
        let crossing := ((layer.toList.drop first).take (i + 1 - first)).flatMap fun w =>
          (l.neighbors false w).filterMap fun u =>
            if o.placeOf u < least ∨ greatest < o.placeOf u then some (u, w) else none
        (found ++ crossing, greatest, i + 1)
      else (found, least, first))
    (([] : List (Nat × Nat)), 0, 0)
  scan.1

/-- All such edges. -/
def conflicts (l : Layers) (o : Order) : List (Nat × Nat) :=
  (o.layers.toList.zip (o.layers.toList.drop 1)).flatMap fun (upper, layer) =>
    layerConflicts l o upper layer

/-! ## Blocks -/

/-- One of the four ways to align: which layer to look at, and from which side. -/
structure Sweep where
  /-- Align with the layer below instead of the one above. -/
  below : Bool
  /-- Take vertices and neighbours from the right. -/
  fromRight : Bool

namespace Sweep

/-- The four ways, in the order in which they are taken. -/
def all : List Sweep := [⟨false, false⟩, ⟨false, true⟩, ⟨true, false⟩, ⟨true, true⟩]

def sided (s : Sweep) (xs : List α) : List α := if s.fromRight then xs.reverse else xs

end Sweep

/-- Vertices in cycles: `next` leads around the block and `root` is its first vertex. -/
structure Blocks where
  root : Array Nat
  next : Array Nat

namespace Blocks

def rootOf (b : Blocks) (v : Nat) : Nat := b.root.getD v v

def nextOf (b : Blocks) (v : Nat) : Nat := b.next.getD v v

/-- The middle places among a vertex's neighbours, one or two. -/
def medians (places : List Nat) : List Nat :=
  let n := places.length
  if n = 0 then []
  else (places.drop ((n - 1) / 2)).take (if n % 2 = 0 then 2 else 1)

/-- Whether a neighbour at place `m` lies beyond the one taken last. -/
def beyond (s : Sweep) (taken : Option Nat) (m : Nat) : Bool :=
  match taken with
  | none => true
  | some r => if s.fromRight then m < r else r < m

/-- Joins a vertex to a neighbour, unless it is joined already, the edge is in conflict or the
neighbour is not beyond the one taken last. -/
def join (s : Sweep) (barred : List (Nat × Nat)) (neighborLayer : Array Nat) (v : Nat) :
    Blocks × Option Nat → Nat → Blocks × Option Nat
  | (b, taken), m =>
      let u := neighborLayer.getD m 0
      let pair := if s.below then (v, u) else (u, v)
      if b.nextOf v == v && !barred.contains pair && beyond s taken m then
        let root := b.rootOf u
        ({ root := b.root.set! v root, next := (b.next.set! u v).set! v root }, some m)
      else (b, taken)

/-- Aligns the vertices of a layer with their middle neighbours. -/
def alignLayer (l : Layers) (o : Order) (s : Sweep) (barred : List (Nat × Nat)) (b : Blocks)
    (neighborLayer layer : Array Nat) : Blocks :=
  let joined := (s.sided layer.toList).foldl
    (fun state v =>
      (medians (s.sided (o.sortedPlaces l s.below v))).foldl (join s barred neighborLayer v) state)
    (b, none)
  joined.1

/-- The blocks of one way to align. -/
def ofSweep (l : Layers) (o : Order) (barred : List (Nat × Nat)) (s : Sweep) : Blocks :=
  let single := (List.range l.widths.size).toArray
  let layers := if s.below then o.layers.toList.reverse else o.layers.toList
  (layers.zip (layers.drop 1)).foldl
    (fun b (neighborLayer, layer) => b.alignLayer l o s barred neighborLayer layer)
    ⟨single, single⟩

/-- The vertices of the block that starts at a root, in order. -/
def members (b : Blocks) (root : Nat) : List Nat :=
  let rec go : Nat → Nat → List Nat
    | 0, _ => []
    | fuel + 1, v => if v == root then [] else v :: go fuel (b.nextOf v)
  root :: go b.root.size (b.nextOf root)

end Blocks

/-! ## Columns -/

/-- Columns of roots in half cells, the root whose class each root belongs to, and how far each
class has to move. -/
structure Columns where
  column : Array (Option Int)
  sink : Array Nat
  shift : Array (Option Int)

namespace Columns

def columnOf (c : Columns) (v : Nat) : Int := (c.column.getD v none).getD 0

def sinkOf (c : Columns) (v : Nat) : Nat := c.sink.getD v v

/-- The distance of the centres of two neighbours, in half cells. -/
def distance (l : Layers) (v w : Nat) : Int :=
  2 * nodeSpacing + (l.widths.getD v 0 + l.widths.getD w 0 : Nat)

/-- The vertex before `v` in its layer, seen from the side of the sweep. -/
def predecessor? (layerOf : Array (Array Nat)) (o : Order) (s : Sweep) (v : Nat) : Option Nat :=
  let layer := layerOf.getD v #[]
  let place := o.placeOf v
  if s.fromRight then layer[place + 1]? else if place = 0 then none else layer[place - 1]?

/-- Keeps the block of `root` clear of the block of its member's predecessor, which belongs to
`other` and has its column. -/
def clear (c : Columns) (root other : Nat) (distance : Int) : Columns :=
  let c := if c.sinkOf root = root then { c with sink := c.sink.set! root (c.sinkOf other) } else c
  let least := c.columnOf other + distance
  if c.sinkOf root ≠ c.sinkOf other then
    let s := c.sinkOf other
    let room := c.columnOf root - least
    { c with shift := c.shift.set! s (some (match c.shift.getD s none with
        | none => room
        | some known => min known room)) }
  else { c with column := c.column.set! root (some (max (c.columnOf root) least)) }

/-- Places the block of a root after the blocks it has to keep clear of. -/
def place (l : Layers) (o : Order) (layerOf : Array (Array Nat)) (s : Sweep) (b : Blocks) :
    (fuel : Nat) → Nat → Columns → Columns
  | 0, _, c => c
  | fuel + 1, root, c =>
      if (c.column.getD root none).isSome then c
      else
        (b.members root).foldl
          (fun c w =>
            match predecessor? layerOf o s w with
            | none => c
            | some p =>
                let other := b.rootOf p
                (place l o layerOf s b fuel other c).clear root other (distance l p w))
          { c with column := c.column.set! root (some 0) }

/-- The columns of all vertices for one way to align. -/
def ofSweep (l : Layers) (o : Order) (layerOf : Array (Array Nat)) (barred : List (Nat × Nat))
    (s : Sweep) : Array Int :=
  let b := Blocks.ofSweep l o barred s
  let n := l.widths.size
  let layers := if s.below then o.layers.toList.reverse else o.layers.toList
  let roots := (layers.flatMap fun layer => s.sided layer.toList).filter fun v => b.rootOf v == v
  let placed := roots.foldl (fun c v => place l o layerOf s b (n + 1) v c)
    ({ column := Array.replicate n none
       sink := (List.range n).toArray
       shift := Array.replicate n none } : Columns)
  let side : Int := if s.fromRight then -1 else 1
  (List.range n).toArray.map fun v =>
    let root := b.rootOf v
    side * (placed.columnOf root + (placed.shift.getD (placed.sinkOf root) none).getD 0)

end Columns

/-! ## Centres -/

/-- The sum of the two middle ones of four numbers. -/
def middleSum (xs : List Int) : Int :=
  match xs.mergeSort with
  | [_, a, b, _] => a + b
  | _ => 0

/-- The layer that each vertex lies in. -/
def layerTable (l : Layers) (o : Order) : Array (Array Nat) :=
  o.layers.foldl (fun table layer => layer.foldl (fun table v => table.set! v layer) table)
    (Array.replicate l.widths.size #[])

section Centres

variable {α : Type} [Scalar α]

/-- The row of the centre of a layer's boxes. -/
def rowCentre (index : Nat) : α :=
  Scalar.whole (index * (boxHeight + layerSpacing) : Nat) +
    Scalar.whole boxHeight / Scalar.whole 2

/-- The centres of the vertices of a network, in cells. -/
def centres (n : Network) : Nat → Point α :=
  let l := Layers.ofNetwork n
  let o := Order.ofLayers l
  let layerOf := layerTable l o
  let barred := conflicts l o
  let results := Sweep.all.map (Columns.ofSweep l o layerOf barred)
  let row (v : Nat) : Nat := (o.layers.findIdx? (·.contains v)).getD 0
  fun v =>
    ⟨Scalar.whole (middleSum (results.map (·.getD v 0))) / Scalar.whole 4, rowCentre (row v)⟩

end Centres

/-! ## The engine -/

/-- The engine that puts components together edge by edge and draws them in layers. -/
def engine {α : Type} [Scalar α] : Engine α where
  components := joined
  shared := shared_joined
  centres n := .ok (centres n)

end Layered
end Flow
end CellSketch
