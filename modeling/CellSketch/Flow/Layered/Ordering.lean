import CellSketch.Flow.Layered.Layers

/-!
# Ordering — fewer crossings by moving vertices inside their layers

A layer is put in order with its eye on the layer above or below: vertices are sorted by the mean
relative place of their neighbours there, then neighbouring vertices change places where that
saves crossings.  A layer whose edges do not cross is left alone.  All layers are ordered downward,
then upward if the first pass met any crossing, and downward once more.
-/

namespace CellSketch
namespace Flow
namespace Layered

/-- An order of the vertices in each layer.  `place` is the index of a vertex in its layer and
`weight` the same relative to the layer's length, between 0 and 1. -/
structure Order where
  layers : Array (Array Nat)
  place : Array Nat
  weight : Array Float

namespace Order

def placeOf (o : Order) (v : Nat) : Nat := o.place.getD v 0

def weightOf (o : Order) (v : Nat) : Float := o.weight.getD v 0.0

/-- The weight of one place in a layer of `n` vertices. -/
def unitWeight (n : Nat) : Float := if n ≤ 1 then 1.0 else 1.0 / (n - 1).toFloat

/-- Numbers the vertices of a layer as they stand. -/
def number (o : Order) (layer : Array Nat) : Order :=
  layer.toList.zipIdx.foldl
    (fun o (v, i) =>
      { o with
        place := o.place.set! v i
        weight := o.weight.set! v (i.toFloat * unitWeight layer.size) }) o

def initial (l : Layers) : Order :=
  l.layers.foldl number
    ⟨l.layers, Array.replicate l.widths.size 0, Array.replicate l.widths.size 0.0⟩

/-- The places of a vertex's neighbours on one side, ascending. -/
def sortedPlaces (l : Layers) (o : Order) (below : Bool) (v : Nat) : List Nat :=
  ((l.neighbors below v).map o.placeOf).mergeSort

/-- How many pairs of a list stand in descending order. -/
def inversions : List Nat → Nat
  | [] => 0
  | p :: rest => (rest.filter (· < p)).length + inversions rest

/-- The mean weight of a vertex's neighbours, its own weight if it has none. -/
def meanWeight (l : Layers) (o : Order) (below : Bool) (v : Nat) : Float :=
  let weights := (l.neighbors below v).map o.weightOf
  if weights.isEmpty then o.weightOf v
  else weights.foldl (· + ·) 0.0 / weights.length.toFloat

/-- The crossings of the edges of two vertices, as they stand and if they changed places. -/
def crossings (l : Layers) (o : Order) (below : Bool) (v w : Nat) : Nat × Nat :=
  let left := (l.neighbors below v).map o.weightOf
  let right := (l.neighbors below w).map o.weightOf
  let pairs := left.flatMap fun a => right.map fun b => decide (a > b)
  ((pairs.filter id).length, (pairs.filter (!·)).length)

/-- Lets each vertex in turn change places with the next one where that saves crossings, and counts
the crossings that are left. -/
def exchange (l : Layers) (o : Order) (below : Bool) : List Nat → List Nat × Nat
  | v :: w :: rest =>
      let (standing, changed) := crossings l o below v w
      if changed < standing then
        let (others, count) := exchange l o below (v :: rest)
        (w :: others, changed + count)
      else
        let (others, count) := exchange l o below (w :: rest)
        (v :: others, standing + count)
  | short => (short, 0)
termination_by vs => vs.length

/-- Orders one layer and counts the crossings that are left. -/
def orderLayer (l : Layers) (below : Bool) (o : Order) (index : Nat) : Order × Nat :=
  let layer := o.layers.getD index #[]
  if inversions (layer.toList.flatMap (sortedPlaces l o below)) = 0 then (o, 0)
  else
    let means := layer.toList.map fun v => (v, meanWeight l o below v)
    let weighed : Order :=
      { o with weight := means.foldl (fun weight (v, mean) => weight.set! v mean) o.weight }
    let sorted := (means.mergeSort fun a b => decide (a.2 ≤ b.2)).map (·.1)
    let (exchanged, count) := exchange l weighed below sorted
    let arranged := { weighed with layers := o.layers.set! index exchanged.toArray }
    (arranged.number exchanged.toArray, count)

/-- Orders layer after layer and sums up the crossings that are left. -/
def sweep (l : Layers) (below : Bool) (o : Order) (indexes : List Nat) : Order × Nat :=
  indexes.foldl
    (fun (o, total) i => let (next, count) := orderLayer l below o i; (next, total + count)) (o, 0)

/-- The final order of a network's layers. -/
def ofLayers (l : Layers) : Order :=
  let downward := List.range l.layers.size
  let (first, crossings) := sweep l false (initial l) downward
  let second := if crossings = 0 then first else (sweep l true first downward.reverse).1
  (sweep l false second downward).1

end Order
end Layered
end Flow
end CellSketch
