import CellSketch.Flow.Layered.Feedback

/-!
# Layers — the vertices of a network by rank

Every vertex is ranked below all vertices with an edge to it, as high as that allows.  An edge over
more than one rank is cut into pieces by a waypoint in each layer that it passes, so that all
neighbours of a layer's vertices lie in the layers next to it.
-/

namespace CellSketch
namespace Flow
namespace Layered

/-! ## Ranks -/

/-- Ranks given so far, the edges whose upper ends have a rank, and the layers. -/
structure Ranking where
  rank : Array (Option Nat)
  passed : List Nat := []
  layers : Array (Array Nat) := #[]

namespace Ranking

def rankOf (r : Ranking) (v : Nat) : Nat := (r.rank.getD v none).getD 0

/-- Puts a vertex below all vertices with an edge to it. -/
def place (n : Network) (r : Ranking) (v : Nat) : Ranking :=
  let rank := ((n.incoming v).map fun (_, u) => r.rankOf u + 1).foldl max 0
  let layers := if rank < r.layers.size then r.layers else r.layers.push #[]
  { rank := r.rank.set! v (some rank)
    passed := (n.outgoing v).map (·.1) ++ r.passed
    layers := layers.modify rank (·.push v) }

/-- Places a vertex and collects those for which nothing is missing any more. -/
def advance (n : Network) (r : Ranking) (next : List Nat) (v : Nat) : Ranking × List Nat :=
  let placed := r.place n v
  let ready := (n.outgoing v).map (·.2) |>.filter fun w =>
    (n.incoming w).all fun (e, _) => placed.passed.contains e
  (placed, ready.foldl (fun next w => if next.contains w then next else next ++ [w]) next)

/-- Places vertices in rounds, starting with the given ones. -/
def rounds (n : Network) : (fuel : Nat) → List Nat → Ranking → Ranking
  | 0, _, r => r
  | _, [], r => r
  | fuel + 1, todo, r =>
      let (placed, next) := todo.foldl (fun (r, next) v => r.advance n next v) (r, [])
      rounds n fuel next placed

/-- The ranking of a network without cycles, whose sources are taken in the given order. -/
def ofNetwork (n : Network) (sources : List Nat) : Ranking :=
  rounds n (n.size + 1) sources { rank := Array.replicate n.size none }

end Ranking

/-! ## Waypoints -/

/-- A network in layers.  Vertices from `size` on are waypoints; `above` and `below` hold the
neighbours in the next layer of either side, once for each edge. -/
structure Layers where
  size : Nat
  widths : Array Nat
  layers : Array (Array Nat)
  above : Array (List Nat)
  below : Array (List Nat)

namespace Layers

def isWaypoint (l : Layers) (v : Nat) : Bool := l.size ≤ v

def neighbors (l : Layers) (below : Bool) (v : Nat) : List Nat :=
  if below then l.below.getD v [] else l.above.getD v []

/-- Waypoints being laid: the next number, the layers, and the vertices of each long edge from its
upper to its lower end. -/
structure Laying where
  next : Nat
  layers : Array (Array Nat)
  chains : List (Nat × List Nat)

/-- Lays the waypoints of an edge. -/
def Laying.add (n : Network) (r : Ranking) (s : Laying) (e : Nat) : Laying :=
  match n.edges[e]? with
  | none => s
  | some (a, b) =>
      let count := r.rankOf b - r.rankOf a - 1
      if count = 0 then s
      else
        let points := List.range' s.next count
        { next := s.next + count
          layers := points.zipIdx.foldl
            (fun layers (p, i) => layers.modify (r.rankOf a + 1 + i) (·.push p)) s.layers
          chains := s.chains ++ [(e, a :: points ++ [b])] }

/-- The edges in the order in which the vertices meet them. -/
def edgeOrder (n : Network) : List Nat :=
  ((List.range n.size).flatMap n.incident).foldl
    (fun seen e => if seen.contains e then seen else seen ++ [e]) []

/-- The vertex that stands for `other` next to `v`: `other` itself if the first edge that joins the
two is short, else that edge's waypoint next to `v`. -/
def nextTo (n : Network) (chains : List (Nat × List Nat)) (v other : Nat) : Nat :=
  let joining := (n.incident v).find? fun e =>
    n.edges[e]? == some (v, other) || n.edges[e]? == some (other, v)
  let chain := joining.bind fun e => (chains.find? (·.1 == e)).map (·.2)
  match chain with
  | none => other
  | some chain =>
      if chain.head? == some v then (chain[1]?).getD other
      else (chain.dropLast.getLast?).getD other

/-- The neighbours of waypoints in a chain: before and after each inner vertex. -/
def chainLinks : List Nat → List (Nat × Nat × Nat)
  | a :: p :: b :: rest => (p, a, b) :: chainLinks (p :: b :: rest)
  | _ => []

/-- The vertices before and after a waypoint on its edge. -/
def linkOf (chains : List (Nat × List Nat)) (p : Nat) : Nat × Nat :=
  (((chains.flatMap fun (chain : Nat × List Nat) => chainLinks chain.2).find? (·.1 == p)).map
    (·.2)).getD (p, p)

/-- The neighbours of a vertex or waypoint in the layer above. -/
def upperNeighbors (n : Network) (chains : List (Nat × List Nat)) (v : Nat) : List Nat :=
  if v < n.size then (n.incoming v).map fun edge => nextTo n chains v edge.2
  else [(linkOf chains v).1]

/-- The neighbours of a vertex or waypoint in the layer below. -/
def lowerNeighbors (n : Network) (chains : List (Nat × List Nat)) (v : Nat) : List Nat :=
  if v < n.size then (n.outgoing v).map fun edge => nextTo n chains v edge.2
  else [(linkOf chains v).2]

/-- A network without cycles in layers, by its ranking. -/
def ofRanking (n : Network) (r : Ranking) : Layers :=
  let laid := (edgeOrder n).foldl (Laying.add n r) ⟨n.size, r.layers, []⟩
  let all := (List.range laid.next).toArray
  { size := n.size
    widths := n.widths ++ Array.replicate (laid.next - n.size) 1
    layers := laid.layers
    above := all.map (upperNeighbors n laid.chains)
    below := all.map (lowerNeighbors n laid.chains) }

/-- The layers of any network. -/
def ofNetwork (n : Network) : Layers :=
  let acyclic := n.unwound
  let sources := n.sources ++ acyclic.sources.filter fun v => !n.sources.contains v
  ofRanking acyclic (.ofNetwork acyclic sources)

end Layers
end Layered
end Flow
end CellSketch
