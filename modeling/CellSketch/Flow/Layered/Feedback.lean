import CellSketch.Flow.Network

/-!
# Feedback — the edges of a network that close a cycle

A depth-first search from the sources finds the edges that lead back to a vertex on the way there.
Turned around, they leave a network without cycles.
-/

namespace CellSketch
namespace Flow
namespace Network

/-- The edges at a vertex, by index. -/
def incident (n : Network) (v : Nat) : List Nat :=
  (List.range n.edges.size).filter fun e =>
    match n.edges[e]? with
    | some (a, b) => a == v || b == v
    | none => false

/-- The edges that end at a vertex, by index, with their other ends. -/
def incoming (n : Network) (v : Nat) : List (Nat × Nat) :=
  (n.incident v).filterMap fun e =>
    match n.edges[e]? with
    | some (a, b) => if b == v then some (e, a) else none
    | none => none

/-- The edges that start at a vertex, by index, with their other ends. -/
def outgoing (n : Network) (v : Nat) : List (Nat × Nat) :=
  (n.incident v).filterMap fun e =>
    match n.edges[e]? with
    | some (a, b) => if a == v then some (e, b) else none
    | none => none

/-- The vertices that no edge ends at. -/
def sources (n : Network) : List Nat :=
  (List.range n.size).filter fun v => (n.incoming v).isEmpty

/-! ## Feedback -/

/-- A depth-first search: the vertices it has entered, those it has not left yet, and the edges
that led back to one of these. -/
structure Tour where
  entered : List Nat := []
  unfinished : List Nat := []
  feedback : List Nat := []

/-- Enters a vertex and everything that can be reached from it for the first time. -/
def visit (n : Network) : (fuel : Nat) → Nat → Tour → Tour
  | 0, _, t => t
  | fuel + 1, v, t =>
      let entering := { t with entered := v :: t.entered, unfinished := v :: t.unfinished }
      let left := (n.outgoing v).foldl (fun t (e, w) =>
        if !t.entered.contains w then n.visit fuel w t
        else if t.unfinished.contains w then { t with feedback := e :: t.feedback }
        else t) entering
      { left with unfinished := left.unfinished.erase v }

/-- The edges that close a cycle in the search from the sources and then from the other vertices. -/
def feedback (n : Network) : List Nat :=
  let tour := (n.sources ++ List.range n.size).foldl
    (fun t v => if t.entered.contains v then t else n.visit n.size v t) ({} : Tour)
  tour.feedback

/-- The network with its feedback edges turned around, which has no cycles. -/
def unwound (n : Network) : Network :=
  let turned := n.feedback
  { n with
    edges := n.edges.mapIdx fun e (a, b) => if turned.contains e then (b, a) else (a, b) }

end Network
end Flow
end CellSketch
