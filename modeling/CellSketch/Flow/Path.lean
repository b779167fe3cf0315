import CellSketch.Parts
import Std.Data.HashMap
import Std.Data.TreeSet

/-!
# Path — cheapest paths between free cells

A path leads from cell to cell in unit moves.  Every move costs one, every turn two more.  The
search looks at states, a cell together with the move that entered it, in the order of cost so far
plus the distance still to go; among equal sums the cheaper state comes first, then the smaller
cell, then the smaller move, so the answer is determined.
-/

namespace CellSketch
namespace Flow

/-- A move or direction, in columns and rows. -/
structure Step where
  dx : Int
  dy : Int
  deriving DecidableEq, Hashable, Repr

namespace Step

def down : Step := ⟨0, 1⟩
def up : Step := ⟨0, -1⟩
def right : Step := ⟨1, 0⟩
def left : Step := ⟨-1, 0⟩

/-- The unit moves, in the order in which they are tried. -/
def moves : List Step := [down, up, right, left]

/-- The cell one step away. -/
def ahead (s : Step) (c : Cell) : Cell := ⟨c.x + s.dx, c.y + s.dy⟩

/-- The cell one step back. -/
def behind (s : Step) (c : Cell) : Cell := ⟨c.x - s.dx, c.y - s.dy⟩

end Step

/-- What a turn costs on top of its move. -/
def turnPenalty : Nat := 2

/-- A path is asked for: from `start`, leaving in the direction `leave`, to `goal`, arriving in the
direction `arrive`, over unblocked cells in columns `0` to `width` and rows `0` to `height`. -/
structure PathQuery where
  start : Cell
  goal : Cell
  leave : Step
  arrive : Step
  blocked : Cell → Bool
  width : Int
  height : Int

/-- A cell together with the move that entered it. -/
structure PathState where
  cell : Cell
  entered : Step
  deriving DecidableEq, Hashable, Repr

namespace PathQuery

/-- Whether a move may enter the cell. -/
def free (q : PathQuery) (c : Cell) : Bool :=
  0 ≤ c.x && c.x ≤ q.width && 0 ≤ c.y && c.y ≤ q.height && !q.blocked c

/-- The least number of moves from a cell to the goal. -/
def distance (q : PathQuery) (c : Cell) : Nat :=
  (c.x - q.goal.x).natAbs + (c.y - q.goal.y).natAbs

/-- Whether a search may stop in this state. -/
def arrived (q : PathQuery) (s : PathState) : Bool :=
  s.cell == q.goal && (s.cell == q.start || s.entered == q.arrive)

/-- The states one move after another, with the cost of the move; the start is only left straight
ahead. -/
def successors (q : PathQuery) (s : PathState) : List (PathState × Nat) :=
  Step.moves.filterMap fun m =>
    if s.cell = q.start ∧ m ≠ q.leave then none
    else if q.free (m.ahead s.cell) then
      some (⟨m.ahead s.cell, m⟩, 1 + if m = s.entered then 0 else turnPenalty)
    else none

/-! ## What is asked for -/

/-- The cost of walking a path whose first move is not a turn if it goes in the direction
`entered`. -/
def costFrom (entered : Step) : List Cell → Nat
  | a :: b :: rest =>
      let m : Step := ⟨b.x - a.x, b.y - a.y⟩
      1 + (if m = entered then 0 else turnPenalty) + costFrom m (b :: rest)
  | _ => 0

/-- The cost of a path from the start. -/
def cost (q : PathQuery) (path : List Cell) : Nat := costFrom q.leave path

/-- Whether a list of cells is a walk from state to state that ends where the search may stop. -/
def walks (q : PathQuery) (s : PathState) : List Cell → Bool
  | [] => q.arrived s
  | c :: rest =>
      let next : PathState := ⟨c, ⟨c.x - s.cell.x, c.y - s.cell.y⟩⟩
      (q.successors s).any (·.1 == next) && q.walks next rest

/-- Whether a list of cells answers the query, at whatever cost. -/
def isPath (q : PathQuery) : List Cell → Bool
  | [] => false
  | c :: rest => c == q.start && q.walks ⟨c, q.leave⟩ rest

end PathQuery

/-! ## Searching -/

/-- A state that waits to be looked at, with its cost so far and its estimated total. -/
structure Candidate where
  estimate : Nat
  cost : Nat
  state : PathState
  deriving DecidableEq, Repr

/-- Candidates in the order in which they are looked at. -/
def Candidate.order : Candidate → Candidate → Ordering :=
  compareLex (compareOn (·.estimate)) <| compareLex (compareOn (·.cost)) <|
    compareLex (compareOn (·.state.cell.x)) <| compareLex (compareOn (·.state.cell.y)) <|
      compareLex (compareOn (·.state.entered.dx)) (compareOn (·.state.entered.dy))

/-- The search between two looks: what waits, the least cost known of each state, and the state
before it on a path of that cost. -/
structure Search where
  waiting : Std.TreeSet Candidate Candidate.order
  best : Std.HashMap PathState Nat
  previous : Std.HashMap PathState PathState

/-- What a look at the next candidate leads to. -/
inductive Look where
  | found (path : List Cell)
  | exhausted
  | continues (search : Search)

namespace PathQuery

def begin (q : PathQuery) : Search :=
  let s : PathState := ⟨q.start, q.leave⟩
  { waiting := (∅ : Std.TreeSet Candidate Candidate.order).insert ⟨q.distance q.start, 0, s⟩
    best := (∅ : Std.HashMap PathState Nat).insert s 0
    previous := ∅ }

/-- The cells from the start up to a state, put in front of `tail`. -/
def trace (previous : Std.HashMap PathState PathState) :
    (fuel : Nat) → PathState → (tail : List Cell) → List Cell
  | 0, s, tail => s.cell :: tail
  | fuel + 1, s, tail =>
      match previous[s]? with
      | none => s.cell :: tail
      | some p => trace previous fuel p (s.cell :: tail)

/-- Records a way to reach `next` from `s`, if it is cheaper than the one known. -/
def reach (q : PathQuery) (s : PathState) (search : Search) (next : PathState) (cost : Nat) :
    Search :=
  if (search.best[next]?).all (cost < ·) then
    { waiting := search.waiting.insert ⟨cost + q.distance next.cell, cost, next⟩
      best := search.best.insert next cost
      previous := search.previous.insert next s }
  else search

/-- Looks at the next candidate; one for which a cheaper way was found meanwhile is passed over. -/
def look (q : PathQuery) (search : Search) : Look :=
  match search.waiting.min? with
  | none => .exhausted
  | some c =>
      let rest := { search with waiting := search.waiting.erase c }
      if (search.best[c.state]?).any (· < c.cost) then .continues rest
      else if q.arrived c.state then
        .found (trace search.previous search.previous.size c.state [])
      else
        .continues <| (q.successors c.state).foldl
          (fun search (next, move) => q.reach c.state search next (c.cost + move)) rest

/-- Looks until the search ends, at most `fuel` times. -/
def run (q : PathQuery) : (fuel : Nat) → Search → Option (List Cell)
  | 0, _ => none
  | fuel + 1, search =>
      match q.look search with
      | .found path => some path
      | .exhausted => none
      | .continues next => q.run fuel next

/-- How many looks a search can take: each state of each free cell, and the start, is passed on from
once, to at most four others. -/
def lookLimit (q : PathQuery) : Nat :=
  4 * (4 * ((q.width + 1).toNat * (q.height + 1).toNat) + 1) + 2

/-- A cheapest path, if there is any. -/
def find? (q : PathQuery) : Option (List Cell) := q.run q.lookLimit q.begin

end PathQuery
end Flow
end CellSketch
