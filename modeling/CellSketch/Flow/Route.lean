import CellSketch.Flow.Graph
import CellSketch.Flow.Path
import CellSketch.Notice

/-!
# Route — an edge drawn around the boxes

An edge leaves its source through the border that faces the target and enters the target through
its top or bottom border.  It starts and ends on those borders; an end that carries an arrow head
stops in the cell just outside instead.  In between it takes a cheapest path over free cells, or,
where there is none, cuts straight across.
-/

namespace CellSketch
namespace Flow

/-- A box on the grid, by its top left cell and its size. -/
structure Box where
  id : Id
  label : List Char
  x : Int
  y : Int
  width : Int
  height : Int
  deriving DecidableEq, Repr

namespace Box

/-- Whether a cell belongs to the box, its border included. -/
def contains (b : Box) (c : Cell) : Bool :=
  b.x ≤ c.x && c.x < b.x + b.width && b.y ≤ c.y && c.y < b.y + b.height

/-- The column where edges are attached. -/
def centre (b : Box) : Int := b.x + Int.fdiv b.width 2

def bottom (b : Box) : Int := b.y + b.height - 1

end Box

/-- The cells of all boxes. -/
def occupied (boxes : List Box) (c : Cell) : Bool := boxes.any (·.contains c)

/-- The points of a path where its direction changes, and both ends. -/
def mergeStraight : List Cell → List Cell
  | [] => []
  | first :: rest => first :: go first rest
where
  go (previous : Cell) : List Cell → List Cell
    | [] => []
    | [last] => [last]
    | c :: next :: rest =>
        if (previous.x = c.x ∧ c.x = next.x) ∨ (previous.y = c.y ∧ c.y = next.y) then
          go c (next :: rest)
        else c :: go c (next :: rest)

/-- Where an edge leaves its source and enters its target, and in which directions. -/
structure Ends where
  /-- The border cell of the source. -/
  leaving : Cell
  leave : Step
  /-- The border cell of the target. -/
  arriving : Cell
  arrive : Step
  deriving DecidableEq, Repr

namespace Ends

/-- The borders at which two boxes face each other. -/
def between (source target : Box) : Ends :=
  let upward : Bool := target.y < source.y
  let below : Bool := source.y + source.height ≤ target.y
  { leaving := ⟨source.centre, if upward then source.y else source.bottom⟩
    leave := if upward then Step.up else Step.down
    arriving := ⟨target.centre, if below then target.y else target.bottom⟩
    arrive := if below then Step.down else Step.up }

/-- The cell outside the source. -/
def start (e : Ends) : Cell := e.leave.ahead e.leaving

/-- The cell outside the target. -/
def goal (e : Ends) : Cell := e.arrive.behind e.arriving

/-- The path between the cells outside both boxes. -/
def query (e : Ends) (blocked : Cell → Bool) (width height : Int) : PathQuery where
  start := e.start
  goal := e.goal
  leave := e.leave
  arrive := e.arrive
  blocked := blocked
  width := width
  height := height

/-- The way taken where no path is free. -/
def across (e : Ends) : List Cell := [e.start, ⟨e.goal.x, e.start.y⟩, e.goal]

/-- A path with the border cells added at ends without a head. -/
def complete (e : Ends) (arrow : Arrow) (path : List Cell) : List Cell :=
  (if arrow.atStart then [] else [e.leaving]) ++ path ++
    (if arrow.atEnd then [] else [e.arriving])

end Ends

/-- The points of an edge, and what is reported when it had to cut across. -/
def route (source target : Box) (arrow : Arrow) (blocked : Cell → Bool) (width height : Int) :
    List Cell × List Notice :=
  let ends := Ends.between source target
  match (ends.query blocked width height).find? with
  | some path => (mergeStraight (ends.complete arrow path), [])
  | none =>
      (mergeStraight (ends.complete arrow ends.across), [.noFreeRoute source.id target.id])

end Flow
end CellSketch
