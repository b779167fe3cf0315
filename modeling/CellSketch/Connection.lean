import CellSketch.Number.Scalar
import CellSketch.Parts

/-!
# Connection — a list of points as lines, corners and heads

The points of a connection may be incomplete and need not lie in a row or column with their
neighbours.  `normalize` makes a chain of cells of them in which consecutive cells differ in exactly
one coordinate, and `plan` walks that chain: straight runs become segments, every turn becomes a
corner, and heads go on the first and last cell.  With rounding, segments end half a cell short of
the corners.
-/

namespace CellSketch
namespace Connection

open Number

variable {α : Type} [Scalar α]

/-! ## Normalization -/

/-- A point as given: it may be missing, or have too few or missing coordinates. -/
abbrev RawPoint (α : Type) := Option (List (Option α))

/-- The cell of a complete point, its coordinates cut toward zero. -/
def RawPoint.cell? (p : RawPoint α) : Except Fault (Option Cell) :=
  match p with
  | some [some x, some y] => do
      let x ← Scalar.trunc x
      let y ← Scalar.trunc y
      .ok (some ⟨x, y⟩)
  | _ => .ok none

/-- The cells of the complete points. -/
def cells : List (RawPoint α) → Except Fault (List Cell)
  | [] => .ok []
  | p :: rest => do
      let cell ← p.cell?
      let others ← cells rest
      .ok (cell.toList ++ others)

/-- Continues a chain: a cell equal to the last one is dropped, and a jump that changes both
coordinates gets a cell in between, in the old column and the new row. -/
def chainFrom (last : Cell) : List Cell → List Cell
  | [] => []
  | c :: rest =>
      if last = c then chainFrom last rest
      else if last.x ≠ c.x ∧ last.y ≠ c.y then ⟨last.x, c.y⟩ :: c :: chainFrom c rest
      else c :: chainFrom c rest

def chain : List Cell → List Cell
  | [] => []
  | c :: rest => c :: chainFrom c rest

/-- The chain of cells through the complete points. -/
def normalize (points : List (RawPoint α)) : Except Fault (List Cell) :=
  (cells points).map chain

/-! ## Directions -/

/-- Where a move goes, by the signs of its two differences. -/
structure Heading where
  dx : Int
  dy : Int
  deriving DecidableEq, Repr

namespace Heading

def between (a b : Cell) : Heading := ⟨(b.x - a.x).sign, (b.y - a.y).sign⟩

def axis (h : Heading) : Axis := if h.dx ≠ 0 then .horizontal else .vertical

/-- The angle of a straight move in degrees: 0 to the right, 90 down. -/
def degrees (h : Heading) : Int :=
  if h.dy < 0 then -90 else if 0 < h.dy then 90 else if h.dx < 0 then 180 else 0

end Heading

/-- The sign of a move along its axis. -/
def Heading.along (h : Heading) : Int :=
  match h.axis with
  | .horizontal => h.dx
  | .vertical => h.dy

/-- The corner of every turn, by the axes and the signs of the move that comes in and of the move
that goes out. -/
def corners : List ((Axis × Axis) × (Int × Int) × Corner) :=
  [((.horizontal, .vertical), (1, 1), .topRight),
   ((.horizontal, .vertical), (1, -1), .bottomRight),
   ((.horizontal, .vertical), (-1, 1), .topLeft),
   ((.horizontal, .vertical), (-1, -1), .bottomLeft),
   ((.vertical, .horizontal), (1, 1), .bottomLeft),
   ((.vertical, .horizontal), (1, -1), .bottomRight),
   ((.vertical, .horizontal), (-1, 1), .topLeft),
   ((.vertical, .horizontal), (-1, -1), .topRight)]

/-- The corner of a turn, as the table has it. -/
def turn? (incoming outgoing : Heading) : Option Corner :=
  (corners.find? fun entry =>
    entry.1 = (incoming.axis, outgoing.axis) ∧
      entry.2.1 = (incoming.along, outgoing.along)).map fun entry => entry.2.2

/-- The corner of a turn.  The table has all turns of a chain. -/
def turn (incoming outgoing : Heading) : Corner := (turn? incoming outgoing).getD .topLeft

/-! ## Planning -/

/-- A part of a connection. -/
inductive Piece (α : Type) where
  | segment (start stop : Point α)
  | corner (cell : Cell) (corner : Corner)
  deriving DecidableEq, Repr

/-- A head on a cell, turned clockwise from pointing up. -/
structure Head where
  cell : Cell
  degrees : Int
  deriving DecidableEq, Repr

/-- The parts of a connection in drawing order. -/
structure Plan (α : Type) where
  pieces : List (Piece α) := []
  heads : List Head := []
  deriving DecidableEq, Repr

/-- The centre of a cell. -/
def middle (c : Cell) : Point α := ⟨Scalar.measured c.x, Scalar.measured c.y⟩

/-- A segment, unless it has no length. -/
def segment (start stop : Point α) : List (Piece α) :=
  if start.x == stop.x && start.y == stop.y then [] else [.segment start stop]

/-- The point `inset` before the centre of a cell that is entered. -/
def before (inset : α) (c : Cell) (h : Heading) : Point α :=
  ⟨Scalar.whole c.x - Scalar.whole h.dx * inset, Scalar.whole c.y - Scalar.whole h.dy * inset⟩

/-- The point `inset` after the centre of a cell that is left. -/
def after (inset : α) (c : Cell) (h : Heading) : Point α :=
  ⟨Scalar.whole c.x + Scalar.whole h.dx * inset, Scalar.whole c.y + Scalar.whole h.dy * inset⟩

/-- The pieces from `start`, a point of the run that enters `cell` from `previous`, along the cells
that follow. -/
def piecesFrom (inset : α) (start : Point α) (previous cell : Cell) :
    List Cell → List (Piece α)
  | [] => segment start (middle cell)
  | next :: rest =>
      let incoming := Heading.between previous cell
      let outgoing := Heading.between cell next
      if incoming.axis = outgoing.axis then
        if incoming = outgoing then piecesFrom inset start cell next rest
        else segment start (middle cell) ++ piecesFrom inset (middle cell) cell next rest
      else
        segment start (before inset cell incoming) ++
          .corner cell (turn incoming outgoing) ::
            piecesFrom inset (after inset cell outgoing) cell next rest

/-- How far segments end from rounded and from plain corners. -/
def insetOf (round : Bool) : α := if round then Scalar.half else Scalar.measured 0

/-- The first two cells of a chain. -/
def firstMove? : List Cell → Option (Cell × Cell)
  | a :: b :: _ => some (a, b)
  | _ => none

/-- The last two cells of a chain. -/
def lastMove? : List Cell → Option (Cell × Cell)
  | [a, b] => some (a, b)
  | _ :: rest => lastMove? rest
  | [] => none

/-- The head at the start of a move, pointing against it. -/
def startHead (move : Cell × Cell) : Head :=
  ⟨move.1, (Heading.between move.1 move.2).degrees - 90⟩

/-- The head at the end of a move, pointing ahead. -/
def endHead (move : Cell × Cell) : Head :=
  ⟨move.2, (Heading.between move.1 move.2).degrees + 90⟩

/-- The move that gets a head at its start. -/
def startMove (cells : List Cell) (arrow : Arrow) : List (Cell × Cell) :=
  if arrow.atStart then (firstMove? cells).toList else []

/-- The move that gets a head at its end. -/
def endMove (cells : List Cell) (arrow : Arrow) : List (Cell × Cell) :=
  if arrow.atEnd then (lastMove? cells).toList else []

/-- The plan of a chain. -/
def planChain (cells : List Cell) (arrow : Arrow) (round : Bool) : Plan α :=
  match cells with
  | first :: second :: rest =>
      { pieces := piecesFrom (insetOf round) (middle first) first second rest
        heads := (startMove cells arrow).map startHead ++ (endMove cells arrow).map endHead }
  | _ => {}

namespace Piece

def numbers : Piece α → List α
  | segment a b => [a.x, a.y, b.x, b.y]
  | corner .. => []

end Piece

/-- The numbers that the angle of a move is worked out from. -/
def differences (move : Cell × Cell) : List α :=
  [Scalar.whole (move.2.x - move.1.x), Scalar.whole (move.2.y - move.1.y)]

/-- The plan of a connection through the given points. -/
def plan (points : List (RawPoint α)) (arrow : Arrow) (round : Bool) : Except Fault (Plan α) := do
  let cells ← normalize points
  let plan := planChain cells arrow round
  let moves := startMove cells arrow ++ endMove cells arrow
  match Scalar.firstFault? (plan.pieces.flatMap Piece.numbers ++ moves.flatMap differences) with
  | some fault => .error fault
  | none => .ok plan

end Connection
end CellSketch
