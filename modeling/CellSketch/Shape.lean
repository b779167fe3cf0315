import CellSketch.Number.Scalar

/-!
# Shape — geometric figures in pixels

The figures that a canvas is made of, with their exact positions and sizes relative to the origin
of the context they are drawn in.  Nothing is rounded or written as text here.
-/

namespace CellSketch

open Number

/-- A rotation in degrees: as a number, or as the direction of a slope turned by whole degrees. -/
inductive Angle (α : Type) where
  | degrees (d : α)
  | slope (dy dx : α) (turn : Int)
  deriving DecidableEq, Repr

namespace Angle

/-- Why an angle gives no direction, if it gives none. -/
def fault? {α : Type} [Scalar α] : Angle α → Option Fault
  | degrees d =>
      match Scalar.trunc d with
      | .error .infinite => some .endlessTurn
      | _ => Scalar.fault? d
  | slope dy dx _ => Scalar.firstFault? [dy, dx]

end Angle

inductive Shape (α : Type) where
  | line (start stop : Point α)
  | rectangle (corner : Point α) (width height : α) (radius : Option (α × α))
  /-- A filled ellipse around a centre. -/
  | ellipse (centre : Point α) (rx ry : α) (fill : String)
  /-- A part of an unfilled ellipse, clockwise between two angles in degrees. -/
  | arc (centre : Point α) (rx ry : α) (start stop : Int)
  /-- A filled triangle over the centre of a cell, pointing up unless it is turned. -/
  | head (centre : Point α) (rx ry : α) (angle : Angle α) (fill : String)
  /-- A cubic Bezier piece. -/
  | curve (start first second stop : Point α)
  /-- An outline in path notation. -/
  | path (outline : String)
  /-- Text from a point on its baseline. -/
  | text (start : Point α) (text : String)
  deriving DecidableEq, Repr

namespace Shape

/-- The positions and lengths that a shape is made of. -/
def numbers {α : Type} : Shape α → List α
  | line a b => [a.x, a.y, b.x, b.y]
  | rectangle c w h none => [c.x, c.y, w, h]
  | rectangle c w h (some (rx, ry)) => [c.x, c.y, w, h, rx, ry]
  | ellipse c rx ry _ => [c.x, c.y, rx, ry]
  | arc c rx ry _ _ => [c.x, c.y, rx, ry]
  | head c rx ry _ _ => [c.x, c.y, rx, ry]
  | curve a b c d => [a.x, a.y, b.x, b.y, c.x, c.y, d.x, d.y]
  | path _ => []
  | text p _ => [p.x, p.y]

/-- Why a shape cannot be drawn, if it cannot. -/
def fault? {α : Type} [Scalar α] (s : Shape α) : Option Fault :=
  let turn := match s with
    | head _ _ _ angle _ => angle.fault?
    | _ => none
  turn <|> Scalar.firstFault? s.numbers

/-- The colour of a shape that does not take the fill of its style. -/
def ownFill {α : Type} : Shape α → Option String
  | ellipse _ _ _ fill | head _ _ _ _ fill => some fill
  | arc .. => some "transparent"
  | _ => none

end Shape

end CellSketch
