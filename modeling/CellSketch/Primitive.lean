import CellSketch.Connection
import CellSketch.Shape
import CellSketch.Spline
import CellSketch.Style

/-!
# Primitive — what can be drawn on cells

A primitive is a figure placed on the cells of a grid.  It says how far it reaches, which a canvas
has to reserve before anything is drawn, and which shapes it becomes in pixels, one after the other,
for a given cell size.  Labels, splines, corners and connections are lists of primitives.
-/

namespace CellSketch

open Number

/-- The size of a cell in pixels, and how far its centre lies from its left and upper edge.  That is
half of the size, except after a change of the size that failed half way. -/
structure CellSize (α : Type) where
  width : α
  height : α
  halfWidth : α
  halfHeight : α
  deriving DecidableEq, Repr

namespace CellSize

variable {α : Type} [Scalar α]

/-- A cell with its centre in the middle. -/
def of (width height : α) : CellSize α :=
  ⟨width, height, width / Scalar.whole 2, height / Scalar.whole 2⟩

/-- The left edge of a column. -/
def left (s : CellSize α) (x : Int) : α := Scalar.whole x * s.width

/-- The right edge of a column. -/
def right (s : CellSize α) (x : Int) : α := s.left x + s.width

/-- The top edge of a row. -/
def top (s : CellSize α) (y : Int) : α := Scalar.whole y * s.height

/-- The bottom edge of a row. -/
def bottom (s : CellSize α) (y : Int) : α := s.top y + s.height

/-- The centre of a cell, whose position may be a fraction. -/
def centre (s : CellSize α) (p : Point α) : Point α :=
  ⟨p.x * s.width + s.halfWidth, p.y * s.height + s.halfHeight⟩

/-- The centre of a column. -/
def middleX (s : CellSize α) (x : Int) : α := s.left x + s.halfWidth

/-- The centre of a row. -/
def middleY (s : CellSize α) (y : Int) : α := s.top y + s.halfHeight

def middle (s : CellSize α) (c : Cell) : Point α := ⟨s.middleX c.x, s.middleY c.y⟩

end CellSize

inductive Primitive (α : Type) where
  /-- A rectangle through the centres of two opposite cells. -/
  | rectangle (a b : Cell) (round : Bool)
  /-- Smooth pieces through the centres of cells, with their control points. -/
  | curve (points first second : List (Point α))
  /-- An outline in pixels, for which no room is reserved. -/
  | path (outline : String)
  /-- A line between the centres of two cells. -/
  | line (start stop : Point α) (arrow : Arrow)
  /-- A line over whole cells of a row or column. -/
  | run (axis : Axis) (lane first last : Int) (arrow : Arrow)
  /-- A horizontal line with a hop of a vertical one. -/
  | crossing (cell : Cell)
  /-- A symbol with stubs toward the given sides. -/
  | marker (cell : Cell) (marker : Marker) (connectors : Sides)
  | text (cell : Cell) (text : String)
  | roundCorner (cell : Cell) (corner : Corner)
  | head (position : Point α) (angle : Angle α)

namespace Primitive

variable {α : Type} [Scalar α]

/-! ## Lists of primitives -/

/-- A whole cell as a position. -/
def position (c : Cell) : Point α := ⟨Scalar.whole c.x, Scalar.whole c.y⟩

/-- A smooth line through cells: nothing for less than two, and a straight line for two. -/
def spline : List (Point α) → List (Primitive α)
  | a :: b :: c :: rest =>
      let points := a :: b :: c :: rest
      let controls := Spline.controlPoints points
      [.curve points controls.1 controls.2]
  | [a, b] => [.line a b .headless]
  | _ => []

/-- A corner; one without rounding is a junction with two stubs. -/
def corner (cell : Cell) (corner : Corner) (round : Bool) : Primitive α :=
  if round then .roundCorner cell corner else .marker cell .plain corner.sides

/-- A corner by its name, nothing for a name that is none. -/
def cornerNamed (cell : Cell) (name : String) (round : Bool) : List (Primitive α) :=
  (Corner.ofName? name).toList.map fun c => Primitive.corner cell c round

/-- A marker by its name, nothing for a name that is none. -/
def markerNamed (cell : Cell) (name : String) (connectors : Sides) : List (Primitive α) :=
  (Marker.ofName? name).toList.map fun m => .marker cell m connectors

/-- Text in a frame, which is one cell wider than the text at either end and three rows high. -/
def label (cell : Cell) (text : String) (round : Bool) : List (Primitive α) :=
  [.rectangle cell ⟨cell.x + text.length + 1, cell.y + 2⟩ round,
    .text ⟨cell.x + 1, cell.y + 1⟩ text]

/-- The primitives of a planned connection. -/
def ofPlan (plan : Connection.Plan α) (round : Bool) : List (Primitive α) :=
  plan.pieces.map (fun
    | .segment a b => .line a b .headless
    | .corner cell c => Primitive.corner cell c round) ++
  plan.heads.map fun h => .head (position h.cell) (.degrees (Scalar.measured h.degrees))

/-- A connection through the given points. -/
def connection (points : List (Connection.RawPoint α)) (arrow : Arrow) (round : Bool) :
    Except Fault (List (Primitive α)) :=
  (Connection.plan points arrow round).map (ofPlan · round)

/-! ## Reach -/

def farther (a b : Cell) : Cell := ⟨max a.x b.x, max a.y b.y⟩

/-- The last position, by column and by row, for which room has to be reserved. -/
def reach : Primitive α → Option (Point α)
  | rectangle a b _ => some (position (farther a b))
  | curve (p :: rest) _ _ => some (p.farthest rest)
  | curve [] _ _ => none
  | path _ => none
  | line a b _ => some (a.farthest [b])
  | run .horizontal lane first last _ => some (position ⟨max first last, lane⟩)
  | run .vertical lane first last _ => some (position ⟨lane, max first last⟩)
  | crossing c => some (position c)
  | marker c _ _ => some (position c)
  | text c t => some (position ⟨c.x + t.length, c.y⟩)
  | roundCorner c _ => some (position c)
  | head p _ => some p

/-- The numbers that have to be known before the first shape is drawn. -/
def premises (s : CellSize α) : Primitive α → List α
  | curve _ first second => (first ++ second).flatMap Point.numbers
  | marker c _ _ => (s.middle c).numbers
  | _ => []

/-! ## Shapes -/

/-- The heads of a line, of which the given ones are wanted. -/
def headsOf (arrow : Arrow) (start stop : Shape α) : List (Shape α) :=
  (if arrow.atStart then [start] else []) ++ (if arrow.atEnd then [stop] else [])

/-- A head over a cell. -/
def headShape (s : CellSize α) (color : String) (p : Point α) (angle : Angle α) : Shape α :=
  .head (s.centre p) s.halfWidth s.halfHeight angle color

/-- The stubs and the symbol of a marker. -/
def markerShapes (s : CellSize α) (background : String) (c : Cell) (marker : Marker)
    (sides : Sides) : List (Shape α) :=
  let zero : α := Scalar.whole 0
  let centre := s.middle c
  let quarterX := s.halfWidth / Scalar.whole 2
  let quarterY := s.halfHeight / Scalar.whole 2
  let across : List (Shape α) :=
    if sides.left || sides.right then
      [.line ⟨s.left c.x + (if sides.left then zero else s.halfWidth), centre.y⟩
        ⟨centre.x + (if sides.right then s.halfWidth else zero), centre.y⟩]
    else []
  let down : List (Shape α) :=
    if sides.up || sides.down then
      [.line ⟨centre.x, s.top c.y + (if sides.up then zero else s.halfHeight)⟩
        ⟨centre.x, centre.y + (if sides.down then s.halfHeight else zero)⟩]
    else []
  let x1 := s.left c.x + quarterX
  let y1 := s.top c.y + quarterY
  let x2 := s.right c.x - quarterX
  let y2 := s.bottom c.y - quarterY
  across ++ down ++
    match marker with
    | .cross => [.line ⟨x1, y1⟩ ⟨x2, y2⟩, .line ⟨x2, y1⟩ ⟨x1, y2⟩]
    | .circle => [.ellipse centre quarterX quarterY background]
    | .plain => []

/-- The corner of the cell around which a rounded corner bends, and its two angles. -/
def bend (s : CellSize α) (c : Cell) : Corner → Point α × Int × Int
  | .bottomRight => (⟨s.left c.x + Scalar.measured 0, s.top c.y + Scalar.measured 0⟩, 0, 90)
  | .bottomLeft => (⟨s.right c.x, s.top c.y + Scalar.measured 0⟩, 90, 180)
  | .topLeft => (⟨s.right c.x, s.bottom c.y⟩, 180, 270)
  | .topRight => (⟨s.left c.x + Scalar.measured 0, s.bottom c.y⟩, 270, 360)

/-- Bezier pieces from their end points and control points. -/
def pieces (s : CellSize α) : List (Point α) → List (Point α) → List (Point α) → List (Shape α)
  | a :: b :: points, c :: first, d :: second =>
      .curve (s.centre a) (s.centre c) (s.centre d) (s.centre b) ::
        pieces s (b :: points) first second
  | _, _, _ => []

/-- The shapes of a primitive in cells of a size. -/
def shapes (s : CellSize α) (style : Style α) : Primitive α → List (Shape α)
  | rectangle a b round =>
      [.rectangle ⟨s.middleX (min a.x b.x), s.middleY (min a.y b.y)⟩
        (Scalar.whole ((b.x - a.x).natAbs : Int) * s.width)
        (Scalar.whole ((b.y - a.y).natAbs : Int) * s.height)
        (if round then some (s.halfWidth, s.halfHeight) else none)]
  | curve points first second => pieces s points first second
  | path outline => [.path outline]
  | line a b arrow =>
      let head (p : Point α) (turn : Int) :=
        headShape s style.stroke.color p (.slope (b.y - a.y) (b.x - a.x) turn)
      .line (s.centre a) (s.centre b) :: headsOf arrow (head a (-90)) (head b 90)
  | run .horizontal lane first last arrow =>
      let lo := min first last
      let hi := max first last
      let head (x : α) (degrees : Int) :=
        headShape s style.stroke.color ⟨x, Scalar.whole lane⟩ (.degrees (Scalar.whole degrees))
      .line ⟨s.left lo, s.middleY lane⟩ ⟨s.right hi, s.middleY lane⟩ ::
        headsOf arrow (head (Scalar.whole lo + Scalar.half) (-90))
          (head (Scalar.whole hi - Scalar.half) 90)
  | run .vertical lane first last arrow =>
      let lo := min first last
      let hi := max first last
      let head (y degrees : Int) :=
        headShape s style.stroke.color ⟨Scalar.whole lane, Scalar.whole y⟩
          (.degrees (Scalar.whole degrees))
      .line ⟨s.middleX lane, s.top lo⟩ ⟨s.middleX lane, s.bottom hi⟩ ::
        headsOf arrow (head lo 0) (head hi 180)
  | crossing c =>
      [.line ⟨s.left c.x, s.middleY c.y⟩ ⟨s.right c.x, s.middleY c.y⟩,
        .arc (s.middle c) s.halfWidth s.halfHeight (-90) 90]
  | marker c m sides => markerShapes s style.background c m sides
  | text c t =>
      [.text ⟨s.left c.x, s.top (c.y + 1) - s.halfHeight / Scalar.whole 2⟩ t]
  | roundCorner c corner =>
      let (centre, start, stop) := bend s c corner
      [.arc centre s.halfWidth s.halfHeight start stop]
  | head p angle => [headShape s style.stroke.color p angle]

end Primitive

end CellSketch
