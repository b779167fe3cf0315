/-!
# Parts — the vocabulary of line drawings

The small words that scans, connections and drawings share: cells, the two axes, the heads of a
line, the four corners, the three marker symbols and the four sides of a cell.  Each finite kind
knows the name it goes by in data.
-/

namespace CellSketch

/-- A cell of the drawing plane, by its column and row. -/
structure Cell where
  x : Int
  y : Int
  deriving DecidableEq, Hashable, Repr

/-- The direction of a line: along a row or along a column. -/
inductive Axis where
  | horizontal
  | vertical
  deriving DecidableEq, Repr

def Axis.name : Axis → String
  | .horizontal => "H"
  | .vertical => "V"

/-! ## Arrow heads -/

/-- Which ends of a line carry an arrow head. -/
structure Arrow where
  atStart : Bool := false
  atEnd : Bool := false
  deriving DecidableEq, Repr

namespace Arrow

def headless : Arrow := {}
def forward : Arrow := { atEnd := true }
def both : Arrow := { atStart := true, atEnd := true }

/-- One for a head at the start plus two for a head at the end. -/
def code (a : Arrow) : Nat := (if a.atStart then 1 else 0) + (if a.atEnd then 2 else 0)

def ofCode (n : Nat) : Arrow := ⟨n % 2 == 1, n / 2 % 2 == 1⟩

end Arrow

/-! ## Sides, corners and markers -/

/-- A yes or no for each of the four sides of a cell. -/
structure Sides where
  up : Bool := false
  right : Bool := false
  down : Bool := false
  left : Bool := false
  deriving DecidableEq, Repr

/-- A corner, named for the part of a frame where it stands. -/
inductive Corner where
  | topLeft
  | topRight
  | bottomLeft
  | bottomRight
  deriving DecidableEq, Repr

namespace Corner

/-- The two sides that a corner joins. -/
def sides : Corner → Sides
  | .topLeft => { right := true, down := true }
  | .topRight => { left := true, down := true }
  | .bottomLeft => { up := true, right := true }
  | .bottomRight => { up := true, left := true }

def name : Corner → String
  | .topLeft => "tl"
  | .topRight => "tr"
  | .bottomLeft => "bl"
  | .bottomRight => "br"

def all : List Corner := [.topLeft, .topRight, .bottomLeft, .bottomRight]

def ofName? (s : String) : Option Corner := all.find? (·.name == s)

end Corner

/-- The symbol of a marker. -/
inductive Marker where
  | cross
  | circle
  /-- A junction without a symbol of its own. -/
  | plain
  deriving DecidableEq, Repr

namespace Marker

def name : Marker → String
  | .cross => "x"
  | .circle => "o"
  | .plain => "+"

def all : List Marker := [.cross, .circle, .plain]

def ofName? (s : String) : Option Marker := all.find? (·.name == s)

end Marker

end CellSketch
