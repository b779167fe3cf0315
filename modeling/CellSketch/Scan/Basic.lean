import CellSketch.Grid
import CellSketch.Parts
import Std.Data.TreeMap

/-!
# Scan — what was found in a grid of characters

A scan lists marks (corners, markers, crossings), which replace single cells, runs of text, and
straight lines.  Lines and text runs grow one cell at a time: `addLine` and `addText` extend the
newest item of the row or column where the new cell fits its end, and open a new item elsewhere.
-/

namespace CellSketch

/-! ## Findings -/

/-- What is drawn in place of one cell. -/
inductive MarkForm where
  | corner (corner : Corner)
  | marker (marker : Marker) (connectors : Sides)
  | crossing
  deriving DecidableEq, Repr

/-- A mark and the cell it stands in. -/
structure Mark where
  cell : Cell
  form : MarkForm
  deriving DecidableEq, Repr

/-- Characters from a cell to the right. -/
structure TextRun where
  cell : Cell
  text : List Char
  deriving DecidableEq, Repr

/-- A straight line over whole cells: from cell `first` to cell `last` of row `lane`, or of column
`lane` when it is vertical. -/
structure LineRun where
  axis : Axis
  lane : Int
  first : Int
  last : Int
  arrow : Arrow
  deriving DecidableEq, Repr

namespace TextRun

/-- The column after the last character. -/
def stop (t : TextRun) : Int := t.cell.x + t.text.length

end TextRun

/-! ## Line glyphs and their axes -/

namespace Glyph

/-- The axis along which a line glyph draws. -/
def axis : Glyph → Axis
  | .lineH | .arrowLeft | .arrowRight => .horizontal
  | _ => .vertical

end Glyph

namespace Axis

/-- The head at the start of a line. -/
def opening : Axis → Glyph
  | .horizontal => .arrowLeft
  | .vertical => .arrowUp

/-- The head at the end of a line. -/
def closing : Axis → Glyph
  | .horizontal => .arrowRight
  | .vertical => .arrowDown

/-- The character of the head at the end of a line. -/
def closingChar : Axis → Char
  | .horizontal => '>'
  | .vertical => 'V'

/-- The row of a cell for a horizontal line, its column for a vertical one. -/
def lane (axis : Axis) (cell : Cell) : Int :=
  match axis with
  | .horizontal => cell.y
  | .vertical => cell.x

/-- Where a cell lies along its lane. -/
def position (axis : Axis) (cell : Cell) : Int :=
  match axis with
  | .horizontal => cell.x
  | .vertical => cell.y

end Axis

namespace LineRun

/-- A line of one cell. -/
def single (cell : Cell) (glyph : Glyph) : LineRun where
  axis := glyph.axis
  lane := glyph.axis.lane cell
  first := glyph.axis.position cell
  last := glyph.axis.position cell
  arrow := { atStart := glyph == glyph.axis.opening }

/-- The line with one more cell at its end; a closing head marks that end. -/
def push (line : LineRun) (cell : Cell) (glyph : Glyph) : LineRun :=
  { line with
    last := line.axis.position cell
    arrow := { line.arrow with atEnd := line.arrow.atEnd || glyph == line.axis.closing } }

end LineRun

/-! ## Scans and how they grow -/

/-- Everything found so far.  The maps give the newest line of each row, the newest line of each
column and the newest text run of each row, by index. -/
structure Scan where
  marks : Array Mark := #[]
  texts : Array TextRun := #[]
  lines : Array LineRun := #[]
  openRows : Std.TreeMap Int Nat := ∅
  openColumns : Std.TreeMap Int Nat := ∅
  openTexts : Std.TreeMap Int Nat := ∅

namespace Scan

/-- Index of the newest line of a lane. -/
def openLine? (s : Scan) (axis : Axis) (lane : Int) : Option Nat :=
  match axis with
  | .horizontal => s.openRows[lane]?
  | .vertical => s.openColumns[lane]?

def addMark (s : Scan) (cell : Cell) (form : MarkForm) : Scan :=
  { s with marks := s.marks.push ⟨cell, form⟩ }

/-- The index of the line that a glyph extends: the newest line of its lane, if that ends just
before the glyph, unless the glyph opens a line or the character `before` closed one. -/
def growing? (s : Scan) (cell : Cell) (glyph : Glyph) (before : Option Char) : Option Nat := do
  let i ← s.openLine? glyph.axis (glyph.axis.lane cell)
  let line ← s.lines[i]?
  if glyph ≠ glyph.axis.opening ∧ before ≠ some glyph.axis.closingChar ∧
      line.last = glyph.axis.position cell - 1 then
    some i
  else none

/-- Opens a line of one cell. -/
def openLine (s : Scan) (cell : Cell) (glyph : Glyph) : Scan :=
  let lane := glyph.axis.lane cell
  let grown := { s with lines := s.lines.push (.single cell glyph) }
  match glyph.axis with
  | .horizontal => { grown with openRows := s.openRows.insert lane s.lines.size }
  | .vertical => { grown with openColumns := s.openColumns.insert lane s.lines.size }

/-- Records a line glyph, where `before` is the character before it along its axis. -/
def addLine (s : Scan) (cell : Cell) (glyph : Glyph) (before : Option Char) : Scan :=
  match s.growing? cell glyph before with
  | some i => { s with lines := s.lines.modify i (·.push cell glyph) }
  | none => s.openLine cell glyph

/-- The index of the text run that a character in the cell extends. -/
def growingText? (s : Scan) (cell : Cell) : Option Nat := do
  let i ← s.openTexts[cell.y]?
  let run ← s.texts[i]?
  if run.stop = cell.x then some i else none

/-- Records text that starts at a cell. -/
def addText (s : Scan) (cell : Cell) (text : List Char) : Scan :=
  match s.growingText? cell with
  | some i => { s with texts := s.texts.modify i fun run => { run with text := run.text ++ text } }
  | none =>
      { s with
        texts := s.texts.push ⟨cell, text⟩
        openTexts := s.openTexts.insert cell.y s.texts.size }

end Scan

end CellSketch
