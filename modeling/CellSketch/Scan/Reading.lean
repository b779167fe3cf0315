import CellSketch.Scan.Basic

/-!
# Reading — how the cells of a grid are understood

A reading says what one cell contributes, from its character and its four neighbours.  There are
two ways to read: as a diagram of lines, corners and markers, and as a tree in the style of a
directory listing.  A grid is scanned by reading its cells row by row.
-/

namespace CellSketch

/-- What a cell contributes to a scan. -/
inductive Reading where
  | nothing
  | marks (forms : List MarkForm)
  /-- A part of a line; `before` is the character before it along the line. -/
  | line (glyph : Glyph) (before : Option Char)
  | text
  deriving DecidableEq, Repr

namespace Reading

/-! ## Diagrams -/

/-- The corners that a slash or backslash makes, by the line ends around it. -/
def corners (glyph : Glyph) (n : Neighbors) : List Corner :=
  let up := n.up = some '|'
  let right := n.right = some '-'
  let down := n.down = some '|'
  let left := n.left = some '-'
  match glyph with
  | .slash =>
      (if up ∧ left then [.bottomRight] else []) ++ (if right ∧ down then [.topLeft] else [])
  | .backslash =>
      (if up ∧ right then [.bottomLeft] else []) ++ (if down ∧ left then [.topRight] else [])
  | _ => []

/-- The marker that a glyph stands for. -/
def markerOf? : Glyph → Option Marker
  | .cross => some .cross
  | .circle => some .circle
  | .plus => some .plain
  | _ => none

/-- The sides on which a line ends at the cell. -/
def lineSides (n : Neighbors) : Sides where
  up := n.up == some '|'
  right := n.right == some '-'
  down := n.down == some '|'
  left := n.left == some '-'

/-- The character before a line glyph that draws, or whose head sits on a line. -/
def lineBefore? (glyph : Glyph) (n : Neighbors) : Option (Option Char) :=
  match glyph with
  | .lineH => some n.left
  | .arrowLeft => if n.right = some '-' then some n.left else none
  | .arrowRight => if n.left = some '-' then some n.left else none
  | .lineV => some n.up
  | .arrowUp => if n.down = some '|' then some n.up else none
  | .arrowDown => if n.up = some '|' then some n.up else none
  | _ => none

/-- Reads a cell of a diagram: a corner, marker or crossing where lines meet it, a line glyph, and
text in every other case. -/
def ofDiagram (c : Char) (n : Neighbors) : Reading :=
  let glyph := Glyph.ofChar c
  let sides := lineSides n
  match glyph, corners glyph n, markerOf? glyph with
  | .blank, _, _ => .nothing
  | _, corner :: more, _ => .marks ((corner :: more).map .corner)
  | _, [], some marker =>
      if sides = {} then .text else .marks [.marker marker sides]
  | .crossing, [], none =>
      if sides = ⟨true, true, true, true⟩ then .marks [.crossing] else .text
  | _, [], none =>
      match lineBefore? glyph n with
      | some before => .line glyph before
      | none => .text

/-! ## Trees -/

/-- Reads a cell of a tree: a plus with a dash behind it is a junction, dashes, bars and a closing
head are lines where they join on, and everything else is text. -/
def ofTree (c : Char) (n : Neighbors) : Reading :=
  let among (side : Option Char) (cs : List Char) : Bool := cs.any (side == some ·)
  if Text.isBlank c then .nothing
  else if c == '+' && n.right == some '-' then
    .marks [.marker .plain ⟨true, true, among n.down ['+', '|'], false⟩]
  else if c == '-' && (among n.left ['+', '-'] || among n.right ['-', '>']) then
    .line .lineH n.left
  else if c == '>' && n.left == some '-' then .line .arrowRight n.left
  else if c == '|' && (among n.up ['+', '|'] || among n.down ['+', '|']) then .line .lineV n.up
  else .text

end Reading

/-! ## Scanning -/

namespace Scan

/-- Adds what a cell contributes. -/
def addReading (s : Scan) (cell : Cell) (c : Char) : Reading → Scan
  | .nothing => s
  | .marks forms => forms.foldl (·.addMark cell ·) s
  | .line glyph before => s.addLine cell glyph before
  | .text => s.addText cell [c]

/-- Reads all cells of a grid in order. -/
def ofGrid (read : Char → Neighbors → Reading) (g : Grid) : Scan :=
  g.cells.foldl (fun s (cell, c) => s.addReading cell c (read c (g.neighbors cell))) {}

def ofDiagram (text : List Char) : Scan := ofGrid Reading.ofDiagram (.ofText text)

def ofTree (text : List Char) : Scan := ofGrid Reading.ofTree (.ofText text)

end Scan

end CellSketch
