import CellSketch.Parts
import CellSketch.Text.Blank
import CellSketch.Text.Lines

/-!
# Grid — a text as rows of character cells

A drawing is read from a ragged grid: row `y` is line `y` of the text and cell `(x, y)` its
character `x`.  Outside the rows there are no characters.  Each character stands for a glyph, the
part it can play in a drawing.
-/

namespace CellSketch

/-! ## Glyphs -/

/-- The part that a character can play in a drawing. -/
inductive Glyph where
  | blank
  | lineH
  | lineV
  | arrowLeft
  | arrowRight
  | arrowUp
  | arrowDown
  | cross
  | circle
  | plus
  /-- The slash, which joins right and down or up and left. -/
  | slash
  /-- The backslash, which joins left and down or up and right. -/
  | backslash
  | crossing
  | text
  deriving DecidableEq, Repr

namespace Glyph

/-- The glyph of one character. -/
def ofChar (c : Char) : Glyph :=
  if Text.isBlank c then .blank
  else
    match c with
    | '-' => .lineH
    | '|' => .lineV
    | '<' => .arrowLeft
    | '>' => .arrowRight
    | '^' => .arrowUp
    | 'V' => .arrowDown
    | 'x' => .cross
    | 'o' => .circle
    | '+' => .plus
    | '/' => .slash
    | '\\' => .backslash
    | 'C' => .crossing
    | _ => .text

/-- The glyph of a piece of text: blank if nothing shows, else a drawing glyph only for a single
character. -/
def ofText (cs : List Char) : Glyph :=
  if cs.all Text.isBlank then .blank
  else
    match cs with
    | [c] => ofChar c
    | _ => .text

/-- The name under which a glyph is reported. -/
def name : Glyph → String
  | .blank => "blank"
  | .lineH => "line_h"
  | .lineV => "line_v"
  | .arrowLeft => "arrow_left"
  | .arrowRight => "arrow_right"
  | .arrowUp => "arrow_up"
  | .arrowDown => "arrow_down"
  | .cross => "cross"
  | .circle => "circle"
  | .plus => "plus"
  | .slash => "corner_tl_br"
  | .backslash => "corner_tr_bl"
  | .crossing => "cross_all"
  | .text => "text"

end Glyph

/-! ## Grids -/

/-- Rows of characters, each of its own length. -/
structure Grid where
  rows : Array (Array Char)
  deriving DecidableEq, Repr

/-- The characters around a cell. -/
structure Neighbors where
  up : Option Char
  right : Option Char
  down : Option Char
  left : Option Char
  deriving DecidableEq, Repr

namespace Grid

def ofText (cs : List Char) : Grid :=
  ⟨((Text.lines cs).map List.toArray).toArray⟩

/-- The character at a cell, none outside the rows. -/
def at? (g : Grid) (cell : Cell) : Option Char :=
  if cell.x < 0 ∨ cell.y < 0 then none
  else do
    let row ← g.rows[cell.y.toNat]?
    row[cell.x.toNat]?

/-- The characters above, right of, below and left of a cell. -/
def neighbors (g : Grid) (cell : Cell) : Neighbors where
  up := g.at? ⟨cell.x, cell.y - 1⟩
  right := g.at? ⟨cell.x + 1, cell.y⟩
  down := g.at? ⟨cell.x, cell.y + 1⟩
  left := g.at? ⟨cell.x - 1, cell.y⟩

/-- All cells with their characters, row by row from the top, each row from the left. -/
def cells (g : Grid) : List (Cell × Char) :=
  g.rows.toList.zipIdx.flatMap fun (row, y) =>
    row.toList.zipIdx.map fun (c, x) => (⟨x, y⟩, c)

end Grid

end CellSketch
