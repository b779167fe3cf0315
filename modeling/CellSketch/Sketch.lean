import CellSketch.Format
import CellSketch.Mvg
import CellSketch.Report
import CellSketch.Spec
import CellSketch.Svg
import CellSketch.Text.Blank
import CellSketch.Theme

/-!
# Sketch — a canvas with everything that is needed to write it out

A sketch is set up from render options: an output format, colours, a cell size, a scale for bitmaps
and whether the cells are shown.  It is drawn on through its canvas and written as a document at any
time, which leaves it as it was.
-/

namespace CellSketch

open Number

/-! ## Options -/

/-- What a user can choose; what is not given has a default. -/
structure Options where
  format : Option String := some "svg"
  cellWidth : Option Measure := none
  cellHeight : Option Measure := none
  scale : Option String := none
  debug : Bool := false
  round : Bool := false
  theme : Option String := none
  background : Option String := none
  foreground : Option String := none

namespace Options

/-- The names under which options are given. -/
def names : List String :=
  ["format", "cell_width", "cell_height", "scale_to", "debug", "round_corners", "theme", "bg", "fg"]

/-- Refuses the first name that is no option. -/
def checkNames (given : List String) : Except Error Unit :=
  match given.find? (!names.contains ·) with
  | some name => .error (.unknownOption name)
  | none => .ok ()

/-- A size that is given and not zero. -/
def nonzero (size : Option Measure) : Option Measure :=
  size.filter fun m => !(m == .whole 0)

/-- The cell size that is asked for; a height that is not given equals a width that is. -/
def cellSize (o : Options) : Measure × Measure :=
  (((nonzero o.cellWidth).getD (.real 10.0)),
    ((nonzero o.cellHeight <|> nonzero o.cellWidth).getD (.real 15.0)))

end Options

/-! ## Documents -/

/-- A drawing written out. -/
inductive Document where
  | svg (text : String)
  | commands (list : List String)
  deriving DecidableEq, Repr

namespace Document

/-- The document as one text, with a line for each command. -/
def text : Document → String
  | svg text => text
  | commands list => "\n".intercalate list

/-- The document as one argument of a command line. -/
def argument : Document → String
  | svg text => text
  | commands list => " ".intercalate list

end Document

/-- What is done with a document. -/
inductive Output where
  /-- Text for a file, or for the standard output when the name is a dash. -/
  | text (name content : String)
  /-- A command line for the rasterizer. -/
  | command (words : List String)
  deriving DecidableEq, Repr

/-- How a run of the rasterizer ended. -/
structure RasterizerRun where
  status : Int
  stderr : List Char := []
  deriving DecidableEq, Repr

/-- A run fails unless its status is zero. -/
def RasterizerRun.check (r : RasterizerRun) : Except Error Unit :=
  if r.status = 0 then .ok () else .error (.rasterizer r.status (Text.strip r.stderr))

/-! ## Sketches -/

structure Sketch where
  format : Format
  colors : Colors
  scale : Option String
  canvas : Canvas Measure

namespace Sketch

/-- An empty sketch in cells of ten by fifteen pixels. -/
def empty (format : Format) (colors : Colors) : Sketch where
  format := format
  colors := colors
  scale := none
  canvas := .ofRoot
    { cell := .of (.real 10.0) (.real 15.0)
      styling := match format with
        | .svg => .perShape
        | _ => .perChange
      style := .ofColors colors.background colors.foreground colors.fill }

/-- Changes the cell size of the outermost context, unless a part of it is too large. -/
def setCellSize (s : Sketch) (width height : Measure) : Except Error Sketch :=
  match s.canvas.attempt 0 (·.setCellSize width height) with
  | ⟨canvas, none⟩ => .ok { s with canvas := canvas }
  | ⟨_, some fault⟩ => .error (.number fault)

/-- Sets the scale of bitmaps. -/
def setScale (s : Sketch) (spec : String) : Except Error Sketch :=
  if Spec.isScale spec.toList then .ok { s with scale := some spec }
  else .error (.invalidScale spec)

/-- Shows the cells, in contexts created later too, or hides them. -/
def showCells (s : Sketch) (shown : Bool) : Sketch :=
  { s with canvas := s.canvas.modify 0 (·.setDebug shown true) }

/-- Sets a scale that is given and not empty. -/
def setScale? (s : Sketch) (spec : Option String) : Except Error Sketch :=
  match spec with
  | some spec => if spec.isEmpty then .ok s else s.setScale spec
  | none => .ok s

/-- The sketch that options describe. -/
def ofOptions (o : Options) : Report Sketch := do
  let colors ← Colors.resolve o.theme o.background o.foreground
  let format := Format.ofName o.format
  Report.tell [.rendererChosen format.renderer (o.format.getD "")]
  let sized ← (Sketch.empty format colors).setCellSize o.cellSize.1 o.cellSize.2
  let scaled ← sized.setScale? o.scale
  return scaled.showCells o.debug

/-- Width and height of the canvas in whole pixels. -/
def size (s : Sketch) : Except Error (Int × Int) :=
  ((s.canvas.sizeInPixels 0).bind fun (w, h) => do
    let width ← w.ceil
    let height ← h.ceil
    .ok (width, height)).mapError .number

/-- The drawing in the format of the sketch. -/
def document (s : Sketch) : Except Error Document :=
  match s.format with
  | .svg =>
      match Svg.fault? s.canvas with
      | some fault => .error (.number fault)
      | none => s.size.map fun (w, h) => .svg (Svg.document s.canvas w h)
  | _ =>
      ((Mvg.document s.canvas s.colors.foreground s.colors.fill).mapError .number).map
        fun commands => .commands (commands.map Mvg.Command.text)

/-- The sketch after its document was asked for, whether or not that could be written. -/
def settled (s : Sketch) : Sketch :=
  match s.format with
  | .svg => { s with canvas := Svg.settled s.canvas }
  | _ => s

/-- Fails if the format needs the rasterizer and it is not there. -/
def checkRasterizer (s : Sketch) (present : Bool) : Report Unit :=
  if s.format.needsRasterizer && !present then ⟨[.noRasterizer], .error .noRasterizer⟩
  else pure ()

/-- The command line that makes a bitmap of a document; the format may be another one than that of
the sketch. -/
def command (s : Sketch) (name : String) (document : Document) (format : Option String) :
    Except Error (List String) :=
  s.size.map fun (w, h) =>
    let scale := Colors.replacing s.scale ""
    ["convert", "-size", toString w ++ "x" ++ toString h, "xc:" ++ s.colors.background,
      "-stroke", s.colors.foreground, "-fill", "none", "-draw", document.argument] ++
    (if scale.isEmpty then [] else ["-scale", scale]) ++
    [Colors.replacing format s.format.name ++ ":" ++ name]

/-- What has to be done to save a document under a name. -/
def output (s : Sketch) (name : String) (document : Document) (format : Option String) :
    Except Error Output :=
  if s.format.needsRasterizer then (s.command name document format).map .command
  else .ok (.text name document.text)

end Sketch

end CellSketch
