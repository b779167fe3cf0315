import CellSketch.FilePath
import CellSketch.Text.Lowercase

/-!
# Format — the kinds of output

Two formats are written directly; every other name is a bitmap format that an external rasterizer
makes from drawing commands.
-/

namespace CellSketch

inductive Format where
  | svg
  | mvg
  | raster (name : String)
  deriving DecidableEq, Repr

namespace Format

/-- The bitmap format where none is named. -/
def defaultRaster : String := "png"

/-- The format of a name; no name at all means a bitmap. -/
def ofName : Option String → Format
  | some "svg" => .svg
  | some "mvg" => .mvg
  | some name => .raster (if name.isEmpty then defaultRaster else name)
  | none => .raster defaultRaster

def name : Format → String
  | svg => "svg"
  | mvg => "mvg"
  | raster name => name

/-- The name of what writes the format. -/
def renderer : Format → String
  | svg => "SvgBackend"
  | mvg => "MvgBackend"
  | raster _ => "ImageMagickBackend"

/-- Whether the external rasterizer is needed. -/
def needsRasterizer : Format → Bool
  | raster _ => true
  | _ => false

/-- The name of the format for an output: the given one in lower case, else the suffix of the output
file, else a bitmap; a dash, the standard output, has no suffix. -/
def resolve (given : Option String) (output : String) : String :=
  match given.filter (!·.isEmpty) with
  | some name => String.ofList (Text.lower name.toList)
  | none =>
      let suffix :=
        if output = "-" then [] else Text.lower (FilePath.ofText output.toList).suffix
      if suffix.isEmpty then defaultRaster else String.ofList suffix

end Format

end CellSketch
