import CellSketch.CommandLine.Settings
import CellSketch.Render

/-!
# Run — from settings to output

A run reads its input, draws it and writes the document to the standard output, to a new file, or to
the rasterizer.  Everything that can fail comes before the first write.
-/

namespace CellSketch
namespace CommandLine

open Number

/-- What a run finds. -/
structure Surroundings where
  files : FileSystem
  /-- The text of the standard input. -/
  input : List Char := []
  /-- How the rasterizer would end, if it is there. -/
  rasterizer : Option RasterizerRun := none

/-- How a run ends. -/
inductive Result where
  | done
  /-- A failure that is told to the user. -/
  | failed (e : Error)
  /-- An abrupt end. -/
  | aborted (e : Error)
  deriving DecidableEq, Repr

/-- What a run leaves behind. -/
structure Outcome where
  result : Result
  notices : List Notice := []
  /-- The text on the standard output. -/
  output : String := ""
  files : FileSystem
  /-- The command line that was given to the rasterizer. -/
  command : Option (List String) := none

namespace Result

def ofError (e : Error) : Result := if e.isAbrupt then .aborted e else .failed e

def status : Result → Nat
  | done => 0
  | _ => 1

end Result

namespace Outcome

/-- The outcome with earlier notices in front of its own. -/
def after (notices : List Notice) (o : Outcome) : Outcome :=
  { o with notices := notices ++ o.notices }

/-- What is written to the standard error stream: notices from a level on, then the failure. -/
def messages (o : Outcome) (level : Level) : List String :=
  ((o.notices.filter fun n => level.rank ≤ n.level.rank).map fun n =>
    "[" ++ n.level.name ++ "] " ++ n.message) ++
  match o.result with
  | .failed e => ["error: " ++ e.message]
  | _ => []

end Outcome

/-- The dash that stands for the standard streams. -/
def standardStream : String := "-"

namespace Settings

/-- The cell size that is asked for, if any is. -/
def cellSize (s : Settings) : Except Error (Option (Nat × Nat)) :=
  match s.cell with
  | some spec => if spec.isEmpty then .ok none else (Spec.cellSize spec.toList).map some
  | none => .ok none

/-- Refuses a scale that is none; an empty one counts as not given. -/
def checkScale (s : Settings) : Except Error Unit :=
  match s.scale with
  | some spec =>
      if spec.isEmpty || Spec.isScale spec.toList then .ok () else .error .wrongScale
  | none => .ok ()

/-- The value of a switch that cannot do without one. -/
def need (switch : Switch) (value : Option α) : Except Error α :=
  match value with
  | some a => .ok a
  | none => .error (.noValue (String.ofList switch.word))

/-- The output format; the name of the output decides if none is given. -/
def formatName (s : Settings) : Except Error String :=
  match s.format, s.output with
  | some format, output =>
      if format.isEmpty then (need .output output).map (Format.resolve none ·)
      else .ok (Format.resolve (some format) "")
  | none, output => (need .output output).map (Format.resolve none ·)

/-- The kind of drawing; without a value, a diagram is drawn. -/
def drawnKind (s : Settings) : Kind := s.kind.getD .diagram

/-- The kind as it is told to the user. -/
def kindName (s : Settings) : String := (s.kind.map Kind.name).getD "[]"

/-- The theme that is asked for, if any is. -/
def themeName (s : Settings) : Except Error (Option String) := s.theme.mapM (need .theme ·)

/-- The render options of the settings. -/
def options (s : Settings) : Except Error Options := do
  let format ← s.formatName
  s.checkScale
  let size ← s.cellSize
  let theme ← s.themeName
  .ok
    { format := some format
      cellWidth := size.map fun (w, _) => .whole w
      cellHeight := size.map fun (_, h) => .whole h
      scale := s.scale
      debug := s.debug
      round := s.round
      theme := theme }

/-- The text of a file. -/
def readFile (fs : FileSystem) (p : FilePath) : Except Error (List Char) := do
  match ← fs.file? p with
  | none => .error .unreadableInput
  | some bytes => ((Text.Utf8.decode bytes).mapError .undecodable).map Text.unifyBreaks

/-- The text to draw. -/
def readInput (s : Settings) (around : Surroundings) : Report (List Char) := do
  let name ← need .input s.input
  if name = standardStream then pure around.input
  else do
    let path := FilePath.ofText name.toList
    if ← around.files.isFolder path then
      if s.kind = some .tree then around.files.listing path
      else .ofResult (.error .directoryInput)
    else .ofResult (readFile around.files path)

/-- The name of the output, unless it is there already. -/
def checkOutput (s : Settings) (files : FileSystem) : Except Error String := do
  let name ← need .output s.output
  if name = standardStream then .ok name
  else do
    let path := FilePath.ofText name.toList
    if ← files.isFolder path then .error .outputIsDirectory
    if ← files.contains path then .error .outputExists
    .ok name

/-- All that comes before the first write. -/
def prepare {α : Type} [Scalar α] (engine : Flow.Engine α) (s : Settings)
    (around : Surroundings) : Report Output := do
  let options ← s.options
  let format := options.format.getD ""
  let sketch ← Sketch.ofOptions options
  sketch.checkRasterizer around.rasterizer.isSome
  let text ← s.readInput around
  let name ← s.checkOutput around.files
  let drawn ← sketch.drawText engine s.drawnKind text s.round
  Report.tell [.rendering s.kindName name format]
  let document ← drawn.document
  .ofResult (drawn.output name document (some format))

end Settings

namespace Surroundings

/-- Writes a text to the standard output or to a file. -/
def writeText (around : Surroundings) (name content : String) : Outcome :=
  let written := [Notice.written content.length name]
  if name = standardStream then
    { result := .done, notices := written, output := content, files := around.files }
  else
    match around.files.write (.ofText name.toList) content.toUTF8.toList with
    | .ok files => { result := .done, notices := written, files := files }
    | .error e => { result := .ofError e, files := around.files }

/-- Has the rasterizer run a command line. -/
def rasterize (around : Surroundings) (words : List String) : Outcome :=
  { result :=
      match around.rasterizer with
      | none => .failed .noRasterizer
      | some run =>
          match run.check with
          | .ok () => .done
          | .error e => .ofError e
    notices := [.running (words.take 4) (words.getLast?.getD "")]
    files := around.files
    command := some words }

/-- Writes what was prepared. -/
def write (around : Surroundings) : Output → Outcome
  | .text name content => around.writeText name content
  | .command words => around.rasterize words

end Surroundings

/-- Runs with settings.  The level of notices has to be known first. -/
def run {α : Type} [Scalar α] (engine : Flow.Engine α) (s : Settings) (around : Surroundings) :
    Outcome :=
  let prepared : Report Output := do
    let _ ← Settings.need .level s.level
    s.prepare engine around
  match prepared.result with
  | .ok output => (around.write output).after prepared.notices
  | .error e =>
      { result := .ofError e, notices := prepared.notices, files := around.files }

end CommandLine
end CellSketch
