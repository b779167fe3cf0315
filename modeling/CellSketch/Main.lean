import CellSketch.CommandLine.Run
import CellSketch.Flow.Layered.Placement

/-!
# Main — the command line

Gathers what a run needs from the disk, runs, and writes what came out.  Flows are drawn in layers.
No rasterizer is attached, so bitmaps are refused.
-/

namespace CellSketch
namespace CommandLine

def usage : String :=
  "usage: cellsketch [-h] [-t \x7bdiagram,tree,flow\x7d] -i INPUT -o OUTPUT [-f FORMAT] " ++
    "[-c CELL] [-s SCALE] [-d] [--round] [--theme NAME] [--log-level LEVEL]"

/-- The names from the root that a path leads to. -/
def namesOf (current : List (List Char)) (p : FilePath) : List (List Char) :=
  p.parts.foldl (fun names name => if name = ['.', '.'] then names.dropLast else names ++ [name])
    (if p.isAbsolute then [] else current)

/-- Adds the directories inside a directory of the disk. -/
partial def addInside (dir : IO.FS.DirEntry) (names : List (List Char)) (root : Folder) :
    IO Folder := do
  let mut root := root.addFolders names
  for e in ← dir.path.readDir do
    if ← e.path.isDir then
      root ← addInside e (names ++ [e.fileName.toList]) root
  return root

/-- Adds what is on the disk on the way to a path and at its end. -/
def addPath (current : List (List Char)) (p : FilePath) (whole : Bool) (root : Folder) :
    IO Folder := do
  let here ← IO.currentDir
  let names := namesOf current p
  let mut root := root
  for i in [0:names.length] do
    let part := names.take (i + 1)
    let text := "/" ++ "/".intercalate (part.map String.ofList)
    let entry : IO.FS.DirEntry := ⟨here, text⟩
    if ← entry.path.isDir then
      root ← if whole && i + 1 = names.length then addInside entry part root
        else pure (root.addFolders part)
    else if ← entry.path.pathExists then
      if (← entry.path.metadata).type == .other then root := root.addDevice part
      else
        let content ← if whole then IO.FS.readBinFile text else pure .empty
        root := root.write part content.toList
  return root

/-- All bytes of the standard input. -/
partial def readAll (stream : IO.FS.Stream) (read : ByteArray) : IO ByteArray := do
  let more ← stream.read 65536
  if more.isEmpty then return read else readAll stream (read ++ more)

/-- What a run with certain settings finds on the disk and on the standard input. -/
def surroundings (s : Settings) : IO (Except Error Surroundings) := do
  let current := (FilePath.ofText (← IO.currentDir).toString.toList).parts
  let mut root := Folder.chain current
  if let some output := s.output then
    if output != standardStream then
      root ← addPath current (.ofText output.toList) false root
  let input := s.input.getD ""
  if input != standardStream then
    if s.input.isSome then
      root ← addPath current (.ofText input.toList) true root
    return .ok { files := ⟨root, current⟩ }
  let bytes ← readAll (← IO.getStdin) .empty
  return ((Text.Utf8.decode bytes.toList).mapError .undecodable).map fun text =>
    { files := ⟨root, current⟩, input := text }

/-- The engine that draws flows. -/
def engine : Flow.Engine Number.Measure := Flow.Layered.engine

/-- Runs with settings and reports the exit status. -/
def perform (s : Settings) : IO UInt32 := do
  match ← surroundings s with
  | .error e =>
      IO.eprintln ("error: " ++ e.message)
      return 1
  | .ok around =>
      let outcome := run engine s around
      for line in outcome.messages (s.level.getD .warning) do
        IO.eprintln line
      if let .aborted e := outcome.result then IO.eprintln e.message
      IO.print outcome.output
      let output := s.output.getD standardStream
      if outcome.result = .done && output != standardStream then
        if let .ok (some content) := outcome.files.file? (.ofText output.toList) then
          IO.FS.writeBinFile output ⟨content.toArray⟩
      return outcome.result.status.toUInt32

end CommandLine
end CellSketch

/-- Reads the arguments and runs. -/
def main (args : List String) : IO UInt32 := do
  match CellSketch.CommandLine.Settings.ofWords args with
  | .ok settings => CellSketch.CommandLine.perform settings
  | .error .help =>
      IO.println CellSketch.CommandLine.usage
      return 0
  | .error .refused =>
      IO.eprintln CellSketch.CommandLine.usage
      return 2
