import CellSketch.CommandLine.Word

/-!
# Settings — what a command line asks for

The words are taken one after the other; of a switch that is given several times the last one
counts.  Two dashes attached to a switch leave it without a value, which is always allowed here.  A
command line is refused if another value is missing or not allowed, if a word is left over, or if
there is no input or output.  A request for help ends the reading at once, but not before a word is
found ambiguous.
-/

namespace CellSketch
namespace CommandLine

structure Settings where
  kind : Option Kind := some .diagram
  input : Option String := none
  output : Option String := none
  format : Option String := none
  cell : Option String := none
  scale : Option String := none
  debug : Bool := false
  round : Bool := false
  /-- The theme, if one is asked for; it may have been left without a value. -/
  theme : Option (Option String) := none
  level : Option Level := some .warning
  deriving DecidableEq, Repr

/-- Why a command line is not run. -/
inductive Stop where
  | help
  | refused
  deriving DecidableEq, Repr

/-- The exit status when nothing is run. -/
def Stop.status : Stop → Nat
  | help => 0
  | refused => 2

/-- The settings after a switch with its value, or without one. -/
def Settings.set (s : Settings) (switch : Switch) (value : Option String) : Settings :=
  match switch with
  | .help => s
  | .kind => { s with kind := value.bind Kind.ofName? }
  | .input => { s with input := value }
  | .output => { s with output := value }
  | .format => { s with format := value }
  | .cell => { s with cell := value }
  | .scale => { s with scale := value }
  | .debug => { s with debug := true }
  | .round => { s with round := true }
  | .theme => { s with theme := some value }
  | .level => { s with level := value.bind Level.ofName? }

/-- The value that is written in a word; two dashes stand for none. -/
def valueOf (written : List Char) : Option String :=
  if written = ['-', '-'] then none else some (String.ofList written)

/-- The settings while the words are read. -/
structure Draft where
  settings : Settings := {}
  /-- The switches that were given. -/
  given : List Switch := []
  /-- Whether words were left over. -/
  leftover : Bool := false
  deriving DecidableEq, Repr

namespace Draft

/-- Takes a switch with what is written as its value. -/
def take (r : Draft) (s : Switch) (written : List Char) : Except Stop Draft :=
  let value := valueOf written
  if s = .help then .error .help
  else if value.all s.accepts then
    .ok { r with settings := r.settings.set s value, given := s :: r.given }
  else .error .refused

/-- Takes switches without values. -/
def takeFlags (r : Draft) (flags : List Switch) : Except Stop Draft :=
  flags.foldlM (fun r s => r.take s []) r

/-- Takes all words. -/
def takeWords (r : Draft) : List (List Char × Word) → Except Stop Draft
  | [] => .ok r
  | (_, .switches none) :: _ => .error .refused
  | (_, .switches (some ⟨flags, .complete⟩)) :: rest => do
      let r ← r.takeFlags flags
      r.takeWords rest
  | (_, .switches (some ⟨flags, .valued s value⟩)) :: rest => do
      let r ← r.takeFlags flags
      let r ← r.take s value
      r.takeWords rest
  | (_, .switches (some ⟨flags, .pending s⟩)) :: (value, .value) :: rest => do
      let r ← r.takeFlags flags
      let r ← r.take s value
      r.takeWords rest
  | (_, .switches (some ⟨_, .pending _⟩)) :: _ => .error .refused
  | _ :: rest => { r with leftover := true }.takeWords rest

end Draft

namespace Settings

/-- The switches that cannot be left out. -/
def required : List Switch := [.input, .output]

/-- Reads a command line. -/
def ofWords (words : List String) : Except Stop Settings := do
  let classified := Word.classify (words.map String.toList)
  if classified.any (·.2 == .ambiguous) then .error .refused
  let r ← ({} : Draft).takeWords classified
  if r.leftover || !required.all r.given.contains then .error .refused
  .ok r.settings

end Settings

end CommandLine
end CellSketch
