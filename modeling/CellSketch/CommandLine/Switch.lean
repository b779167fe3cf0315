import CellSketch.Drawing

/-!
# Switch — the options of the command line

Every switch has a word, written after two dashes, and most have a letter, written after one.
-/

namespace CellSketch
namespace CommandLine

inductive Switch where
  | help
  | kind
  | input
  | output
  | format
  | cell
  | scale
  | debug
  | round
  | theme
  | level
  deriving DecidableEq, Repr

namespace Switch

def all : List Switch :=
  [help, kind, input, output, format, cell, scale, debug, round, theme, level]

def word : Switch → List Char
  | help => "help".toList
  | kind => "type".toList
  | input => "input".toList
  | output => "output".toList
  | format => "format".toList
  | cell => "cell".toList
  | scale => "scale".toList
  | debug => "debug".toList
  | round => "round".toList
  | theme => "theme".toList
  | level => "log-level".toList

def letter? : Switch → Option Char
  | help => some 'h'
  | kind => some 't'
  | input => some 'i'
  | output => some 'o'
  | format => some 'f'
  | cell => some 'c'
  | scale => some 's'
  | debug => some 'd'
  | round | theme | level => none

def ofLetter? (c : Char) : Option Switch := all.find? (·.letter? == some c)

/-- The switches whose word begins in a certain way; a full word names its switch alone. -/
def matching (start : List Char) : List Switch :=
  match all.find? (·.word == start) with
  | some s => [s]
  | none => all.filter fun s => start.isPrefixOf s.word

def takesValue : Switch → Bool
  | help | debug | round => false
  | _ => true

/-- The values that are allowed, where not all are. -/
def choices? : Switch → Option (List String)
  | kind => some Kind.names
  | theme => some Theme.names
  | level => some (Level.all.map (·.name))
  | _ => none

def accepts (s : Switch) (value : String) : Bool :=
  match s.choices? with
  | some values => values.contains value
  | none => true

end Switch

end CommandLine
end CellSketch
