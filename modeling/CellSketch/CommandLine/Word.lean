import CellSketch.CommandLine.Switch
import CellSketch.Spec
import CellSketch.Text.DecimalDigit

/-!
# Word — the words of a command line

A word names one switch by its word or by the start of it, or several switches by their letters; the
last switch named may have its value attached.  Every other word is a value, or nothing that is
known.
-/

namespace CellSketch
namespace CommandLine

/-- What stands at the end of a word that names switches. -/
inductive Ending where
  | complete
  /-- A switch with its value. -/
  | valued (s : Switch) (value : List Char)
  /-- A switch whose value is the next word. -/
  | pending (s : Switch)
  deriving DecidableEq, Repr

/-- The switches of one word: those that take no value, and the ending. -/
structure Group where
  flags : List Switch
  ending : Ending
  deriving DecidableEq, Repr

inductive Word where
  /-- A word that can be the value of a switch. -/
  | value
  /-- Two dashes, after which every word is a value. -/
  | separator
  /-- Switches; `none` if they cannot be written like this. -/
  | switches (group : Option Group)
  | unknown
  /-- The start of the words of several switches. -/
  | ambiguous
  deriving DecidableEq, Repr

namespace Group

/-- The switches named by a letter and the letters that follow it, if all of them name switches.
What follows the letter of a switch that takes a value is that value. -/
def ofLetter (s : Switch) : List Char → Option Group
  | [] => some (if s.takesValue then ⟨[], .pending s⟩ else ⟨[s], .complete⟩)
  | c :: rest =>
      if s.takesValue then some ⟨[], .valued s (c :: rest)⟩
      else
        match Switch.ofLetter? c with
        | some next => (ofLetter next rest).map fun g => { g with flags := s :: g.flags }
        | none => none

/-- The switches named by the first letter of a word and the text that follows it.  An equals sign
right after the first letter only sets it off from the text. -/
def ofFirstLetter (s : Switch) : List Char → Option Group
  | '=' :: [] => if s.takesValue then some ⟨[], .valued s []⟩ else none
  | '=' :: rest => ofLetter s rest
  | rest => ofLetter s rest

/-- The switch named by a word, and the value after an equals sign. -/
def ofWord (s : Switch) : Option (List Char) → Option Group
  | none => some (if s.takesValue then ⟨[], .pending s⟩ else ⟨[s], .complete⟩)
  | some value => if s.takesValue then some ⟨[], .valued s value⟩ else none

end Group

namespace Word

/-- Whether a text after a dash is a number. -/
def isNumber (cs : List Char) : Bool :=
  let body := Spec.dropFinalBreak cs
  match body.dropWhile Text.isDecimalDigit with
  | [] => !body.isEmpty
  | c :: rest => c == '.' && Spec.isNumber rest

/-- A word that begins with a dash and names no switch: a negative number is a value, and so is
everything with a space in it. -/
def ofOther (dashed : List Char) : Word :=
  if isNumber (dashed.drop 1) || dashed.contains ' ' then .value else .unknown

/-- A word after two dashes. -/
def ofLong (body : List Char) : Word :=
  let start := body.takeWhile (· != '=')
  let value := (body.dropWhile (· != '=')).tail?
  match Switch.matching start with
  | [s] => .switches (Group.ofWord s value)
  | [] => ofOther ('-' :: '-' :: body)
  | _ => .ambiguous

def ofText : List Char → Word
  | '-' :: '-' :: body => if body.isEmpty then .separator else ofLong body
  | '-' :: c :: rest =>
      match Switch.ofLetter? c with
      | some s => .switches (Group.ofFirstLetter s rest)
      | none => ofOther ('-' :: c :: rest)
  | _ => .value

/-- All words with what they are. -/
def classify : List (List Char) → List (List Char × Word)
  | [] => []
  | w :: rest =>
      match ofText w with
      | .separator => (w, .separator) :: rest.map (·, .value)
      | other => (w, other) :: classify rest

end Word

end CommandLine
end CellSketch
