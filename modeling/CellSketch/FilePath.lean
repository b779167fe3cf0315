import CellSketch.Text.Lines

/-!
# FilePath — names of files and directories

A path is a root, absent in relative paths, and a list of components.  Empty components and single
dots say nothing and are left out; double dots stay, since what they mean depends on the file
system.
-/

namespace CellSketch

structure FilePath where
  /-- The slashes at the start: none, one, or exactly two, which systems may treat on their own. -/
  root : List Char
  parts : List (List Char)
  deriving DecidableEq, Repr

namespace FilePath

/-- The pieces of a text between slashes. -/
def splitSlashes : List Char → List (List Char)
  | [] => [[]]
  | c :: rest =>
      if c = '/' then [] :: splitSlashes rest
      else
        match splitSlashes rest with
        | [] => [[c]]
        | piece :: more => (c :: piece) :: more

def ofText (cs : List Char) : FilePath :=
  let slashes := (cs.takeWhile (· == '/')).length
  { root := if slashes = 0 then [] else if slashes = 2 then ['/', '/'] else ['/']
    parts := (splitSlashes cs).filter fun p => !p.isEmpty && p != ['.'] }

/-- The path as text; a path without anything is a dot. -/
def text (p : FilePath) : List Char :=
  let body := p.root ++ Text.joinWith ['/'] p.parts
  if body.isEmpty then ['.'] else body

def isAbsolute (p : FilePath) : Bool := !p.root.isEmpty

/-- The last component, empty if there is none. -/
def name (p : FilePath) : List Char := p.parts.getLast?.getD []

/-- The part of a name after its last dot, unless the name starts or ends with that dot. -/
def nameSuffix (name : List Char) : List Char :=
  let after := (name.reverse.takeWhile (· != '.')).reverse
  if after.isEmpty || name.length ≤ after.length + 1 then [] else after

/-- The suffix of the last component, without its dot. -/
def suffix (p : FilePath) : List Char := nameSuffix p.name

/-- The path of something inside a directory. -/
def child (p : FilePath) (name : List Char) : FilePath := { p with parts := p.parts ++ [name] }

end FilePath

end CellSketch
