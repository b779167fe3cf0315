import CellSketch.Text.Lines

/-!
# Listing — directory trees as text

A directory tree is written with one line for each directory, depth first:

```
project
+-docs
| +-api
+-src
```

Below the top every line is a lead, a junction and a name.  The lead has a bar or a blank for every
directory around it, a bar if that directory has further siblings below.
-/

namespace CellSketch

/-- Directories side by side, each with its name and the directories inside it. -/
inductive Forest where
  | nil
  | cons (name : List Char) (inside rest : Forest)
  deriving DecidableEq, Repr

namespace Forest

/-- The number of directories, at all depths. -/
def size : Forest → Nat
  | nil => 0
  | cons _ inside rest => 1 + inside.size + rest.size

/-- Adds a directory before the first that comes after it by name. -/
def insert : Forest → List Char → Forest → Forest
  | nil, name, inside => cons name inside nil
  | cons other content rest, name, inside =>
      if other < name then cons other content (rest.insert name inside)
      else cons name inside (cons other content rest)

def isHidden (name : List Char) : Bool := name.head? == some '.'

/-- Siblings in the order of their names, without hidden directories and what is inside them. -/
def visible : Forest → Forest
  | nil => nil
  | cons name inside rest =>
      if isHidden name then rest.visible else rest.visible.insert name inside.visible

/-- What continues the lead for the lines inside a directory, given its later siblings. -/
def bar : Forest → List Char
  | nil => [' ', ' ']
  | cons .. => ['|', ' ']

/-- The lines of a forest, each beginning with the lead. -/
def lines (lead : List Char) : Forest → List (List Char)
  | nil => []
  | cons name inside rest =>
      (lead ++ ['+', '-'] ++ name) :: inside.lines (lead ++ rest.bar) ++ rest.lines lead

end Forest

/-- A directory with the directories inside it. -/
structure DirectoryTree where
  name : List Char
  inside : Forest
  deriving DecidableEq, Repr

namespace DirectoryTree

/-- The lines of the listing; the first is the name alone. -/
def lines (t : DirectoryTree) : List (List Char) := t.name :: t.inside.visible.lines []

def text (t : DirectoryTree) : List Char := Text.joinWith ['\n'] t.lines

/-- The number of directories listed below the top. -/
def count (t : DirectoryTree) : Nat := t.inside.visible.size

end DirectoryTree

end CellSketch
