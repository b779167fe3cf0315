import CellSketch.Flow.Statement
import CellSketch.Report
import CellSketch.Text.Lines

/-!
# Parse — a flow text as a graph

Each line of a flow text holds one statement.  A comment runs from a `#` outside brackets to the
end of its line; lines with nothing else are skipped.  The first line that is no statement ends the
reading, and a text without any statement is refused.
-/

namespace CellSketch
namespace Flow

/-- The line up to its comment; `depth` counts the brackets that are open. -/
def stripCommentAt : (depth : Nat) → List Char → List Char
  | _, [] => []
  | depth, c :: rest =>
      if c = '[' then c :: stripCommentAt (depth + 1) rest
      else if c = ']' then c :: stripCommentAt (depth - 1) rest
      else if c = '#' ∧ depth = 0 then []
      else c :: stripCommentAt depth rest

def stripComment (line : List Char) : List Char := stripCommentAt 0 line

/-- The lines that say something, with their numbers. -/
def numberedLines (text : List Char) : List (Nat × List Char) :=
  (Text.lines text).zipIdx.filterMap fun (raw, i) =>
    let line := Text.strip (stripComment raw)
    if line.isEmpty then none else some (i + 1, line)

namespace Graph

/-- Mentions the nodes of a statement and adds its edges; a node is not joined to itself. -/
def addStatement (g : Graph) (s : Statement) : Graph :=
  let mentioned := s.references.foldl (fun g r => g.mention r.id r.label) g
  s.joins.foldl
    (fun g (op, left, right) => if left = right then g else g.addEdge (op.edge left right))
    mentioned

end Graph

/-- The joins of a statement that are left out. -/
def Statement.selfLoops (s : Statement) (line : Nat) : List Notice :=
  (s.joins.filter fun (_, left, right) => left == right).map fun (_, left, _) =>
    .selfLoop line left

/-- Adds statement after statement, up to the first line that is none. -/
def addLines (g : Graph) : List (Nat × List Char) → Report Graph
  | [] => .ofResult (.ok g)
  | (number, line) :: rest =>
      match Statement.parse line with
      | .error token => .ofResult (.error (.flowLine number token))
      | .ok s => (addLines (g.addStatement s) rest).after (s.selfLoops number)

/-- Reads a flow text. -/
def parse (text : List Char) : Report Graph := do
  let g ← addLines {} (numberedLines text)
  if g.nodes.isEmpty then .ofResult (.error .emptyFlow) else pure g

end Flow
end CellSketch
