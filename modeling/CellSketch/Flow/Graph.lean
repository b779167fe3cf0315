import CellSketch.Parts

/-!
# Graph — boxes and the arrows between them

A flow graph has labelled nodes, kept in the order in which they were first mentioned, and edges
in the order in which they were written.
-/

namespace CellSketch
namespace Flow

/-- The name by which a flow text refers to a box. -/
abbrev Id := List Char

structure Node where
  id : Id
  /-- The text in the box. -/
  label : List Char
  deriving DecidableEq, Repr

structure Edge where
  source : Id
  target : Id
  arrow : Arrow
  deriving DecidableEq, Repr

structure Graph where
  nodes : List Node := []
  edges : List Edge := []
  deriving DecidableEq, Repr

namespace Node

/-- The width of the box: the label with a border at both ends. -/
def width (n : Node) : Nat := n.label.length + 2

end Node

namespace Graph

def hasNode (g : Graph) (id : Id) : Bool := g.nodes.any (·.id == id)

/-- Mentions a node.  A new one gets the label, or its own id when the label is empty; a known one
takes over the label unless that is empty. -/
def mention (g : Graph) (id label : List Char) : Graph :=
  if g.hasNode id then
    if label.isEmpty then g
    else
      { g with
        nodes := g.nodes.map fun n => if n.id == id then { n with label := label } else n }
  else { g with nodes := g.nodes ++ [⟨id, if label.isEmpty then id else label⟩] }

def addEdge (g : Graph) (e : Edge) : Graph := { g with edges := g.edges ++ [e] }

/-- The place of a node in the order of first mention. -/
def indexOf? (g : Graph) (id : Id) : Option Nat := g.nodes.findIdx? (·.id == id)

end Graph
end Flow
end CellSketch
