/-!
# Network — a connected graph to be drawn

The vertices are numbered from zero in the order in which they are to be considered, and each has
the width of its box.  Edges are directed and keep their order; several may join the same vertices.
-/

namespace CellSketch
namespace Flow

/-- Rows of a box, border included. -/
def boxHeight : Nat := 3

/-- Free columns between neighbours of one layer. -/
def nodeSpacing : Nat := 4

/-- Free rows between layers. -/
def layerSpacing : Nat := 3

structure Network where
  widths : Array Nat
  edges : Array (Nat × Nat)
  deriving DecidableEq, Repr

namespace Network

def size (n : Network) : Nat := n.widths.size

end Network
end Flow
end CellSketch
