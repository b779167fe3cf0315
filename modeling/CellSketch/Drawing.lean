import CellSketch.Flow.Layout
import CellSketch.Flow.Parse
import CellSketch.Scan.Reading
import CellSketch.Sketch

/-!
# Drawing — from a text to a drawing of it

A text is drawn as a diagram, as a tree or as a flow.  Diagrams and trees are scanned and their
findings drawn one by one; a flow is laid out by an engine and drawn as labels and connections.
-/

namespace CellSketch

open Number

/-! ## Primitives of a scan -/

section Primitives

variable {α : Type} [Scalar α]

/-- A mark as it is drawn; its corners are round. -/
def Mark.primitive (m : Mark) : Primitive α :=
  match m.form with
  | .corner c => .corner m.cell c true
  | .marker marker connectors => .marker m.cell marker connectors
  | .crossing => .crossing m.cell

def TextRun.primitive (t : TextRun) : Primitive α := .text t.cell (String.ofList t.text)

def LineRun.primitive (l : LineRun) : Primitive α := .run l.axis l.lane l.first l.last l.arrow

/-- Marks first, then text, then lines. -/
def Scan.primitives (s : Scan) : List (Primitive α) :=
  s.marks.toList.map Mark.primitive ++ s.texts.toList.map TextRun.primitive ++
    s.lines.toList.map LineRun.primitive

end Primitives

namespace Scan

/-- What is reported of a scanned diagram. -/
def notice (s : Scan) (g : Grid) : Notice :=
  .scanned g.rows.size s.marks.size s.texts.size s.lines.size

end Scan

/-! ## Primitives of a layout -/

namespace Flow

/-- The points of an edge as a connection takes them. -/
def rawPoints (cells : List Cell) : List (Connection.RawPoint Measure) :=
  cells.map fun c => some [some (.whole c.x), some (.whole c.y)]

/-- The connections of edges, one after the other. -/
def connections (round : Bool) : List RoutedEdge → Except Fault (List (Primitive Measure))
  | [] => .ok []
  | e :: rest => do
      let first ← Primitive.connection (rawPoints e.points) e.arrow round
      let others ← connections round rest
      .ok (first ++ others)

/-- All boxes, then all edges. -/
def Layout.primitives (l : Layout) (round : Bool) : Except Fault (List (Primitive Measure)) :=
  (connections round l.edges).map fun edges =>
    l.boxes.flatMap (fun b => Primitive.label ⟨b.x, b.y⟩ (String.ofList b.label) round) ++ edges

end Flow

/-! ## Texts -/

/-- How a text is understood. -/
inductive Kind where
  | diagram
  | tree
  | flow
  deriving DecidableEq, Repr

namespace Kind

def name : Kind → String
  | .diagram => "diagram"
  | .tree => "tree"
  | .flow => "flow"

def all : List Kind := [.diagram, .tree, .flow]

def names : List String := all.map name

def ofName? (s : String) : Option Kind := all.find? (·.name == s)

/-- The kind of a name. -/
def ofName (s : String) : Except Error Kind :=
  match ofName? s with
  | some kind => .ok kind
  | none => .error (.unknownKind s names)

/-- What is drawn for a text. -/
def primitives {α : Type} [Scalar α] (engine : Flow.Engine α) (kind : Kind) (text : List Char)
    (round : Bool) : Report (List (Primitive Measure)) :=
  match kind with
  | .diagram => do
      let scan := Scan.ofDiagram text
      Report.tell [scan.notice (.ofText text)]
      return scan.primitives
  | .tree => pure (Scan.ofTree text).primitives
  | .flow => do
      let graph ← Flow.parse text
      let layout ← Flow.layoutWith engine graph
      .ofResult ((layout.primitives round).mapError .number)

end Kind

namespace Sketch

/-- Draws primitives on a context, up to the first that fails. -/
def drawAll (s : Sketch) (context : Nat) (ps : List (Primitive Measure)) : Attempt Sketch :=
  (s.canvas.drawAll context ps).map fun canvas => { s with canvas := canvas }

/-- Draws primitives on a context unless one of them fails. -/
def draw (s : Sketch) (context : Nat) (ps : List (Primitive Measure)) : Except Error Sketch :=
  match s.drawAll context ps with
  | ⟨_, some fault⟩ => .error (.number fault)
  | ⟨drawn, none⟩ => .ok drawn

/-- Draws a text on the outermost context. -/
def drawText {α : Type} [Scalar α] (s : Sketch) (engine : Flow.Engine α) (kind : Kind)
    (text : List Char) (round : Bool) : Report Sketch := do
  let ps ← kind.primitives engine text round
  .ofResult (s.draw 0 ps)

end Sketch

end CellSketch
