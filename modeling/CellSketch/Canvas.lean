import CellSketch.Attempt
import CellSketch.Primitive
import CellSketch.Scan.Basic

/-!
# Canvas — nested drawing contexts

A canvas is a list of contexts.  Each context has a cell size, an origin that can be moved, a style
and a list of the items drawn on it; a context created inside another one is anchored at the
origin that its parent has at that time and comes later in the list.  Sizes are measured in cells
and cover everything drawn on a context and on the contexts inside it.

Whatever meets a number that cannot be used stops there; what was done before that stays.
-/

namespace CellSketch

open Number

/-! ## Contexts -/

/-- Whether a grid of the cells is shown, and whether contexts created later show it too. -/
inductive DebugMode where
  | off
  | on
  | propagate
  deriving DecidableEq, Repr

namespace DebugMode

def code : DebugMode → Nat
  | .off => 0
  | .on => 1
  | .propagate => 2

/-- The mode for a wish to show the grid here and in contexts created later. -/
def of (shown propagated : Bool) : DebugMode :=
  if !shown then .off else if propagated then .propagate else .on

/-- The mode of a context created inside one of this mode. -/
def inherited : DebugMode → DebugMode
  | .propagate => .propagate
  | _ => .off

end DebugMode

/-- When the settings of a style are written out. -/
inductive Styling where
  /-- With every shape. -/
  | perShape
  /-- When they change. -/
  | perChange
  deriving DecidableEq, Repr

/-- A shape with the look it is drawn in. -/
structure Figure (α : Type) where
  shape : Shape α
  look : Look α
  deriving DecidableEq, Repr

namespace Figure

variable {α : Type} [Scalar α]

/-- The numbers of a look that a shape is written with: text has a size, everything else is filled
and stroked. -/
def settings (f : Figure α) : List α :=
  match f.shape with
  | .text .. => [f.look.fontSize]
  | _ => [f.look.fillOpacity, f.look.strokeOpacity, f.look.strokeWidth]

/-- Why the look of a figure cannot be written, if it cannot. -/
def fault? (f : Figure α) : Option Fault := Scalar.firstFault? f.settings

end Figure

/-- Something drawn or set on a context, in order. -/
inductive Item (α : Type) where
  | figure (figure : Figure α)
  /-- The place of a head that could not be written. -/
  | hollow
  /-- What there is of an overlay that could not be finished. -/
  | unfinished (figures : List (Figure α))
  /-- The origin moves by this many pixels. -/
  | shift (dx dy : α)
  /-- A context created here. -/
  | child (index : Nat)
  | stroke (change : StrokeChange α)
  | fill (change : FillChange α)
  | font (change : FontChange α)
  /-- A command of the output language, passed on as it is. -/
  | raw (command : String)
  deriving DecidableEq, Repr

def Item.isShift {α : Type} : Item α → Bool
  | .shift .. => true
  | _ => false

/-- A context inside another one: where its origin lies, in cells of the parent. -/
structure Child where
  x : Int
  y : Int
  index : Nat
  deriving DecidableEq, Repr

structure Context (α : Type) where
  cell : CellSize α
  /-- The origin, in cells. -/
  origin : Cell := ⟨0, 0⟩
  /-- The room taken by what was drawn on this context itself, in cells. -/
  width : Int := 0
  height : Int := 0
  debug : DebugMode := .off
  styling : Styling
  style : Style α
  children : Array Child := #[]
  items : Array (Item α) := #[]
  /-- Unfinished overlays that stand behind everything drawn here. -/
  leftovers : Array (List (Figure α)) := #[]

namespace Context

variable {α : Type} [Scalar α]

/-- Reserves room up to and including a column, relative to the origin. -/
def widen (c : Context α) (column : Int) : Context α :=
  { c with width := max c.width (c.origin.x + column + 1) }

/-- Reserves room up to and including a row, relative to the origin. -/
def heighten (c : Context α) (row : Int) : Context α :=
  { c with height := max c.height (c.origin.y + row + 1) }

/-- Reserves room up to and including a cell. -/
def reserve (c : Context α) (last : Cell) : Context α := (c.widen last.x).heighten last.y

/-- Reserves room for a position that may be a fraction: columns first, then rows. -/
def setSize (c : Context α) (p : Point α) : Attempt (Context α) :=
  match Scalar.ceil p.x with
  | .error fault => ⟨c, some fault⟩
  | .ok column =>
      match Scalar.ceil p.y with
      | .error fault => ⟨c.widen column, some fault⟩
      | .ok row => ⟨c.reserve ⟨column, row⟩, none⟩

/-- Takes a new cell size over: first the width, then the height, then the centre. -/
def setCellSize (c : Context α) (width height : α) : Attempt (Context α) :=
  let w := Scalar.measure width
  let h := Scalar.measure height
  .barring (Scalar.fault? w) c <|
    .barring (Scalar.fault? h) { c with cell := { c.cell with width := w } }
      ⟨{ c with cell := .of w h }, none⟩

/-- Appends an item. -/
def push (c : Context α) (item : Item α) : Context α := { c with items := c.items.push item }

/-- Moves the origin, which stops at the edges of column and row zero, and reserves room there. -/
def translate (c : Context α) (dx dy : Int) : Attempt (Context α) :=
  let origin : Cell := ⟨max 0 (c.origin.x + dx), max 0 (c.origin.y + dy)⟩
  let movedX := origin.x - c.origin.x
  let movedY := origin.y - c.origin.y
  let moved := { c with origin := origin }.reserve ⟨0, 0⟩
  if movedX = 0 ∧ movedY = 0 then ⟨moved, none⟩
  else
    let right := Scalar.whole movedX * c.cell.width
    let down := Scalar.whole movedY * c.cell.height
    .barring (Scalar.firstFault? [right, down]) moved ⟨moved.push (.shift right down), none⟩

/-- Draws a shape in the style of the moment.  Where every shape is written with its look, one
whose look cannot be written is not drawn, but the place of a head is taken. -/
def drawShape (c : Context α) (s : Shape α) : Attempt (Context α) :=
  let figure : Figure α := ⟨s, c.style.look c.cell.height⟩
  let refused := match c.styling, s with
    | .perShape, .head .. => c.push .hollow
    | _, _ => c
  let unwritable := match c.styling with
    | .perShape => figure.fault?
    | .perChange => none
  .barring s.fault? c <| .barring unwritable refused ⟨c.push (.figure figure), none⟩

/-- Draws a primitive.  Room is reserved first, then come its shapes. -/
def draw (c : Context α) (p : Primitive α) : Attempt (Context α) :=
  let reserved : Attempt (Context α) := match p.reach with
    | some last => c.setSize last
    | none => ⟨c, none⟩
  reserved.andThen fun c =>
    .barring (Scalar.firstFault? (p.premises c.cell)) c <|
      Attempt.each drawShape c (p.shapes c.cell c.style)

/-- Draws one primitive after the other, up to the first that fails. -/
def drawAll (c : Context α) (ps : List (Primitive α)) : Attempt (Context α) :=
  Attempt.each draw c ps

/-- Notes a change of settings.  Where changes are written out, one whose numbers cannot be written
is not noted, though the settings are changed. -/
def note (c : Context α) (change : Item α) (numbers : List α) : Attempt (Context α) :=
  let unwritable := match c.styling with
    | .perShape => none
    | .perChange => Scalar.firstFault? numbers
  .barring unwritable c ⟨c.push change, none⟩

def setStroke (c : Context α) (change : StrokeChange α) : Attempt (Context α) :=
  if change.isEmpty then ⟨c, none⟩
  else
    { c with style := { c.style with stroke := change.apply c.style.stroke } }.note
      (.stroke change) change.numbers

def setFill (c : Context α) (change : FillChange α) : Attempt (Context α) :=
  if change.isEmpty then ⟨c, none⟩
  else
    { c with style := { c.style with fill := change.apply c.style.fill } }.note
      (.fill change) change.numbers

def setFont (c : Context α) (change : FontChange α) : Attempt (Context α) :=
  if change.isEmpty then ⟨c, none⟩
  else
    { c with style := { c.style with font := change.apply c.style.font } }.note
      (.font change) change.numbers

def setDebug (c : Context α) (shown propagated : Bool) : Context α :=
  { c with debug := .of shown propagated }

def addCommand (c : Context α) (command : String) : Context α := c.push (.raw command)

/-- Forgets what was drawn, but neither the room it took nor the contexts inside. -/
def clearCommands (c : Context α) : Context α := { c with items := #[] }

/-- Keeps an overlay that could not be finished.  It stands behind what is drawn so far; once the
origin was moved, what is drawn later comes before it too. -/
def keepUnfinished (c : Context α) (figures : List (Figure α)) : Context α :=
  if c.items.any Item.isShift then { c with leftovers := c.leftovers.push figures }
  else c.push (.unfinished figures)

/-- A context to be created inside this one. -/
def inner (c : Context α) : Context α where
  cell := .of c.cell.width c.cell.height
  styling := c.styling
  style := c.style
  debug := c.debug.inherited

end Context

/-! ## Canvases -/

/-- Contexts, the outermost one first and every other one after its parent. -/
structure Canvas (α : Type) where
  contexts : Array (Context α)

namespace Canvas

variable {α : Type} [Scalar α]

/-- A canvas with an outermost context and nothing on it. -/
def ofRoot (root : Context α) : Canvas α := ⟨#[root]⟩

def context? (c : Canvas α) (i : Nat) : Option (Context α) := c.contexts[i]?

/-- Changes one context. -/
def modify (c : Canvas α) (i : Nat) (f : Context α → Context α) : Canvas α :=
  ⟨c.contexts.modify i f⟩

/-- Works on one context. -/
def attempt (c : Canvas α) (i : Nat) (f : Context α → Attempt (Context α)) : Attempt (Canvas α) :=
  match c.context? i with
  | none => ⟨c, none⟩
  | some context => (f context).map fun context => ⟨c.contexts.set! i context⟩

/-- Draws on one context, up to the first primitive that fails. -/
def drawAll (c : Canvas α) (i : Nat) (ps : List (Primitive α)) : Attempt (Canvas α) :=
  c.attempt i (·.drawAll ps)

/-- Creates a context inside another one, at its present origin. -/
def addContext (c : Canvas α) (i : Nat) : Canvas α :=
  match c.context? i with
  | none => c
  | some parent =>
      let index := c.contexts.size
      let anchored := { parent with
        children := parent.children.push ⟨parent.origin.x, parent.origin.y, index⟩
        items := parent.items.push (.child index) }
      ⟨(c.contexts.set! i anchored).push parent.inner⟩

/-- What belongs to the context `index`, out of a list for the contexts after `base`. -/
def later? {β : Type} (base index : Nat) (values : List β) : Option β :=
  if base < index then values[index - base - 1]? else none

/-- For each of the contexts from number `base` on, its number and those of the contexts inside it,
every one before those inside it and in the order of creation. -/
def nestedFrom (base : Nat) : List (Context α) → List (List Nat)
  | [] => []
  | c :: rest =>
      let others := nestedFrom (base + 1) rest
      (base :: c.children.toList.flatMap fun child => (later? base child.index others).getD []) ::
        others

/-- All contexts inside the outermost one, and that one first. -/
def nested (c : Canvas α) : List Nat := ((nestedFrom 0 c.contexts.toList).head?).getD []

/-! ## Sizes -/

/-- Width and height, in cells, of each of the contexts from number `base` on: the room of the
context itself and that of the contexts inside it. -/
def sizesFrom (base : Nat) : List (Context α) → List (Int × Int)
  | [] => []
  | c :: rest =>
      let others := sizesFrom (base + 1) rest
      let size := c.children.toList.foldl
        (fun (size : Int × Int) (child : Child) =>
          match later? base child.index others with
          | some inner => (max size.1 (child.x + inner.1), max size.2 (child.y + inner.2))
          | none => size)
        (c.width, c.height)
      size :: others

/-- Width and height of a context in cells. -/
def sizeInCells (c : Canvas α) (i : Nat) : Int × Int :=
  ((sizesFrom 0 c.contexts.toList)[i]?).getD (0, 0)

/-- Width and height of a context in pixels, without the margin of one stroke. -/
def sizeInPixels (c : Canvas α) (i : Nat) : Except Fault (α × α) :=
  match c.context? i with
  | none => .ok (Scalar.whole 0, Scalar.whole 0)
  | some context =>
      let size := c.sizeInCells i
      let one : α := Scalar.whole 1
      let width := Scalar.whole size.1 * context.cell.width - one
      let height := Scalar.whole size.2 * context.cell.height - one
      match Scalar.firstFault? [width, height] with
      | some fault => .error fault
      | none => .ok (Scalar.positivePart width, Scalar.positivePart height)

/-! ## The grid of cells -/

/-- The overlay that shows the cells of a context: a line for each column and row, a frame around
them and the size as text. -/
structure Overlay (α : Type) where
  lines : List (Shape α)
  width : α
  height : α
  label : Shape α

/-- The overlay of a context of a size. -/
def overlay (c : Context α) (size : Int × Int) : Except Fault (Overlay α) :=
  let zero : α := Scalar.measured 0
  let width := Scalar.whole size.1 * c.cell.width
  let height := Scalar.whole size.2 * c.cell.height
  match Scalar.firstFault? [width, height] with
  | some fault => .error fault
  | none =>
      .ok
        { lines :=
            ((List.range size.1.toNat).map fun x =>
              .line ⟨c.cell.left x, zero⟩ ⟨c.cell.left x, height⟩) ++
            ((List.range size.2.toNat).map fun y =>
              .line ⟨zero, c.cell.top y⟩ ⟨width, c.cell.top y⟩)
          width := width
          height := height
          label := .text ⟨zero, c.cell.height - c.cell.halfHeight / Scalar.whole 2⟩
            (toString size.1 ++ "," ++ toString size.2) }

end Canvas

end CellSketch
