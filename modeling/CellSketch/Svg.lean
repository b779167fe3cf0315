import CellSketch.Canvas
import CellSketch.Outline
import CellSketch.Xml

/-!
# Svg — a canvas as a tree of elements

Every context is a group.  Moving the origin opens a group inside it that takes everything drawn
from then on, and the group of a context created inside stands where it was created.  Each shape
carries its whole look.  The overlay with the cells comes last in the group of its context.
-/

namespace CellSketch
namespace Svg

open Number

/-! ## Elements -/

inductive Element (α : Type) where
  /-- Elements whose origin is moved, or not. -/
  | group (shift : Option (α × α)) (children : List (Element α))
  /-- The overlay that shows the cells of a context. -/
  | overlay (figures : List (Figure α))
  | figure (figure : Figure α)

variable {α : Type} [Scalar α]

/-- The elements of items, given those of the contexts after this one. -/
def ofItems (base : Nat) (others : List (Element α)) : List (Item α) → List (Element α)
  | [] => []
  | .figure f :: rest => .figure f :: ofItems base others rest
  | .hollow :: rest => .group none [] :: ofItems base others rest
  | .unfinished figures :: rest => .overlay figures :: ofItems base others rest
  | .shift dx dy :: rest => [.group (some (dx, dy)) (ofItems base others rest)]
  | .child index :: rest =>
      (Canvas.later? base index others).toList ++ ofItems base others rest
  | _ :: rest => ofItems base others rest

/-- The figures that show the cells of a context. -/
def overlayFigures (c : Context α) (size : Int × Int) : Except Fault (List (Figure α)) :=
  (Canvas.overlay c size).map fun overlay =>
    let look := c.style.look c.cell.height
    let zero : α := Scalar.whole 0
    overlay.lines.map (⟨·, look⟩) ++
    [⟨.rectangle ⟨zero, zero⟩ overlay.width overlay.height none,
        { look with fillColor := "transparent" }⟩,
      ⟨overlay.label, look⟩]

/-- How far the overlay of a context gets: the figures that are written, unless there is nothing to
write them into, and what stops it. -/
structure Tracing (α : Type) where
  figures : Option (List (Figure α)) := none
  fault : Option Fault := none

/-- The overlay of a context of a size, if the cells are shown. -/
def trace (c : Context α) (size : Int × Int) : Tracing α :=
  if c.debug = .off then {}
  else
    match overlayFigures c size with
    | .error fault => { fault := some fault }
    | .ok figures =>
        { figures := some (figures.takeWhile fun f => f.fault?.isNone)
          fault := figures.findSome? Figure.fault? }

/-- The group of a context of a size, given those of the contexts after it. -/
def ofContext (base : Nat) (c : Context α) (size : Int × Int) (shift : Option (α × α))
    (others : List (Element α)) : Element α :=
  .group shift <|
    ofItems base others c.items.toList ++ c.leftovers.toList.map .overlay ++
    (trace c size).figures.toList.map .overlay

/-- The groups of the contexts from number `base` on; the first of them may be moved. -/
def contextsFrom (base : Nat) (shift : Option (α × α)) :
    List (Context α) → List (Int × Int) → List (Element α)
  | c :: rest, size :: sizes =>
      let others := contextsFrom (base + 1) none rest sizes
      ofContext base c size shift others :: others
  | _, _ => []

/-- The group of the first context of a canvas. -/
def root? (c : Canvas α) (shift : Option (α × α)) : Option (Element α) :=
  let contexts := c.contexts.toList
  (contextsFrom 0 shift contexts (Canvas.sizesFrom 0 contexts)).head?

/-- The first context, in the order of the groups, whose overlay cannot be finished. -/
def stopped? (c : Canvas α) : Option (Nat × Tracing α) :=
  let sizes := Canvas.sizesFrom 0 c.contexts.toList
  (c.nested).findSome? fun i =>
    match c.context? i, sizes[i]? with
    | some context, some size =>
        let tracing := trace context size
        tracing.fault.map fun _ => (i, tracing)
    | _, _ => none

/-- The canvas as a try to write it leaves it: an overlay that could not be finished stays. -/
def settled (c : Canvas α) : Canvas α :=
  match stopped? c with
  | some (i, ⟨some figures, _⟩) => c.modify i (·.keepUnfinished figures)
  | _ => c

/-! ## Attributes -/

def number (name : String) (value : Measure) : String × String := (name, value.trimmedText)

def point (p : Point Measure) : String := p.x.trimmedText ++ "," ++ p.y.trimmedText

/-- The style attribute of a shape; a shape's own fill counts unless it is empty. -/
def styleText (s : Shape Measure) (look : Look Measure) : String × String :=
  let fill := match s.ownFill with
    | some own => if own.isEmpty then look.fillColor else own
    | none => look.fillColor
  ("style",
    "fill: " ++ fill ++ "; fill-opacity: " ++ look.fillOpacity.trimmedText ++
      "; stroke: " ++ look.strokeColor ++ "; stroke-opacity: " ++ look.strokeOpacity.trimmedText ++
      "; stroke-width: " ++ look.strokeWidth.trimmedText ++ ";")

def leaf (name : String) (attributes : List (String × String)) : Xml :=
  .element name attributes "" []

def pathOf (outline : String) (s : Shape Measure) (look : Look Measure) : Xml :=
  leaf "path" [("d", outline), styleText s look]

def shapeXml (s : Shape Measure) (look : Look Measure) : Xml :=
  match s with
  | .line a b =>
      leaf "line"
        [number "x1" a.x, number "y1" a.y, number "x2" b.x, number "y2" b.y, styleText s look]
  | .rectangle c w h radius =>
      leaf "rect" <|
        [number "x" c.x, number "y" c.y, number "width" w, number "height" h,
          styleText s look] ++
        match radius with
        | some (rx, ry) => [number "rx" rx, number "ry" ry]
        | none => []
  | .ellipse c rx ry _ =>
      leaf "ellipse"
        [number "cx" c.x, number "cy" c.y, number "rx" rx, number "ry" ry, styleText s look]
  | .arc c rx ry start stop =>
      let large := if stop - start > 180 then "1" else "0"
      pathOf ("M " ++ point (Outline.ellipsePoint c rx ry start) ++ " A " ++ rx.trimmedText ++
        " " ++ ry.trimmedText ++ " 0 " ++ large ++ " 1 " ++
        point (Outline.ellipsePoint c rx ry stop)) s look
  | .head c rx ry angle _ =>
      let corners := match Outline.headCorners c rx ry angle with
        | first :: rest => point first :: "L" :: rest.map point
        | [] => []
      .element "g" [] "" [pathOf ("M " ++ " ".intercalate corners ++ " Z") s look]
  | .curve a b c d =>
      pathOf ("M " ++ point a ++ " C " ++ point b ++ " " ++ point c ++ " " ++ point d) s look
  | .path outline => pathOf outline s look
  | .text p text =>
      .element "text"
        [number "x" p.x, number "y" p.y, number "font-size" look.fontSize,
          ("font-family", look.family), ("fill", look.strokeColor)]
        text []

mutual
def Element.xml : Element Measure → Xml
  | .group shift children =>
      let attributes := match shift with
        | some (dx, dy) =>
            [("transform", "translate(" ++ dx.trimmedText ++ " " ++ dy.trimmedText ++ ")")]
        | none => []
      .element "g" attributes "" (xmlAll children)
  | .overlay figures =>
      .element "g" [("class", "debug")] "" (figures.map fun f => shapeXml f.shape f.look)
  | .figure f => shapeXml f.shape f.look

def xmlAll : List (Element Measure) → List Xml
  | [] => []
  | e :: rest => e.xml :: xmlAll rest
end

/-! ## Documents -/

/-- Half a pixel for an even whole cell size, so that thin lines fall on pixels. -/
def crisp (size : Measure) : Measure :=
  match size.ceil, size.trunc with
  | .ok up, .ok down => if up = down ∧ up % 2 = 0 then .real 0.5 else .whole 0
  | _, _ => .whole 0

/-- The shift of the outermost group, if there is any. -/
def crispShift (cell : CellSize Measure) : Option (Measure × Measure) :=
  let dx := crisp cell.width
  let dy := crisp cell.height
  if dx == .whole 0 && dy == .whole 0 then none else some (dx, dy)

/-- The document element that takes `width` by `height` pixels, with the outermost group in it. -/
def page (root : Option (Element Measure)) (width height : Int) : Xml :=
  let w := toString width
  let h := toString height
  .element "svg"
    [("xmlns", "http://www.w3.org/2000/svg"), ("version", "1.1"),
      ("viewBox", "0 0 " ++ w ++ " " ++ h), ("width", w), ("height", h)]
    "" (root.toList.map Element.xml)

/-- The document element of a canvas that takes `width` by `height` pixels. -/
def documentXml (c : Canvas Measure) (width height : Int) : Xml :=
  page (root? c ((c.context? 0).bind fun root => crispShift root.cell)) width height

def declaration : String := "<?xml version=\"1.0\" encoding=\"UTF-8\"?>\n"

/-- What stops a document from being written, if anything does. -/
def fault? (c : Canvas α) : Option Fault := (stopped? c).bind fun (_, tracing) => tracing.fault

/-- The text of a canvas as a document of its own. -/
def document (c : Canvas Measure) (width height : Int) : String :=
  declaration ++ (documentXml c width height).write

end Svg
end CellSketch
