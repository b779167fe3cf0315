import CellSketch.Canvas
import CellSketch.Number.Measure
import CellSketch.Outline

/-!
# Mvg — a canvas as drawing commands

A drawing in this language is a list of commands that work on a stack of graphics states.  Every
context is enclosed by a push and a pop and starts with the font of its cells; contexts inside it
stand where they were created.  Shapes with a fill of their own get a state of their own.
-/

namespace CellSketch
namespace Mvg

open Number

/-! ## Commands -/

inductive Command (α : Type) where
  | push
  | pop
  | translate (dx dy : α)
  | shape (shape : Shape α)
  /-- A rectangle from the origin. -/
  | frame (width height : α)
  | stroke (change : StrokeChange α)
  | fill (change : FillChange α)
  | font (change : FontChange α)
  | raw (text : String)
  deriving DecidableEq, Repr

variable {α : Type} [Scalar α]

/-- A shape, in a state of its own if it has its own fill. -/
def ofShape (s : Shape α) : List (Command α) :=
  match s.ownFill with
  | some _ => [.push, .shape s, .pop]
  | none => [.shape s]

/-- The commands of something drawn or set, apart from contexts. -/
def ofOwn : Item α → List (Command α)
  | .figure f => ofShape f.shape
  | .shift dx dy => [.translate dx dy]
  | .stroke change => [.stroke change]
  | .fill change => [.fill change]
  | .font change => [.font change]
  | .raw text => [.raw text]
  | .child _ | .hollow | .unfinished _ => []

/-- The commands of items, given those of the contexts after this one. -/
def ofItems (base : Nat) (others : List (Except Fault (List (Command α)))) :
    List (Item α) → Except Fault (List (Command α))
  | [] => .ok []
  | .child index :: rest => do
      let inner ← (Canvas.later? base index others).getD (.ok [])
      let more ← ofItems base others rest
      .ok (inner ++ more)
  | item :: rest => (ofItems base others rest).map (ofOwn item ++ ·)

/-- The commands that show the cells of a context, drawn from where its origin was at first. -/
def ofOverlay (c : Context α) (size : Int × Int) : Except Fault (List (Command α)) :=
  (Canvas.overlay c size).map fun overlay =>
    [.translate (Scalar.whole (-c.origin.x) * c.cell.width)
        (Scalar.whole (-c.origin.y) * c.cell.height),
      .push, .fill { color := some "transparent" }] ++
    overlay.lines.map .shape ++
    [.frame overlay.width overlay.height, .shape overlay.label, .pop]

/-- The commands of a context of a size, given those of the contexts after it. -/
def ofContext (base : Nat) (c : Context α) (size : Int × Int)
    (others : List (Except Fault (List (Command α)))) : Except Fault (List (Command α)) := do
  let drawn ← ofItems base others c.items.toList
  let overlay ← if c.debug = .off then .ok [] else ofOverlay c size
  .ok ([.push, .font { family := some defaultFamily }, .font { size := some c.cell.height }] ++
    drawn ++ overlay ++ [.pop])

/-- The commands of each of the contexts from number `base` on. -/
def contextsFrom (base : Nat) :
    List (Context α) → List (Int × Int) → List (Except Fault (List (Command α)))
  | c :: rest, size :: sizes =>
      let others := contextsFrom (base + 1) rest sizes
      ofContext base c size others :: others
  | _, _ => []

/-- The commands of one context of a canvas. -/
def commands (c : Canvas α) (i : Nat) : Except Fault (List (Command α)) :=
  let contexts := c.contexts.toList
  ((contextsFrom 0 contexts (Canvas.sizesFrom 0 contexts))[i]?).getD (.ok [])

/-- Puts the colours of strokes and fills before everything but the first command. -/
def withColors (foreground fill : String) : List (Command α) → List (Command α)
  | [] => []
  | first :: rest =>
      first :: .stroke { color := some foreground } :: .fill { color := some fill } :: rest

/-- The commands of a whole canvas: those of its first context, with the colours of strokes and
fills. -/
def document (c : Canvas α) (foreground fill : String) : Except Fault (List (Command α)) :=
  (commands c 0).map (withColors foreground fill)

/-! ## Quoting -/

/-- The text with another one in place of a character. -/
def replaceChar (old : Char) (new text : List Char) : List Char :=
  text.flatMap fun c => if c = old then new else [c]

/-- Text between single quotes, in which a backslash makes the next character stand for itself:
first the backslashes of the text get one, then its quotes. -/
def quote (text : List Char) : List Char :=
  '\'' :: replaceChar '\'' ['\\', '\''] (replaceChar '\\' ['\\', '\\'] text) ++ ['\'']

/-- The text up to the closing quote, and what follows it. -/
def unquoteBody : List Char → Option (List Char × List Char)
  | [] => none
  | '\'' :: rest => some ([], rest)
  | '\\' :: c :: rest => (unquoteBody rest).map fun (text, after) => (c :: text, after)
  | c :: rest => (unquoteBody rest).map fun (text, after) => (c :: text, after)

/-- Reads quoted text from the start of a list of characters. -/
def unquote : List Char → Option (List Char × List Char)
  | '\'' :: rest => unquoteBody rest
  | _ => none

/-! ## Text -/

def quoted (text : String) : String := String.ofList (quote text.toList)

def point (p : Point Measure) : String := p.x.fixedText ++ "," ++ p.y.fixedText

def pair (a b : Measure) : String := a.fixedText ++ "," ++ b.fixedText

/-- A setting with its value, if it is changed. -/
def setting (name : String) (value : Option String) : List String :=
  value.toList.map (name ++ " " ++ ·)

def strokeText (c : StrokeChange Measure) : String :=
  " ".intercalate (
    setting "stroke-antialias" (c.smooth.map fun b => if b then "1" else "0") ++
    setting "stroke-width" (c.width.map Measure.fixedText) ++
    setting "stroke" c.color ++
    setting "stroke-opacity" (c.opacity.map Measure.fixedText))

def fillText (c : FillChange Measure) : String :=
  " ".intercalate (
    setting "fill" c.color ++ setting "fill-opacity" (c.opacity.map Measure.fixedText))

def fontText (c : FontChange Measure) : String :=
  " ".intercalate (
    setting "font" c.family ++ setting "font-size" (c.size.map Measure.fixedText))

def shapeText : Shape Measure → String
  | .line a b => "line " ++ point a ++ " " ++ point b
  | .rectangle c w h none => "rectangle " ++ point c ++ " " ++ pair (c.x + w) (c.y + h)
  | .rectangle c w h (some (rx, ry)) =>
      "roundrectangle " ++ point c ++ " " ++ pair (c.x + w) (c.y + h) ++ " " ++ pair rx ry
  | .ellipse c rx ry fill =>
      "fill " ++ fill ++ " ellipse " ++ point c ++ " " ++ pair rx ry ++ " 0,360"
  | .arc c rx ry start stop =>
      "fill transparent ellipse " ++ point c ++ " " ++ pair rx ry ++ " " ++
        pair (.whole start) (.whole stop)
  | .head c rx ry angle fill =>
      "fill " ++ fill ++ " path 'M " ++
        " ".intercalate (match Outline.headCorners c rx ry angle with
          | first :: rest => point first :: "L" :: rest.map point
          | [] => []) ++ " Z'"
  | .curve a b c d =>
      "path 'M " ++ point a ++ " C " ++ point b ++ " " ++ point c ++ " " ++ point d ++ "'"
  | .path outline => "path " ++ quoted outline
  | .text p text => "text " ++ point p ++ " " ++ quoted text

def Command.text : Command Measure → String
  | .push => "push graphic-context"
  | .pop => "pop graphic-context"
  | .translate dx dy => "translate " ++ pair dx dy
  | .shape s => shapeText s
  | .frame width height => "rectangle 0,0 " ++ pair width height
  | .stroke change => strokeText change
  | .fill change => fillText change
  | .font change => fontText change
  | .raw text => text

end Mvg
end CellSketch
