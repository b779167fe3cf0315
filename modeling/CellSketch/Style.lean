import CellSketch.Number.Scalar

/-!
# Style — how shapes are stroked, filled and lettered

A style holds everything that is not geometry.  Changes name the settings they touch and leave the
others alone; a look is what a style amounts to for one shape at the moment it is drawn.
-/

namespace CellSketch

open Number

/-! ## Colours -/

/-- A colour as it may be given: by name or notation, or by red, green and blue. -/
inductive ColorSpec (α : Type) where
  | named (text : String)
  | rgb (red green blue : α)

/-- The notation of a colour; fractions of the components are cut off. -/
def ColorSpec.text {α : Type} [Scalar α] : ColorSpec α → Except Fault String
  | .named text => .ok text
  | .rgb red green blue => do
      let r ← Scalar.trunc red
      let g ← Scalar.trunc green
      let b ← Scalar.trunc blue
      .ok ("rgb(" ++ toString r ++ "," ++ toString g ++ "," ++ toString b ++ ")")

/-- The font of all text. -/
def defaultFamily : String := "Courier"

/-! ## Settings -/

structure Stroke (α : Type) where
  color : String
  width : α
  opacity : α
  deriving DecidableEq, Repr

structure Fill (α : Type) where
  color : String
  opacity : α
  deriving DecidableEq, Repr

/-- A font; without a size of its own it is as high as a cell. -/
structure Font (α : Type) where
  family : String
  size : Option α
  deriving DecidableEq, Repr

structure Style (α : Type) where
  /-- The colour of the canvas. -/
  background : String
  stroke : Stroke α
  fill : Fill α
  font : Font α
  deriving DecidableEq, Repr

/-- A style with the given colours and everything else at its default. -/
def Style.ofColors {α : Type} [Scalar α] (background foreground fill : String) : Style α where
  background := background
  stroke := ⟨foreground, Scalar.whole 1, Scalar.measured 1⟩
  fill := ⟨fill, Scalar.measured 1⟩
  font := ⟨defaultFamily, none⟩

/-! ## Changes -/

/-- New stroke settings; smoothing of edges is passed on to the renderer and not kept. -/
structure StrokeChange (α : Type) where
  smooth : Option Bool := none
  width : Option α := none
  color : Option String := none
  opacity : Option α := none
  deriving DecidableEq, Repr

structure FillChange (α : Type) where
  color : Option String := none
  opacity : Option α := none
  deriving DecidableEq, Repr

structure FontChange (α : Type) where
  family : Option String := none
  size : Option α := none
  deriving DecidableEq, Repr

namespace StrokeChange

def isEmpty {α : Type} (c : StrokeChange α) : Bool :=
  c.smooth.isNone && c.width.isNone && c.color.isNone && c.opacity.isNone

def apply {α : Type} (c : StrokeChange α) (s : Stroke α) : Stroke α :=
  ⟨c.color.getD s.color, c.width.getD s.width, c.opacity.getD s.opacity⟩

def numbers {α : Type} (c : StrokeChange α) : List α := c.width.toList ++ c.opacity.toList

end StrokeChange

namespace FillChange

def isEmpty {α : Type} (c : FillChange α) : Bool := c.color.isNone && c.opacity.isNone

def apply {α : Type} (c : FillChange α) (f : Fill α) : Fill α :=
  ⟨c.color.getD f.color, c.opacity.getD f.opacity⟩

def numbers {α : Type} (c : FillChange α) : List α := c.opacity.toList

end FillChange

namespace FontChange

def isEmpty {α : Type} (c : FontChange α) : Bool := c.family.isNone && c.size.isNone

def apply {α : Type} (c : FontChange α) (f : Font α) : Font α :=
  ⟨c.family.getD f.family, c.size <|> f.size⟩

def numbers {α : Type} (c : FontChange α) : List α := c.size.toList

end FontChange

/-! ## Looks -/

/-- The settings that a drawn shape keeps. -/
structure Look (α : Type) where
  strokeColor : String
  strokeWidth : α
  strokeOpacity : α
  fillColor : String
  fillOpacity : α
  family : String
  fontSize : α
  deriving DecidableEq, Repr

/-- What a style amounts to in cells of a height; a font size of zero counts as none. -/
def Style.look {α : Type} [Scalar α] (s : Style α) (cellHeight : α) : Look α where
  strokeColor := s.stroke.color
  strokeWidth := s.stroke.width
  strokeOpacity := s.stroke.opacity
  fillColor := s.fill.color
  fillOpacity := s.fill.opacity
  family := s.font.family
  fontSize :=
    match s.font.size with
    | some size => if size == Scalar.whole 0 then cellHeight else size
    | none => cellHeight

end CellSketch
