import CellSketch.Number.Rounding

/-!
# Scalar — the arithmetic that drawing needs

The geometry of this library is written once, over any type with this small arithmetic.  Drawings
are made with `Measure` (whole cells and doubles); the rationals are the exact arithmetic in which
the geometry can be reasoned about.
-/

namespace CellSketch
namespace Number

/-- Why a number cannot be used where it is needed. -/
inductive Fault where
  /-- A whole number beyond the range of doubles. -/
  | tooLarge
  /-- An infinite double where a whole number is needed. -/
  | infinite
  /-- A double that is no number where a whole number is needed. -/
  | notANumber
  /-- An infinite angle, which has no direction. -/
  | endlessTurn
  deriving DecidableEq, Repr

/-- Numbers for coordinates and pixel positions. -/
class Scalar (α : Type) extends Add α, Sub α, Mul α, Div α, BEq α where
  /-- A whole number, exactly. -/
  whole : Int → α
  /-- The same number as a measured quantity, rounded where the type rounds. -/
  measure : α → α
  /-- One half. -/
  half : α
  /-- The smallest whole number that is not below. -/
  ceil : α → Except Fault Int
  /-- The whole part, cut toward zero. -/
  trunc : α → Except Fault Int
  /-- The nearest whole number; a half goes to the even neighbour. -/
  round : α → Except Fault Int
  /-- The larger of two numbers, and the first one unless the second is larger. -/
  larger : α → α → α
  /-- The number itself, and zero instead of anything that is not positive. -/
  positivePart : α → α
  /-- The fault that stands in the place of a number, if any. -/
  fault? : α → Option Fault

namespace Scalar

/-- A whole number as a measured quantity. -/
def measured [Scalar α] (n : Int) : α := measure (whole n)

instance : Scalar Rat where
  whole n := n
  measure x := x
  half := 1 / 2
  ceil x := .ok x.ceil
  trunc x := .ok (if x < 0 then x.ceil else x.floor)
  round x := .ok (roundRat x)
  larger x y := if x < y then y else x
  positivePart x := if 0 < x then x else 0
  fault? _ := none

/-- The first fault among numbers. -/
def firstFault? [Scalar α] (numbers : List α) : Option Fault := numbers.findSome? fault?

end Scalar

/-- A position in the plane. -/
structure Point (α : Type) where
  x : α
  y : α
  deriving DecidableEq, Repr

namespace Point

variable {α : Type} [Scalar α]

def numbers (p : Point α) : List α := [p.x, p.y]

/-- The position that is as far to the right and as far down as any of the given ones. -/
def farthest (p : Point α) (others : List (Point α)) : Point α :=
  others.foldl (fun a b => ⟨Scalar.larger a.x b.x, Scalar.larger a.y b.y⟩) p

end Point

end Number
end CellSketch
