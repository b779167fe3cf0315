import CellSketch.Number.Rounding

/-!
# Binary64 — doubles as exact numbers

Every finite double is a whole multiple of the smallest positive one, `2 ^ (-1074)`.  This module
reads a double as that multiple and, the other way round, finds the double nearest to a quotient
of natural numbers.
-/

namespace CellSketch
namespace Number

/-- The exact content of a double; `units` counts multiples of `2 ^ (-1074)`. -/
inductive Decoded where
  | finite (negative : Bool) (units : Nat)
  | infinite (negative : Bool)
  | notANumber
  deriving DecidableEq, Repr

namespace Binary64

/-- How many units make one. -/
def one : Nat := Nat.pow 2 1074

/-- Splits the 64 bits into sign, exponent and fraction and reads off the value. -/
def decodeBits (bits : Nat) : Decoded :=
  let negative := bits / Nat.pow 2 63 % 2 == 1
  let exponent := bits / Nat.pow 2 52 % Nat.pow 2 11
  let fraction := bits % Nat.pow 2 52
  if exponent = 2047 then
    if fraction = 0 then .infinite negative else .notANumber
  else if exponent = 0 then .finite negative fraction
  else .finite negative ((Nat.pow 2 52 + fraction) * Nat.pow 2 (exponent - 1))

def decode (x : Float) : Decoded := decodeBits x.toBits.toNat

/-- The bits of the double nearest to `num / den`, and `none` when that is too large for one.
The significand keeps 53 bits, fewer only below the smallest normal number; written beside each
other, the shift and the rounded significand are the bits of the result, also when rounding
carries into the next power of two. -/
def nearestBits? (num den : Nat) : Option Nat :=
  let units := num * one
  let shift := (units / den).log2 + 1 - 53
  let bits := shift * Nat.pow 2 52 + nearestEven units (den * Nat.pow 2 shift)
  if bits < 2047 * Nat.pow 2 52 then some bits else none

/-- The double nearest to `num / den`, unless that is too large. -/
def ofQuotient? (num : Int) (den : Nat) : Option Float :=
  (nearestBits? num.natAbs den).map fun bits =>
    Float.ofBits (UInt64.ofNat (if num < 0 then bits + Nat.pow 2 63 else bits))

/-- The double nearest to a whole number, unless that is too large. -/
def ofInt? (n : Int) : Option Float := ofQuotient? n 1

/-- The units of a finite double with its sign. -/
def signed (negative : Bool) (units : Nat) : Int := if negative then -units else units

/-- The whole number at or above a finite double. -/
def ceilUnits (negative : Bool) (units : Nat) : Int :=
  if negative then -((units / one : Nat) : Int) else ((units + (one - 1)) / one : Nat)

/-- A finite double cut toward zero. -/
def truncUnits (negative : Bool) (units : Nat) : Int :=
  if negative then -((units / one : Nat) : Int) else (units / one : Nat)

/-- The whole number nearest to a finite double; a half goes to the even neighbour. -/
def roundUnits (negative : Bool) (units : Nat) : Int := signed negative (nearestEven units one)

end Binary64
end Number
end CellSketch
