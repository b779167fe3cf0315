import CellSketch.Number.Binary64
import CellSketch.Number.Decimal
import CellSketch.Number.Scalar

/-!
# Measure — whole numbers that stay exact until they meet a double

A coordinate is a whole number of cells or a double.  Whole numbers are unbounded and exact among
themselves; as soon as one meets a double it is rounded to the nearest double, and a whole number
beyond the range of doubles leaves `tooLarge` behind, which every later operation keeps.
-/

namespace CellSketch
namespace Number

/-- A whole number, a double, or the mark of a whole number that fits in no double. -/
inductive Measure where
  | whole (n : Int)
  | real (x : Float)
  | tooLarge

namespace Measure

/-- The nearest double, unless there is none. -/
def toFloat? : Measure → Option Float
  | whole n => Binary64.ofInt? n
  | real x => some x
  | tooLarge => none

/-- The nearest double, infinity where there is none. -/
def toFloat (m : Measure) : Float :=
  match m.toFloat?, m with
  | some x, _ => x
  | none, whole n => if n < 0 then -(1.0 / 0.0) else 1.0 / 0.0
  | none, _ => 1.0 / 0.0

/-- A double, or the mark of a number without one. -/
def ofFloat? : Option Float → Measure
  | some x => real x
  | none => tooLarge

/-- A double operation on two measures. -/
def onFloats (op : Float → Float → Float) (a b : Measure) : Measure :=
  match a.toFloat?, b.toFloat? with
  | some x, some y => real (op x y)
  | _, _ => tooLarge

def add : Measure → Measure → Measure
  | whole m, whole n => whole (m + n)
  | a, b => onFloats (· + ·) a b

def sub : Measure → Measure → Measure
  | whole m, whole n => whole (m - n)
  | a, b => onFloats (· - ·) a b

def mul : Measure → Measure → Measure
  | whole m, whole n => whole (m * n)
  | a, b => onFloats (· * ·) a b

/-- The quotient of two whole numbers is the double nearest to their exact quotient. -/
def div : Measure → Measure → Measure
  | whole m, whole n => ofFloat? (Binary64.ofQuotient? (if n < 0 then -m else m) n.natAbs)
  | a, b => onFloats (· / ·) a b

/-- Equality of values: zero has no sign here, and what is no number equals nothing. -/
def beq : Measure → Measure → Bool
  | whole m, whole n => m == n
  | a, b =>
      match a.toFloat?, b.toFloat? with
      | some x, some y => x == y
      | _, _ => false

/-- Whether the first number is smaller.  The comparison is exact, also between a whole number and
a double; what is no number is neither smaller nor larger than anything. -/
def less : Measure → Measure → Bool
  | whole m, whole n => m < n
  | real x, real y => x < y
  | whole m, real y =>
      match Binary64.decode y with
      | .finite negative units => m * Binary64.one < Binary64.signed negative units
      | .infinite negative => !negative
      | .notANumber => false
  | real x, whole n =>
      match Binary64.decode x with
      | .finite negative units => Binary64.signed negative units < n * Binary64.one
      | .infinite negative => negative
      | .notANumber => false
  | _, _ => false

def larger (a b : Measure) : Measure := if a.less b then b else a

/-- A whole number next to a number, by what it is next to a finite double. -/
def toWhole (next : Bool → Nat → Int) : Measure → Except Fault Int
  | whole n => .ok n
  | real x =>
      match Binary64.decode x with
      | .finite negative units => .ok (next negative units)
      | .infinite _ => .error .infinite
      | .notANumber => .error .notANumber
  | tooLarge => .error .tooLarge

def ceil : Measure → Except Fault Int := toWhole Binary64.ceilUnits

def trunc : Measure → Except Fault Int := toWhole Binary64.truncUnits

def round : Measure → Except Fault Int := toWhole Binary64.roundUnits

def positivePart : Measure → Measure
  | whole n => if 0 < n then whole n else real 0.0
  | real x => if x > 0.0 then real x else real 0.0
  | tooLarge => tooLarge

/-- The nearest double in place of a whole number. -/
def measure (m : Measure) : Measure := ofFloat? m.toFloat?

instance : Scalar Measure where
  add := add
  sub := sub
  mul := mul
  div := div
  beq := beq
  whole := whole
  measure := measure
  half := real 0.5
  ceil := ceil
  trunc := trunc
  round := round
  larger := larger
  positivePart := positivePart
  fault?
    | whole n => if (Binary64.ofInt? n).isSome then none else some .tooLarge
    | real _ => none
    | tooLarge => some .tooLarge

/-! ## Text -/

/-- Six decimal places, all of them written. -/
def fixedText (m : Measure) : String := Decimal.fixed 6 m.toFloat

/-- Up to four decimal places, without trailing zeros. -/
def trimmedText (m : Measure) : String := Decimal.trimmed 4 m.toFloat

end Measure
end Number
end CellSketch
