import CellSketch.Number.Binary64

/-!
# Decimal — doubles written with a fixed number of decimal places

A finite double is rounded once, from its exact value, to a whole number of units of the last
place; the text is then a matter of digits.  Two layouts are used: `fixed` writes every place, and
`trimmed` strips that text of zeros and of the point at its end, and of the sign of zero.
-/

namespace CellSketch
namespace Number
namespace Decimal

/-- A double rounded to whole units of the last of `places` decimal places. -/
def scaled (places units : Nat) : Nat := nearestEven (units * Nat.pow 10 places) Binary64.one

def digits (n : Nat) : List Char := Nat.toDigits 10 n

/-- The digits of `n` behind the point, filled up with zeros to `places`. -/
def paddedDigits (places n : Nat) : List Char :=
  List.replicate (places - (digits n).length) '0' ++ digits n

/-- Every place is written, and a negative number keeps its sign even when it rounds to zero. -/
def fixedDigits (places : Nat) (negative : Bool) (n : Nat) : List Char :=
  (if negative then ['-'] else []) ++ digits (n / Nat.pow 10 places) ++
    '.' :: paddedDigits places (n % Nat.pow 10 places)

/-- Leaves out a character at the end, as often as it stands there. -/
def stripRight (c : Char) (cs : List Char) : List Char := (cs.reverse.dropWhile (· == c)).reverse

/-- Leaves out zeros at the end, and then points; where nothing or a zero with a sign is left, it is
zero. -/
def trim (cs : List Char) : List Char :=
  let text := stripRight '.' (stripRight '0' cs)
  if text = [] ∨ text = ['-', '0'] then ['0'] else text

/-- The text of a double, given how a finite one is written. -/
def write (finite : Bool → Nat → List Char) : Decoded → List Char
  | .finite negative units => finite negative units
  | .infinite false => "inf".toList
  | .infinite true => "-inf".toList
  | .notANumber => "nan".toList

/-- A double with every place. -/
def fixedChars (places : Nat) (x : Float) : List Char :=
  write (fun negative units => fixedDigits places negative (scaled places units))
    (Binary64.decode x)

def fixed (places : Nat) (x : Float) : String := String.ofList (fixedChars places x)

def trimmed (places : Nat) (x : Float) : String := String.ofList (trim (fixedChars places x))

end Decimal
end Number
end CellSketch
