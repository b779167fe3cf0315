import CellSketch.Error
import CellSketch.Text.DecimalDigit

/-!
# Spec — sizes written as text

A scale is written `WxH`, where either number may be missing but not both; a cell size is written
`WxH` or as one number for square cells.  One line break at the end is allowed.
-/

namespace CellSketch
namespace Spec

/-- The text without one line feed at its end. -/
def dropFinalBreak (cs : List Char) : List Char :=
  if cs.getLast? = some '\n' then cs.dropLast else cs

/-- The two parts around the first `x`, if there is one. -/
def splitAtX (cs : List Char) : List Char × Option (List Char) :=
  match cs.dropWhile (· != 'x') with
  | [] => (cs, none)
  | _ :: after => (cs.takeWhile (· != 'x'), some after)

def isNumber (cs : List Char) : Bool := !cs.isEmpty && cs.all Text.isDecimalDigit

/-- Whether a text is a scale. -/
def isScale (cs : List Char) : Bool :=
  match splitAtX (dropFinalBreak cs) with
  | (width, some height) =>
      (width.isEmpty || isNumber width) && (height.isEmpty || isNumber height) &&
        !(width.isEmpty && height.isEmpty)
  | _ => false

/-- Reads a number, unless it has too many digits. -/
def readNumber (cs : List Char) : Except Error Nat :=
  if cs.length ≤ Error.digitLimit then .ok (Text.numberOfDigits cs)
  else .error (.tooManyDigits cs.length)

/-- Reads a cell size as width and height. -/
def cellSize (cs : List Char) : Except Error (Nat × Nat) :=
  match splitAtX (dropFinalBreak cs) with
  | (side, none) =>
      if isNumber side then do
        let n ← readNumber side
        .ok (n, n)
      else .error .wrongCellSize
  | (width, some height) =>
      if isNumber width && isNumber height then do
        let w ← readNumber width
        let h ← readNumber height
        .ok (w, h)
      else .error .wrongCellSize

end Spec
end CellSketch
