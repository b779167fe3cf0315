/-!
# Blank — white space, and text without it at the ends

The set is Unicode's white space together with the four separators `1c` to `1f`.
-/

namespace CellSketch
namespace Text

/-- White space in the sense of every rule of this library. -/
def isBlank (c : Char) : Bool :=
  let n := c.toNat
  (9 ≤ n && n ≤ 13) || (28 ≤ n && n ≤ 32) || n == 0x85 || n == 0xa0 || n == 0x1680 ||
    (0x2000 ≤ n && n ≤ 0x200a) || n == 0x2028 || n == 0x2029 || n == 0x202f || n == 0x205f ||
    n == 0x3000

/-- The text without the blanks at its end. -/
def stripEnd (cs : List Char) : List Char := (cs.reverse.dropWhile isBlank).reverse

/-- The text without the blanks at both ends. -/
def strip (cs : List Char) : List Char := stripEnd (cs.dropWhile isBlank)

end Text
end CellSketch
