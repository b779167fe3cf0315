/-!
# Runs — sets of characters written as alternating boundaries

A character class is written as the ascending list of code points at which membership changes.
The first boundary opens a run, the next one closes it, and so on, so a code point belongs to the
class exactly when an odd number of boundaries lies at or below it.
-/

namespace CellSketch
namespace Text

/-- How many of the ascending boundaries lie at or below `n`, by bisection between `lo` and `hi`. -/
def countBelow (bounds : Array Nat) (n : Nat) : (fuel lo hi : Nat) → Nat
  | 0, lo, _ => lo
  | fuel + 1, lo, hi =>
      if lo < hi then
        let mid := (lo + hi) / 2
        if bounds.getD mid 0 ≤ n then countBelow bounds n fuel (mid + 1) hi
        else countBelow bounds n fuel lo mid
      else lo

/-- Membership in the class with these boundaries. -/
def inRuns (bounds : Array Nat) (c : Char) : Bool :=
  countBelow bounds c.toNat bounds.size 0 bounds.size % 2 == 1

end Text
end CellSketch
