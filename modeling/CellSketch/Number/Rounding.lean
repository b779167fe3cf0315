/-!
# Rounding — the whole number nearest to a quotient

Every rounding in this library goes to the nearest whole number and sends a half to the even
neighbour.  This module states that rule once, for quotients of natural numbers and for rationals.

Main statements:

* `nearestEven_mul` — a quotient without remainder is not changed;
* `nearestEven_bounds` — the result is at most one half away from the quotient.
-/

namespace CellSketch
namespace Number

/-- The whole number nearest to `num / den`; a half goes to the even neighbour. -/
def nearestEven (num den : Nat) : Nat :=
  if 2 * (num % den) < den then num / den
  else if den < 2 * (num % den) then num / den + 1
  else if num / den % 2 = 0 then num / den
  else num / den + 1

/-- The whole number nearest to a rational; a half goes to the even neighbour. -/
def roundRat (x : Rat) : Int :=
  if x.num < 0 then -(nearestEven x.num.natAbs x.den : Int)
  else nearestEven x.num.natAbs x.den

/-! ## Small facts -/

theorem nearestEven_mul (n den : Nat) (h : 0 < den) : nearestEven (n * den) den = n := by
  simp [nearestEven, h]

theorem nearestEven_bounds (num den : Nat) (h : 0 < den) :
    2 * num ≤ (2 * nearestEven num den + 1) * den ∧
      2 * (nearestEven num den * den) ≤ 2 * num + den := by
  have hdm := Nat.div_add_mod num den
  have hlt := Nat.mod_lt num h
  rw [Nat.mul_comm] at hdm
  unfold nearestEven
  generalize num / den = q at *
  generalize num % den = r at *
  subst hdm
  split
  · constructor <;> grind
  · split
    · constructor <;> grind
    · split <;> constructor <;> grind

end Number
end CellSketch
