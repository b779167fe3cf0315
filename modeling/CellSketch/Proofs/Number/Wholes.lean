import Mathlib.Data.Nat.Log
import Mathlib.Data.Rat.Floor
import Mathlib.Tactic.Linarith
import Mathlib.Tactic.Positivity
import CellSketch.Number.Measure

/-!
# Wholes — whole numbers and the numbers that measures stand for

A measure stands for an exact number unless it is infinite or no number at all, and the whole number
that it is cut to is the one next to it toward zero.  The other way round, a whole number has a
nearest double if and only if it lies below a fixed threshold, for rounding to a double keeps the
order of whole numbers.

* `Measure.value?`, `cut` — the number behind a measure, and its whole part;
* `toOption_trunc` — measures are cut as the numbers that they stand for;
* `nearestBits_mono` — rounding keeps the order;
* `isSome_ofInt?_iff` — which whole numbers have a double.
-/

namespace CellSketch
namespace Number

/-! ## Cutting toward zero -/

/-- A number cut toward zero. -/
def cut (x : Rat) : Int := if x < 0 then ⌈x⌉ else ⌊x⌋

/-- The number that a measure stands for, if it is finite. -/
def Measure.value? : Measure → Option Rat
  | .whole n => some n
  | .real x =>
      match Binary64.decode x with
      | .finite negative units => some (Binary64.signed negative units / Binary64.one)
      | _ => none
  | .tooLarge => none

theorem cut_intCast (n : Int) : cut n = n := by
  rw [cut, Int.ceil_intCast, Int.floor_intCast, ite_self]

theorem cut_neg (x : Rat) : cut (-x) = -cut x := by
  rw [cut, cut, Int.ceil_neg, Int.floor_neg]
  rcases lt_trichotomy x 0 with h | rfl | h
  · rw [if_neg (by linarith), if_pos h]
  · simp
  · rw [if_pos (by linarith), if_neg (by linarith)]

theorem cut_natCast_div (m n : Nat) : cut (m / n) = (m / n : Nat) := by
  have hnonneg : (0 : Rat) ≤ m / n := by positivity
  rw [cut, if_neg (not_lt.2 hnonneg), Rat.floor_natCast_div_natCast, Int.natCast_ediv]

/-- The units of a double are cut as its exact value. -/
theorem cut_signed (negative : Bool) (units : Nat) :
    cut (Binary64.signed negative units / Binary64.one) = Binary64.truncUnits negative units := by
  cases negative with
  | false => exact cut_natCast_div units Binary64.one
  | true =>
      have hneg : (Binary64.signed true units : Rat) / Binary64.one =
          -((units : Rat) / Binary64.one) := by
        rw [Binary64.signed, if_pos rfl, Int.cast_neg, Int.cast_natCast, neg_div]
      rw [hneg, cut_neg, cut_natCast_div]
      rfl

/-- A measure is cut if and only if it stands for a number, and then as that number. -/
theorem toOption_trunc (m : Measure) : (Scalar.trunc m).toOption = m.value?.map cut := by
  cases m with
  | whole n => exact congrArg some (cut_intCast n).symm
  | real x =>
      change (Measure.trunc (.real x)).toOption = _
      rw [Measure.trunc, Measure.toWhole, Measure.value?]
      cases Binary64.decode x with
      | finite negative units => exact congrArg some (cut_signed negative units).symm
      | infinite negative => rfl
      | notANumber => rfl
  | tooLarge => rfl

/-! ## Whole numbers that have a double -/

theorem nearestEven_mono (den : Nat) {m n : Nat} (h : m ≤ n) :
    nearestEven m den ≤ nearestEven n den := by
  have hquotient := Nat.div_le_div_right (c := den) h
  have hm := Nat.div_add_mod m den
  have hn := Nat.div_add_mod n den
  unfold nearestEven
  rcases hquotient.lt_or_eq with hlt | heq
  · -- rounding up goes no further than to the next quotient
    split_ifs <;> omega
  · rw [heq] at hm ⊢
    split_ifs <;> omega

/-- The bits of the double nearest to a whole number, as if exponents had no limit. -/
def nearestBits (n : Nat) : Nat :=
  let units := n * Binary64.one
  let shift := units.log2 + 1 - 53
  shift * 2 ^ 52 + nearestEven units (2 ^ shift)

theorem nearestBits?_one (n : Nat) : Binary64.nearestBits? n 1 =
    if nearestBits n < 2047 * 2 ^ 52 then some (nearestBits n) else none := by
  simp only [Binary64.nearestBits?, nearestBits, Nat.div_one, Nat.one_mul, Nat.pow_eq]
  rfl

/-- The significand of a number that is shifted has all of its bits. -/
theorem significand_bounds_of_shift {units shift : Nat} (hshift : shift = units.log2 + 1 - 53) :
    nearestEven units (2 ^ shift) ≤ 2 ^ 53 ∧
      (0 < shift → 2 ^ 52 ≤ nearestEven units (2 ^ shift)) := by
  have hpos := Nat.two_pow_pos shift
  constructor
  · have hlarge : units ≤ 2 ^ 53 * 2 ^ shift := by
      rw [← Nat.pow_add]
      exact (Nat.lt_log2_self.trans_le (Nat.pow_le_pow_right Nat.two_pos (by omega))).le
    exact (nearestEven_mono _ hlarge).trans_eq (nearestEven_mul _ _ hpos)
  · intro hshifted
    have hsmall : 2 ^ 52 * 2 ^ shift ≤ units := by
      rw [← Nat.pow_add]
      have hunits : units ≠ 0 := by
        rintro rfl
        simp [hshift] at hshifted
      exact (Nat.pow_le_pow_right Nat.two_pos (by omega)).trans (Nat.log2_self_le hunits)
    exact (nearestEven_mul _ _ hpos).symm.trans_le (nearestEven_mono _ hsmall)

/-- Rounding to a double keeps the order of whole numbers. -/
theorem nearestBits_mono {m n : Nat} (h : m ≤ n) : nearestBits m ≤ nearestBits n := by
  have hunits : m * Binary64.one ≤ n * Binary64.one := Nat.mul_le_mul_right _ h
  rw [nearestBits, nearestBits]
  generalize m * Binary64.one = a at hunits ⊢
  generalize n * Binary64.one = b at hunits ⊢
  have hlog : a.log2 ≤ b.log2 := by
    rw [Nat.log2_eq_log_two, Nat.log2_eq_log_two]
    exact Nat.log_mono_right hunits
  obtain ⟨s, hs⟩ : ∃ s, s = a.log2 + 1 - 53 := ⟨_, rfl⟩
  obtain ⟨t, ht⟩ : ∃ t, t = b.log2 + 1 - 53 := ⟨_, rfl⟩
  have hst : s ≤ t := by omega
  rw [← hs, ← ht]
  rcases hst.eq_or_lt with rfl | hlt
  · exact Nat.add_le_add_left (nearestEven_mono _ hunits) _
  · -- one more shift outweighs the largest significand
    have hupper := (significand_bounds_of_shift hs).1
    have hlower := (significand_bounds_of_shift ht).2 (by omega)
    omega

/-- The least whole number without a double. -/
def doubleLimit : Nat := 2 ^ 1024 - 2 ^ 970

theorem nearestBits_lt_iff (n : Nat) : nearestBits n < 2047 * 2 ^ 52 ↔ n < doubleLimit := by
  have hlimit : 2047 * 2 ^ 52 ≤ nearestBits doubleLimit := by decide +kernel
  have hbelow : nearestBits (doubleLimit - 1) < 2047 * 2 ^ 52 := by decide +kernel
  constructor
  · intro h
    by_contra hge
    exact absurd (hlimit.trans (nearestBits_mono (not_lt.1 hge))) (not_le.2 h)
  · intro h
    exact (nearestBits_mono (Nat.le_sub_one_of_lt h)).trans_lt hbelow

/-- A whole number has a nearest double if and only if it lies below the limit. -/
theorem isSome_ofInt?_iff (n : Int) :
    (Binary64.ofInt? n).isSome = true ↔ n.natAbs < doubleLimit := by
  rw [Binary64.ofInt?, Binary64.ofQuotient?, nearestBits?_one, Option.isSome_map,
    ← nearestBits_lt_iff]
  split <;> simp_all

end Number
end CellSketch
