import Mathlib.Tactic.Linarith
import Mathlib.Tactic.NormNum
import CellSketch.Proofs.Connection.FarEnds
import CellSketch.Proofs.Number.Doubles

/-!
# Halves — arithmetic in which halves of cells are exact

What is planned and drawn on cells needs little of the arithmetic it is done in: positions are
halves of whole numbers, they are compared and rounded up to whole cells, and no number on the way
stands for a fault.  Both arithmetics of this library do as much, the rationals without a bound, and
doubles for fewer than `2 ^ 52` columns and rows.

* `Halves` — what is needed;
* `Halves.rational`, `Halves.doubles` — the two arithmetics that have it.
-/

namespace CellSketch

open Number Connection

/-- Arithmetic that is exact on halves of whole numbers from zero up to a limit. -/
structure Halves (α : Type) [Scalar α] (limit : Int) where
  /-- Numbers that work may go on with. -/
  Usable : α → Prop
  /-- A number is so many halves. -/
  Stands : α → Int → Prop
  fault_none : ∀ {x}, Usable x → Scalar.fault? x = none
  fault_whole : ∀ {n}, -limit ≤ n → n ≤ limit → Scalar.fault? (Scalar.whole n : α) = none
  add : ∀ {x y}, Usable x → Usable y → Usable (x + y)
  sub : ∀ {x y}, Usable x → Usable y → Usable (x - y)
  times : ∀ {n x}, 0 ≤ n → n ≤ limit → Usable x → Usable (Scalar.whole n * x)
  times_usable : ∀ {x y}, Usable x → Usable y → Usable (x * y)
  halve : ∀ {x}, Usable x → Usable (x / Scalar.whole 2)
  add_zero : ∀ {x}, Usable x → Usable (x + Scalar.whole 0)
  /-- The middle between two cells. -/
  between : ∀ {n}, 0 ≤ n → n ≤ limit → Usable (Scalar.whole n + Scalar.half) ∧
    Usable (Scalar.whole n - Scalar.half)
  /-- Angles of heads are usable and have a direction. -/
  angle : ∀ {d}, -360 ≤ d → d ≤ 360 → Usable (Scalar.measured d) ∧
    ∃ n, Scalar.trunc (Scalar.measured d : α) = .ok n
  fault_angle : ∀ {d}, -360 ≤ d → d ≤ 360 → Scalar.fault? (Scalar.whole d : α) = none
  usable : ∀ {x k}, Stands x k → Usable x
  middle : ∀ {n}, 0 ≤ n → n ≤ limit → Stands (Scalar.measured n) (2 * n)
  before : ∀ {n d} (round : Bool), 0 ≤ n → n ≤ limit → (d = -1 ∨ d = 0 ∨ d = 1) →
    Stands (Scalar.whole n - Scalar.whole d * insetOf round) (2 * n - d * insetHalves round)
  after : ∀ {n d} (round : Bool), 0 ≤ n → n ≤ limit → (d = -1 ∨ d = 0 ∨ d = 1) →
    Stands (Scalar.whole n + Scalar.whole d * insetOf round) (2 * n + d * insetHalves round)
  beq : ∀ {x y j k}, Stands x j → Stands y k → (x == y) = decide (j = k)
  larger : ∀ {x y j k}, Stands x j → Stands y k → Stands (Scalar.larger x y) (max j k)
  ceil : ∀ {x k}, Stands x k → Scalar.ceil x = .ok ((k + 1) / 2)
  ceil_whole : ∀ n, Scalar.ceil (Scalar.whole n : α) = .ok n
  trunc_whole : ∀ n, Scalar.trunc (Scalar.whole n : α) = .ok n

namespace Halves

/-! ## Rationals -/

theorem ceil_half (k : Int) : ((k : Rat) / 2).ceil = (k + 1) / 2 := by
  have hiff (m : Int) : (k : Rat) / 2 ≤ m ↔ k ≤ m * 2 := by
    rw [div_le_iff₀ two_pos]
    exact_mod_cast Iff.rfl
  have hle := (hiff _).1 (Rat.le_ceil (x := (k : Rat) / 2))
  have hge : ((k : Rat) / 2).ceil ≤ (k + 1) / 2 := Rat.ceil_le_iff.2 ((hiff _).2 (by omega))
  omega

/-- Rationals are exact without a bound. -/
def rational (limit : Int) : Halves Rat limit where
  Usable _ := True
  Stands x k := x = (k : Rat) / 2
  fault_none _ := rfl
  fault_whole _ _ := rfl
  add _ _ := trivial
  sub _ _ := trivial
  times _ _ _ := trivial
  times_usable _ _ := trivial
  halve _ := trivial
  add_zero _ := trivial
  between _ _ := ⟨trivial, trivial⟩
  angle _ _ := ⟨trivial, _, rfl⟩
  fault_angle _ _ := rfl
  usable _ := trivial
  middle {n} _ _ := by
    change (n : Rat) = _
    push_cast
    ring
  before {n d} round _ _ _ := by
    change (n : Rat) - d * insetOf round = _
    cases round
    · change (n : Rat) - d * ((0 : Int) : Rat) = _
      simp only [insetHalves]
      push_cast
      ring
    · change (n : Rat) - d * (1 / 2) = _
      simp only [insetHalves]
      push_cast
      ring
  after {n d} round _ _ _ := by
    change (n : Rat) + d * insetOf round = _
    cases round
    · change (n : Rat) + d * ((0 : Int) : Rat) = _
      simp only [insetHalves]
      push_cast
      ring
    · change (n : Rat) + d * (1 / 2) = _
      simp only [insetHalves]
      push_cast
      ring
  beq {x y j k} hx hy := by
    have hiff : (j : Rat) / 2 = k / 2 ↔ j = k := by
      rw [div_left_inj' two_ne_zero]
      exact Int.cast_inj
    rw [hx, hy, Bool.eq_iff_iff, beq_iff_eq, hiff, decide_eq_true_iff]
  larger {x y j k} hx hy := by
    change (if x < y then y else x) = _
    have hiff : (j : Rat) / 2 < k / 2 ↔ j < k := by
      rw [div_lt_div_iff_of_pos_right two_pos]
      exact Int.cast_lt
    rw [hx, hy]
    split
    · rename_i hlt
      rw [max_eq_right (hiff.1 hlt).le]
    · rename_i hle
      rw [max_eq_left (Int.not_lt.1 (mt hiff.2 hle))]
  ceil {x k} hx := by
    rw [hx]
    exact congrArg Except.ok (ceil_half k)
  ceil_whole n := congrArg Except.ok (Rat.ceil_intCast n)
  trunc_whole n := by
    change Except.ok (if (n : Rat) < 0 then (n : Rat).ceil else (n : Rat).floor) = _
    rw [Rat.ceil_intCast, Rat.floor_intCast, ite_self]

/-! ## Doubles -/

section Doubles

open Doubles

/-- What half a cell or nothing is added to or taken from is still exact. -/
theorem exists_step {d : Int} (hd : d = -1 ∨ d = 0 ∨ d = 1) (round : Bool) :
    ∃ step, Measure.whole d * (insetOf round : Measure) = .real step ∧
      ∀ k : Int, k.natAbs < 2 ^ 53 → (k + d * insetHalves round).natAbs < 2 ^ 53 →
        (k - d * insetHalves round).natAbs < 2 ^ 53 →
        double k + step = double (k + d * insetHalves round) ∧
        double k - step = double (k - d * insetHalves round) := by
  have hwhole := Measure.toFloat?_whole (n := d) (by omega)
  cases round with
  | true =>
      refine ⟨double d, ?_, fun k hk hplus hminus => ?_⟩
      · refine (Measure.mul_real hwhole 0.5).trans ?_
        rw [double_mul_half hd]
      · rw [insetHalves, if_pos rfl, Int.mul_one] at *
        exact ⟨add_double hk (by omega) hplus, sub_double hk (by omega) hminus⟩
  | false =>
      have hinset : (insetOf false : Measure) = .real (double 0) :=
        Measure.measured_eq (n := 0) (by decide)
      refine ⟨if d < 0 then negativeZero else double 0, ?_, fun k hk _ _ => ?_⟩
      · rw [hinset, Measure.mul_real hwhole, double_mul_zero hd]
      · rw [insetHalves, if_neg Bool.false_ne_true, Int.mul_zero, Int.add_zero, Int.sub_zero]
        split
        · exact ⟨add_negativeZero hk, sub_negativeZero hk⟩
        · have hadd := add_double (k := 0) hk (by decide) (by omega)
          have hsub := sub_double (k := 0) hk (by decide) (by omega)
          rw [Int.add_zero] at hadd
          rw [Int.sub_zero] at hsub
          exact ⟨hadd, hsub⟩

theorem natAbs_step_lt {n d : Int} (hn : 0 ≤ n) (hlimit : n ≤ 2 ^ 52 - 1)
    (hd : d = -1 ∨ d = 0 ∨ d = 1) (round : Bool) :
    (2 * n + d * insetHalves round).natAbs < 2 ^ 53 ∧
      (2 * n - d * insetHalves round).natAbs < 2 ^ 53 := by
  rcases hd with rfl | rfl | rfl <;> cases round <;> simp only [insetHalves] <;> constructor <;>
    omega

theorem fault?_whole {n : Int} (hn : n.natAbs < 2 ^ 52) :
    Scalar.fault? (Scalar.whole n : Measure) = none := by
  change (if (Binary64.ofInt? n).isSome then none else some Fault.tooLarge) = none
  rw [ofInt?_eq hn]
  rfl

/-- Doubles are exact on fewer than `2 ^ 52` cells. -/
def doubles : Halves Measure (2 ^ 52 - 1) where
  Usable m := ∃ x, m = .real x
  Stands m k := m = .real (double k) ∧ k.natAbs < 2 ^ 53
  fault_none := by
    rintro _ ⟨x, rfl⟩
    rfl
  fault_whole _ _ := fault?_whole (by omega)
  add := by
    rintro _ _ ⟨x, rfl⟩ ⟨y, rfl⟩
    exact ⟨_, rfl⟩
  sub := by
    rintro _ _ ⟨x, rfl⟩ ⟨y, rfl⟩
    exact ⟨_, rfl⟩
  times := by
    rintro n _ _ _ ⟨x, rfl⟩
    exact ⟨_, Measure.mul_real (Measure.toFloat?_whole (by omega)) x⟩
  times_usable := by
    rintro _ _ ⟨x, rfl⟩ ⟨y, rfl⟩
    exact ⟨_, rfl⟩
  halve := by
    rintro _ ⟨x, rfl⟩
    exact ⟨_, Measure.real_div x (Measure.toFloat?_whole (n := 2) (by decide))⟩
  add_zero := by
    rintro _ ⟨x, rfl⟩
    exact ⟨_, Measure.real_add x (Measure.toFloat?_whole (n := 0) (by decide))⟩
  between {n} _ _ := by
    have hwhole := Measure.toFloat?_whole (n := n) (by omega)
    exact ⟨⟨_, Measure.add_real hwhole _⟩, _, Measure.sub_real hwhole _⟩
  angle {d} _ _ := by
    rw [Measure.measured_eq (by omega)]
    exact ⟨⟨_, rfl⟩, Measure.exists_trunc_double (by omega)⟩
  fault_angle _ _ := fault?_whole (by omega)
  usable := fun h => ⟨_, h.1⟩
  middle {n} _ _ := ⟨Measure.measured_eq (by omega), by omega⟩
  before {n d} round _ _ hd := by
    obtain ⟨step, hstep, hexact⟩ := exists_step hd round
    have hbound := natAbs_step_lt (n := n) (by omega) (by omega) hd round
    refine ⟨?_, hbound.2⟩
    change Measure.whole n - Measure.whole d * (insetOf round : Measure) = _
    rw [hstep, Measure.sub_real (Measure.toFloat?_whole (by omega)),
      (hexact _ (by omega) hbound.1 hbound.2).2]
  after {n d} round _ _ hd := by
    obtain ⟨step, hstep, hexact⟩ := exists_step hd round
    have hbound := natAbs_step_lt (n := n) (by omega) (by omega) hd round
    refine ⟨?_, hbound.1⟩
    change Measure.whole n + Measure.whole d * (insetOf round : Measure) = _
    rw [hstep, Measure.add_real (Measure.toFloat?_whole (by omega)),
      (hexact _ (by omega) hbound.1 hbound.2).1]
  beq := by
    rintro _ _ j k ⟨rfl, hj⟩ ⟨rfl, hk⟩
    exact beq_double hj hk
  larger := by
    rintro _ _ j k ⟨rfl, hj⟩ ⟨rfl, hk⟩
    exact ⟨Measure.larger_double hj hk, by omega⟩
  ceil := by
    rintro _ k ⟨rfl, hk⟩
    exact Measure.ceil_double hk
  ceil_whole _ := rfl
  trunc_whole _ := rfl

end Doubles

end Halves

end CellSketch
