import Mathlib
import CellSketch.Number.Measure

/-!
# Doubles — halves of whole numbers as doubles

The centres of cells are whole numbers, and lines end in centres or half way between them.  As long
as twice such a position has at most 53 bits, there is a double that equals it, and the arithmetic
of doubles finds that double without rounding.

* `ofInt?_eq` — the double nearest to a whole number is that number;
* `add_double`, `sub_double` — sums and differences of halves are not rounded;
* `compare_double` — doubles compare as the numbers that they are;
* `decode_double` — and are read back as them.
-/

namespace CellSketch
namespace Number
namespace Doubles

open Float.Model UnpackedFloat

/-! ## Significands -/

/-- A number shifted to the left until its leading bit is the bit 52. -/
def significand (n : Nat) : Nat := n * 2 ^ (52 - n.log2)

section Significands

variable {n : Nat}

theorem log2_le (hn : n < 2 ^ 53) : n.log2 ≤ 52 := by
  rcases Nat.eq_zero_or_pos n with rfl | hpos
  · simp
  · have hlt := (Nat.log2_lt hpos.ne').2 hn
    omega

theorem log2_mul_two_pow (hpos : 0 < n) (t : Nat) : (n * 2 ^ t).log2 = n.log2 + t := by
  induction t with
  | zero => simp
  | succ t ih =>
      have hdouble : n * 2 ^ (t + 1) = 2 * (n * 2 ^ t) := by ring
      rw [hdouble, Nat.log2_two_mul (Nat.mul_pos hpos (Nat.two_pow_pos t)).ne', ih, Nat.add_assoc]

theorem significand_pos (hpos : 0 < n) : 0 < significand n :=
  Nat.mul_pos hpos (Nat.two_pow_pos _)

theorem log2_significand (hpos : 0 < n) (hn : n < 2 ^ 53) : (significand n).log2 = 52 := by
  have hlog := log2_le hn
  rw [significand, log2_mul_two_pow hpos]
  omega

theorem significand_bounds (hpos : 0 < n) (hn : n < 2 ^ 53) :
    2 ^ 52 ≤ significand n ∧ significand n < 2 ^ 53 := by
  have hlog := log2_significand hpos hn
  rwa [Nat.log2_eq_iff (significand_pos hpos).ne'] at hlog

/-- Shifting further to the left than needed. -/
theorem mul_two_pow_eq {e : Nat} (he : 52 - n.log2 ≤ e) :
    n * 2 ^ e = significand n * 2 ^ (e - (52 - n.log2)) := by
  rw [significand, Nat.mul_assoc, ← Nat.pow_add]
  congr 2
  omega

theorem significand_double (hpos : 0 < n) (hn : n < 2 ^ 52) :
    significand (2 * n) = significand n := by
  have hlog := (Nat.log2_lt hpos.ne').2 hn
  have hshift : 52 - n.log2 = 52 - (n.log2 + 1) + 1 := by omega
  rw [significand, significand, Nat.log2_two_mul hpos.ne', hshift, Nat.pow_succ]
  ring

end Significands

/-! ## Halves -/

/-- `n / 2` with a sign, where `n` has at most 53 bits. -/
def finiteHalf (s : Sign) (n : Nat) (hpos : 0 < n) : UnpackedFloat :=
  .finite s (significand n) (n.log2 - 53) (significand_pos hpos)

/-- The sign of a number that is not zero. -/
def signOf (k : Int) : Sign := if k < 0 then .negative else .positive

/-- `k / 2`, where `k` has at most 53 bits. -/
def half (k : Int) : UnpackedFloat :=
  if h : k = 0 then .zero .positive else finiteHalf (signOf k) k.natAbs (Int.natAbs_pos.2 h)

theorem half_of_ne {k : Int} (h : k ≠ 0) :
    half k = finiteHalf (signOf k) k.natAbs (Int.natAbs_pos.2 h) := dif_neg h

theorem signOf_cases {k : Int} (h : k ≠ 0) :
    (k < 0 ∧ signOf k = .negative) ∨ 0 < k ∧ signOf k = .positive := by
  rcases lt_or_gt_of_ne h with hneg | hpos
  · exact Or.inl ⟨hneg, if_pos hneg⟩
  · exact Or.inr ⟨hpos, if_neg hpos.not_gt⟩

theorem apply_signOf (k : Int) (n : Nat) :
    (signOf k).apply ((k.natAbs * n : Nat) : Int) = k * n := by
  rw [signOf]
  split
  · rename_i hneg
    rw [Sign.apply, Nat.cast_mul, Int.ofNat_natAbs_of_nonpos hneg.le, Int.neg_mul, Int.neg_neg]
  · rename_i hnonneg
    rw [Sign.apply, Nat.cast_mul, Int.natAbs_of_nonneg (Int.not_lt.1 hnonneg)]

/-! ## Rounding -/

theorem targetExponent_binary64 (t : Int) :
    Format.binary64.targetExponent t = max (t - 53) (-1074) := by
  rw [Format.targetExponent]
  rfl

/-- Shifting out zeros leaves nothing behind. -/
theorem shiftRight_exact (m t : Nat) :
    (⟨m * 2 ^ t, false, false⟩ : ExtendedMantissa) >>> t = ⟨m, false, false⟩ := by
  induction t generalizing m with
  | zero =>
      rw [Nat.pow_zero, Nat.mul_one]
      rfl
  | succ t ih =>
      have hstep (em : ExtendedMantissa) : em >>> (t + 1) = (em >>> t).shiftRightOne := rfl
      have hdouble : m * 2 ^ (t + 1) = 2 * m * 2 ^ t := by ring
      rw [hstep, hdouble, ih, ExtendedMantissa.shiftRightOne]
      simp

section Rounding

variable {n : Nat} (hpos : 0 < n) (hn : n < 2 ^ 53)
include hpos hn

/-- The exponent that a half is brought to does not depend on how it is given. -/
theorem targetExponent_half (e : Nat) :
    Format.binary64.targetExponent (totalExponent (n * 2 ^ e) (-1 - e)) = n.log2 - 53 := by
  have hlog := log2_le hn
  rw [targetExponent_binary64, totalExponent, log2_mul_two_pow hpos]
  omega

theorem shiftToTargetExponent_half {e : Nat} (he : 52 - n.log2 ≤ e) :
    shiftToTargetExponent .binary64 (n * 2 ^ e) (-1 - e) .exact =
      (⟨significand n, false, false⟩, (n.log2 - 53 : Int)) := by
  have hlog := log2_le hn
  have hshift : ((n.log2 : Int) - 53 - (-1 - e)).toNat = e - (52 - n.log2) := by omega
  have hexponent : (-1 - e : Int) + (e - (52 - n.log2) : Nat) = n.log2 - 53 := by omega
  rw [shiftToTargetExponent, targetExponent_half hpos hn, shiftToExponent, hshift,
    mul_two_pow_eq he]
  exact Prod.ext (shiftRight_exact _ _) hexponent

/-- A half is not rounded. -/
theorem round_half (s : Sign) (e : Nat) :
    UnpackedFloat.round .binary64 s (n * 2 ^ e) (-1 - e) = finiteHalf s n hpos := by
  have hlog := log2_le hn
  -- the number as it is shifted first
  obtain ⟨wide, hwide, hdecrease⟩ : ∃ wide, 52 - n.log2 ≤ wide ∧
      decreaseExponent (n * 2 ^ e) (-1 - e) (n.log2 - 53) = (n * 2 ^ wide, (-1 - wide : Int)) := by
    refine ⟨max e (52 - n.log2), by omega, ?_⟩
    rw [decreaseExponent, Nat.shiftLeft_eq, Nat.mul_assoc, ← Nat.pow_add]
    refine Prod.ext (congrArg (fun t => n * 2 ^ t) ?_) ?_
    · omega
    · dsimp only
      omega
  have hround : (⟨significand n, false, false⟩ : ExtendedMantissa).roundedMantissa =
      n * 2 ^ (52 - n.log2) := rfl
  have hagain : (n.log2 : Int) - 53 = -1 - (52 - n.log2 : Nat) := by omega
  rw [UnpackedFloat.round, targetExponent_half hpos hn, hdecrease]
  dsimp only
  rw [roundWithAccuracy, shiftToTargetExponent_half hpos hn hwide]
  dsimp only
  rw [hround, hagain, shiftToTargetExponent_half hpos hn (Nat.le_refl _)]
  dsimp only
  rw [dif_neg (significand_pos hpos).ne', finiteHalf]

end Rounding

theorem normalize_half {k : Int} (hk : k.natAbs < 2 ^ 53) (e : Nat) :
    UnpackedFloat.normalize .binary64 (k * (2 ^ e : Nat)) (-1 - e) .positive = half k := by
  have hpow : (0 : Int) < (2 ^ e : Nat) := by exact_mod_cast Nat.two_pow_pos e
  have hnat : (k * (2 ^ e : Nat)).natAbs = k.natAbs * 2 ^ e := by
    rw [Int.natAbs_mul, Int.natAbs_natCast]
  rcases lt_trichotomy k 0 with hneg | rfl | hpos
  · have hprod : k * (2 ^ e : Nat) < 0 := Int.mul_neg_of_neg_of_pos hneg hpow
    have hmantissa : (-(k * (2 ^ e : Nat))).toNat = k.natAbs * 2 ^ e := by omega
    rw [UnpackedFloat.normalize, Int.compare_eq_lt.2 hprod, half_of_ne hneg.ne, signOf, if_pos hneg]
    dsimp only
    rw [hmantissa]
    exact round_half _ hk _ e
  · rw [Int.zero_mul]
    rfl
  · have hprod : 0 < k * (2 ^ e : Nat) := Int.mul_pos hpos hpow
    have hmantissa : (k * (2 ^ e : Nat)).toNat = k.natAbs * 2 ^ e := by omega
    rw [UnpackedFloat.normalize, Int.compare_eq_gt.2 hprod, half_of_ne hpos.ne', signOf,
      if_neg hpos.not_gt]
    dsimp only
    rw [hmantissa]
    exact round_half _ hk _ e

/-! ## Sums and differences -/

section Sums

theorem decreaseExponent_half {n : Nat} (hn : n < 2 ^ 53) {e : Nat} (he : 52 - n.log2 ≤ e) :
    (decreaseExponent (significand n) (n.log2 - 53) (-1 - e)).1 = n * 2 ^ e := by
  have hlog := log2_le hn
  have hshift : ((n.log2 : Int) - 53 - (-1 - e)).toNat = e - (52 - n.log2) := by omega
  rw [decreaseExponent, Nat.shiftLeft_eq, hshift, mul_two_pow_eq he]

/-- Numbers that are not zero, brought to one exponent. -/
theorem exists_common {j k : Int} (hj : j.natAbs < 2 ^ 53) (hk : k.natAbs < 2 ^ 53) :
    ∃ e : Nat, min ((j.natAbs.log2 : Int) - 53) (k.natAbs.log2 - 53) = -1 - e ∧
      (decreaseExponent (significand j.natAbs) (j.natAbs.log2 - 53) (-1 - e)).1 =
        j.natAbs * 2 ^ e ∧
      (decreaseExponent (significand k.natAbs) (k.natAbs.log2 - 53) (-1 - e)).1 =
        k.natAbs * 2 ^ e := by
  have hjlog := log2_le hj
  have hklog := log2_le hk
  refine ⟨52 - min j.natAbs.log2 k.natAbs.log2, by omega, ?_, ?_⟩
  · exact decreaseExponent_half hj (by omega)
  · exact decreaseExponent_half hk (by omega)

variable {j k : Int} (hj : j.natAbs < 2 ^ 53) (hk : k.natAbs < 2 ^ 53)
include hj hk

theorem add_half (hsum : (j + k).natAbs < 2 ^ 53) :
    UnpackedFloat.add .binary64 (half j) (half k) = half (j + k) := by
  -- zero is a case of its own in the model: it has neither a significand nor an exponent
  by_cases hj0 : j = 0
  · subst hj0
    rw [Int.zero_add]
    by_cases hk0 : k = 0
    · subst hk0
      rfl
    · rw [half_of_ne hk0]
      rfl
  by_cases hk0 : k = 0
  · subst hk0
    rw [Int.add_zero, half_of_ne hj0]
    rfl
  obtain ⟨e, hmin, hje, hke⟩ := exists_common hj hk
  rw [half_of_ne hj0, half_of_ne hk0, finiteHalf, finiteHalf, UnpackedFloat.add]
  dsimp only
  rw [hmin, hje, hke, apply_signOf, apply_signOf, ← Int.add_mul, normalize_half hsum]

theorem sub_half (hdifference : (j - k).natAbs < 2 ^ 53) :
    UnpackedFloat.sub .binary64 (half j) (half k) = half (j - k) := by
  by_cases hk0 : k = 0
  · subst hk0
    rw [Int.sub_zero]
    by_cases hj0 : j = 0
    · subst hj0
      rfl
    · rw [half_of_ne hj0]
      rfl
  by_cases hj0 : j = 0
  · subst hj0
    have hneg : signOf (0 - k) = -signOf k := by
      rcases signOf_cases hk0 with ⟨hneg, hsign⟩ | ⟨hpos, hsign⟩
      · rw [hsign, signOf, if_neg (by omega)]
        rfl
      · rw [hsign, signOf, if_pos (by omega)]
        rfl
    have habs : (0 - k).natAbs = k.natAbs := by omega
    rw [half_of_ne hk0, half_of_ne (k := 0 - k) (by omega), finiteHalf, finiteHalf, hneg]
    simp only [habs]
    rfl
  obtain ⟨e, hmin, hje, hke⟩ := exists_common hj hk
  rw [half_of_ne hj0, half_of_ne hk0, finiteHalf, finiteHalf, UnpackedFloat.sub]
  dsimp only
  rw [hmin, hje, hke, apply_signOf, apply_signOf, ← Int.sub_mul, normalize_half hdifference]

end Sums

/-! ## Comparison -/

section Comparison

variable {m n : Nat}

/-- Significands and exponents compare as the numbers do. -/
theorem compare_significand (hmpos : 0 < m) (hnpos : 0 < n) (hn : n < 2 ^ 53) :
    (compare ((m.log2 : Int) - 53) (n.log2 - 53)).then
      (compare (significand m) (significand n)) = compare m n := by
  have hmlog := (Nat.log2_eq_iff hmpos.ne').1 rfl
  have hnlog := (Nat.log2_eq_iff hnpos.ne').1 rfl
  rcases lt_trichotomy m.log2 n.log2 with hlt | heq | hgt
  · have hpow : 2 ^ (m.log2 + 1) ≤ 2 ^ n.log2 := Nat.pow_le_pow_right Nat.two_pos hlt
    have hmn : m < n := by omega
    rw [Int.compare_eq_lt.2 (by omega), Nat.compare_eq_lt.2 hmn]
    rfl
  · have hpow : 0 < 2 ^ (52 - n.log2) := Nat.two_pow_pos _
    rw [Int.compare_eq_eq.2 (by omega), significand, significand, heq]
    rcases lt_trichotomy m n with hmn | rfl | hmn
    · rw [Nat.compare_eq_lt.2 hmn, Nat.compare_eq_lt.2 (Nat.mul_lt_mul_of_pos_right hmn hpow)]
      rfl
    · simp
    · rw [Nat.compare_eq_gt.2 hmn, Nat.compare_eq_gt.2 (Nat.mul_lt_mul_of_pos_right hmn hpow)]
      rfl
  · have hpow : 2 ^ (n.log2 + 1) ≤ 2 ^ m.log2 := Nat.pow_le_pow_right Nat.two_pos hgt
    have hmn : n < m := by omega
    rw [Int.compare_eq_gt.2 (by omega), Nat.compare_eq_gt.2 hmn]
    rfl

theorem compare_natAbs_of_pos {j k : Int} (hj : 0 < j) (hk : 0 < k) :
    compare j.natAbs k.natAbs = compare j k := by
  rcases lt_trichotomy j k with hlt | rfl | hgt
  · rw [Int.compare_eq_lt.2 hlt, Nat.compare_eq_lt.2 (by omega)]
  · simp
  · rw [Int.compare_eq_gt.2 hgt, Nat.compare_eq_gt.2 (by omega)]

theorem compare_natAbs_of_neg {j k : Int} (hj : j < 0) (hk : k < 0) :
    (compare j.natAbs k.natAbs).swap = compare j k := by
  rcases lt_trichotomy j k with hlt | rfl | hgt
  · rw [Int.compare_eq_lt.2 hlt, Nat.compare_eq_gt.2 (by omega), Ordering.swap_gt]
  · simp
  · rw [Int.compare_eq_gt.2 hgt, Nat.compare_eq_lt.2 (by omega), Ordering.swap_lt]

end Comparison

/-- Halves compare as numbers. -/
theorem compare_half {j k : Int} (hj : j.natAbs < 2 ^ 53) (hk : k.natAbs < 2 ^ 53) :
    (half j).compare (half k) = some (compare j k) := by
  by_cases hj0 : j = 0
  · subst hj0
    by_cases hk0 : k = 0
    · subst hk0
      rfl
    · rw [half_of_ne hk0]
      rcases signOf_cases hk0 with ⟨hneg, hsign⟩ | ⟨hpos, hsign⟩
      · rw [hsign, Int.compare_eq_gt.2 hneg]
        rfl
      · rw [hsign, Int.compare_eq_lt.2 hpos]
        rfl
  by_cases hk0 : k = 0
  · subst hk0
    rw [half_of_ne hj0]
    rcases signOf_cases hj0 with ⟨hneg, hsign⟩ | ⟨hpos, hsign⟩
    · rw [hsign, Int.compare_eq_lt.2 hneg]
      rfl
    · rw [hsign, Int.compare_eq_gt.2 hpos]
      rfl
  have hcompare := compare_significand (Int.natAbs_pos.2 hj0) (Int.natAbs_pos.2 hk0) hk
  rw [half_of_ne hj0, half_of_ne hk0]
  rcases signOf_cases hj0 with ⟨hjneg, hjsign⟩ | ⟨hjpos, hjsign⟩ <;>
    rcases signOf_cases hk0 with ⟨hkneg, hksign⟩ | ⟨hkpos, hksign⟩ <;>
    rw [hjsign, hksign, finiteHalf, finiteHalf, UnpackedFloat.compare]
  · rw [hcompare, compare_natAbs_of_neg hjneg hkneg]
  · rw [Int.compare_eq_lt.2 (by omega)]
  · rw [Int.compare_eq_gt.2 (by omega)]
  · rw [hcompare, compare_natAbs_of_pos hjpos hkpos]

/-! ## Bits -/

section Bits

theorem toNat_packComponents (s : Sign) (e : BitVec 11) (m : BitVec 52) :
    (packComponents .binary64 s e m).toNat =
      s.toBitVec.toNat * 2 ^ 63 + e.toNat * 2 ^ 52 + m.toNat := by
  rw [packComponents, BitVec.toNat_append, ← Nat.shiftLeft_add_eq_or_of_lt m.isLt,
    BitVec.toNat_append, ← Nat.shiftLeft_add_eq_or_of_lt e.isLt, Nat.shiftLeft_eq, Nat.shiftLeft_eq]
  ring

variable (s : Sign) {m : Nat} {e : Int} (hpos : 0 < m) (hm : 2 ^ 52 ≤ m ∧ m < 2 ^ 53)
  (he : -1074 ≤ e ∧ e ≤ 970)
include hm he

/-- The bits of a normal number. -/
theorem pack_finite : UnpackedFloat.pack .binary64 (.finite s m e hpos) =
    packComponents .binary64 s (BitVec.ofNat 11 (e + 1075).toNat) (BitVec.ofNat 52 m) := by
  have hlog : m.log2 = 52 := (Nat.log2_eq_iff hpos.ne').2 hm
  have hbias : e + (Format.binary64.exponentBias : Int) +
      Format.binary64.mantissaBitsWithoutImplicit = e + 1075 := by
    rw [Int.add_assoc]
    rfl
  rw [UnpackedFloat.pack, hlog, hbias]
  refine (if_neg ?_).trans (if_pos rfl)
  change ¬ 2 ^ 11 ≤ (e + 1075).toNat + 1
  omega

theorem toNat_pack : (UnpackedFloat.pack .binary64 (.finite s m e hpos)).toNat =
    s.toBitVec.toNat * 2 ^ 63 + (e + 1075).toNat * 2 ^ 52 + (m - 2 ^ 52) := by
  rw [pack_finite s hpos hm he, toNat_packComponents, BitVec.toNat_ofNat, BitVec.toNat_ofNat]
  omega

/-- A normal number is read back from its bits. -/
theorem unpack_pack : UnpackedFloat.unpack .binary64
    (UnpackedFloat.pack .binary64 (.finite s m e hpos)) = .finite s m e hpos := by
  have hexponent : (BitVec.ofNat 11 (e + 1075).toNat).toNat = (e + 1075).toNat := by
    rw [BitVec.toNat_ofNat]
    omega
  have hmantissa : (1#1 ++ BitVec.ofNat 52 m).toNat = m := by
    rw [BitVec.toNat_append, ← Nat.shiftLeft_add_eq_or_of_lt (BitVec.isLt _), BitVec.toNat_ofNat]
    change 2 ^ 52 + m % 2 ^ 52 = m
    omega
  have hones : BitVec.ofNat 11 (e + 1075).toNat ≠ -1#11 := by
    rw [← BitVec.toNat_ne_iff_ne, hexponent]
    change (e + 1075).toNat ≠ 2047
    omega
  have hzero : BitVec.ofNat 11 (e + 1075).toNat ≠ 0#11 := by
    rw [← BitVec.toNat_ne_iff_ne, hexponent]
    change (e + 1075).toNat ≠ 0
    omega
  rw [pack_finite s hpos hm he, UnpackedFloat.unpack]
  simp only [unpackExponent_packComponents, unpackMantissa_packComponents,
    unpackSign_packComponents, Sign.ofBitVec_toBitVec]
  refine ((if_neg hones).trans (if_neg hzero)).trans ?_
  rw [UnpackedFloat.finite.injEq]
  refine ⟨rfl, hmantissa, ?_⟩
  rw [hexponent]
  change ((e + 1075).toNat : Int) - 1075 = e
  omega

end Bits

/-! ## Doubles -/

/-- The double `k / 2`. -/
def double (k : Int) : Float := .ofModel (.pack (half k))

/-- The bits of a double that is not zero. -/
theorem toNat_pack_half {k : Int} (h : k ≠ 0) (hk : k.natAbs < 2 ^ 53) :
    (UnpackedFloat.pack .binary64 (half k)).toNat = (signOf k).toBitVec.toNat * 2 ^ 63 +
      (k.natAbs.log2 + 1022) * 2 ^ 52 + (significand k.natAbs - 2 ^ 52) := by
  have hpos := Int.natAbs_pos.2 h
  have hlog := log2_le hk
  have hexponent : ((k.natAbs.log2 : Int) - 53 + 1075).toNat = k.natAbs.log2 + 1022 := by omega
  rw [half_of_ne h, finiteHalf, toNat_pack _ _ (significand_bounds hpos hk) (by omega), hexponent]

theorem unpack_double {k : Int} (hk : k.natAbs < 2 ^ 53) : (double k).toModel.unpack = half k := by
  by_cases h : k = 0
  · subst h
    rfl
  have hlog := log2_le hk
  change UnpackedFloat.unpack .binary64 (UnpackedFloat.pack .binary64 (half k)) = _
  rw [half_of_ne h, finiteHalf]
  exact unpack_pack _ _ (significand_bounds (Int.natAbs_pos.2 h) hk) (by omega)

section Arithmetic

variable {j k : Int} (hj : j.natAbs < 2 ^ 53) (hk : k.natAbs < 2 ^ 53)
include hj hk

theorem add_double (hsum : (j + k).natAbs < 2 ^ 53) : double j + double k = double (j + k) := by
  change Float.ofModel (.pack (.add .binary64 (double j).toModel.unpack
    (double k).toModel.unpack)) = _
  rw [unpack_double hj, unpack_double hk, add_half hj hk hsum]
  rfl

theorem sub_double (hdifference : (j - k).natAbs < 2 ^ 53) :
    double j - double k = double (j - k) := by
  change Float.ofModel (.pack (.sub .binary64 (double j).toModel.unpack
    (double k).toModel.unpack)) = _
  rw [unpack_double hj, unpack_double hk, sub_half hj hk hdifference]
  rfl

/-- Doubles compare as the numbers that they are. -/
theorem compare_double : (double j).toModel.compare (double k).toModel = some (compare j k) := by
  rw [Float.Model.compare, unpack_double hj, unpack_double hk, compare_half hj hk]

theorem beq_double : (double j == double k) = decide (j = k) := by
  change ((double j).toModel.compare (double k).toModel == some .eq) = _
  rw [compare_double hj hk, Bool.eq_iff_iff, beq_iff_eq, Option.some.injEq, Int.compare_eq_eq,
    decide_eq_true_iff]

theorem lt_double : double j < double k ↔ j < k := by
  have hiff : double j < double k ↔
      ((double j).toModel.compare (double k).toModel == some .lt) = true := decide_eq_true_iff
  rw [hiff, compare_double hj hk, beq_iff_eq, Option.some.injEq, Int.compare_eq_lt]

end Arithmetic

/-! ## Reading and writing -/

section Units

/-- How many units make one half. -/
def halfUnits : Nat := Nat.pow 2 1073

theorem one_eq {places : Nat} (h : places = 1074) : Binary64.one = 2 ^ places := by
  unfold Binary64.one
  exact congrArg _ h.symm

theorem halfUnits_eq {places : Nat} (h : places = 1073) : halfUnits = 2 ^ places := by
  unfold halfUnits
  exact congrArg _ h.symm

theorem one_eq_two_mul : Binary64.one = 2 * halfUnits := by
  obtain ⟨places, hplaces⟩ : ∃ places, places = 1073 := ⟨_, rfl⟩
  rw [one_eq (congrArg Nat.succ hplaces), halfUnits_eq hplaces, Nat.pow_succ, Nat.mul_comm]

theorem halfUnits_pos : 0 < halfUnits := by
  obtain ⟨places, hplaces⟩ : ∃ places, places = 1073 := ⟨_, rfl⟩
  rw [halfUnits_eq hplaces]
  exact Nat.two_pow_pos _

variable {n : Nat}

theorem log2_mul_one (hpos : 0 < n) : (n * Binary64.one).log2 = n.log2 + 1074 := by
  obtain ⟨places, hplaces⟩ : ∃ places, places = 1074 := ⟨_, rfl⟩
  rw [one_eq hplaces, log2_mul_two_pow hpos, hplaces]

theorem mul_one_eq (hn : n < 2 ^ 53) :
    n * Binary64.one = significand n * 2 ^ (n.log2 + 1022) := by
  have hlog := log2_le hn
  obtain ⟨places, hplaces⟩ : ∃ places, places = 1074 := ⟨_, rfl⟩
  have hshift : places - (52 - n.log2) = n.log2 + 1022 := by omega
  rw [one_eq hplaces, mul_two_pow_eq (by omega), hshift]

/-- The bits of a whole number: its significand lies over the exponent, which its leading bit makes
one larger. -/
theorem nearestBits?_eq (hpos : 0 < n) (hn : n < 2 ^ 53) :
    Binary64.nearestBits? n 1 = some ((n.log2 + 1022) * 2 ^ 52 + significand n) := by
  have hlog := log2_le hn
  have hsignificand := significand_bounds hpos hn
  have hshift : (n * Binary64.one / 1).log2 + 1 - 53 = n.log2 + 1022 := by
    rw [Nat.div_one, log2_mul_one hpos]
    omega
  have hround : nearestEven (n * Binary64.one) (1 * Nat.pow 2 (n.log2 + 1022)) =
      significand n := by
    rw [mul_one_eq hn, Nat.one_mul, Nat.pow_eq, nearestEven_mul _ _ (Nat.two_pow_pos _)]
  rw [Binary64.nearestBits?, hshift, hround]
  refine if_pos ?_
  rw [Nat.pow_eq]
  omega

end Units

/-- A whole number is its nearest double. -/
theorem ofInt?_eq {n : Int} (hn : n.natAbs < 2 ^ 52) :
    Binary64.ofInt? n = some (double (2 * n)) := by
  by_cases h : n = 0
  · subst h
    decide +kernel
  have hpos := Int.natAbs_pos.2 h
  have hsignificand := significand_bounds hpos (by omega)
  have hlog := log2_le (n := n.natAbs) (by omega)
  have hbits := toNat_pack_half (k := 2 * n) (by omega) (by omega)
  have habs : (2 * n).natAbs = 2 * n.natAbs := by omega
  rw [habs, significand_double hpos hn, Nat.log2_two_mul hpos.ne'] at hbits
  rw [Binary64.ofInt?, Binary64.ofQuotient?, nearestBits?_eq hpos (by omega), Option.map_some,
    Option.some.injEq, ← Float.ofBits_toBits (double (2 * n))]
  refine congrArg Float.ofBits (UInt64.toNat_inj.1 (Eq.trans ?_ hbits.symm))
  rw [UInt64.toNat_ofNat', Nat.pow_eq]
  rcases signOf_cases (k := 2 * n) (by omega) with ⟨hneg, hsign⟩ | ⟨hpos, hsign⟩
  · rw [hsign, if_pos (by omega)]
    change _ = 1 * 2 ^ 63 + _ + _
    omega
  · rw [hsign, if_neg (by omega)]
    change _ = 0 * 2 ^ 63 + _ + _
    omega

/-- What a double is read back as. -/
theorem decode_double {k : Int} (hk : k.natAbs < 2 ^ 53) :
    Binary64.decode (double k) = .finite (decide (k < 0)) (k.natAbs * halfUnits) := by
  by_cases h : k = 0
  · subst h
    have hzero : Binary64.decode (double 0) = .finite false 0 := by decide +kernel
    simpa using hzero
  have hlog := log2_le hk
  have hsignificand := significand_bounds (Int.natAbs_pos.2 h) hk
  have hbits : (double k).toBits.toNat = (signOf k).toBitVec.toNat * 2 ^ 63 +
      (k.natAbs.log2 + 1022) * 2 ^ 52 + (significand k.natAbs - 2 ^ 52) := toNat_pack_half h hk
  have hlt := (signOf k).toBitVec.isLt
  have hsign : (double k).toBits.toNat / 2 ^ 63 % 2 = (signOf k).toBitVec.toNat := by omega
  have hexponent : (double k).toBits.toNat / 2 ^ 52 % 2 ^ 11 = k.natAbs.log2 + 1022 := by omega
  have hfraction : (double k).toBits.toNat % 2 ^ 52 = significand k.natAbs - 2 ^ 52 := by omega
  have hnegative : ((signOf k).toBitVec.toNat == 1) = decide (k < 0) := by
    rcases signOf_cases h with ⟨hneg, hsign⟩ | ⟨hpos, hsign⟩
    · rw [hsign, decide_eq_true hneg]
      rfl
    · rw [hsign, decide_eq_false hpos.not_gt]
      rfl
  have hunits : (2 ^ 52 + (significand k.natAbs - 2 ^ 52)) * 2 ^ (k.natAbs.log2 + 1022 - 1) =
      k.natAbs * halfUnits := by
    -- the exponent gets a name, so that nothing works the power out
    obtain ⟨places, hplaces⟩ : ∃ places, places = 1073 := ⟨_, rfl⟩
    have hshift : places - (52 - k.natAbs.log2) = k.natAbs.log2 + 1022 - 1 := by omega
    have hsplit : k.natAbs * 2 ^ places = _ := mul_two_pow_eq (by omega)
    rw [Nat.add_sub_of_le hsignificand.1, halfUnits_eq hplaces, hsplit, hshift]
  simp only [Binary64.decode, Binary64.decodeBits, Nat.pow_eq, hsign, hexponent, hfraction,
    hnegative]
  rw [if_neg (by omega), if_neg (by omega), hunits]

/-! ## Steps of half a cell and of no length -/

/-- The zero that a step of no length to the left or up comes to. -/
def negativeZero : Float := .ofModel (.pack (.zero .negative))

theorem double_mul_half {d : Int} (hd : d = -1 ∨ d = 0 ∨ d = 1) :
    double (2 * d) * 0.5 = double d := by
  rcases hd with rfl | rfl | rfl <;> exact Float.toBits_inj.1 (by decide +kernel)

theorem double_mul_zero {d : Int} (hd : d = -1 ∨ d = 0 ∨ d = 1) :
    double (2 * d) * double 0 = if d < 0 then negativeZero else double 0 := by
  rcases hd with rfl | rfl | rfl <;> exact Float.toBits_inj.1 (by decide +kernel)

theorem add_negativeZero {k : Int} (hk : k.natAbs < 2 ^ 53) :
    double k + negativeZero = double k := by
  change Float.ofModel (.pack (.add .binary64 (double k).toModel.unpack (.zero .negative))) = _
  rw [unpack_double hk, double]
  by_cases h : k = 0
  · subst h
    rfl
  · rw [half_of_ne h]
    rfl

theorem sub_negativeZero {k : Int} (hk : k.natAbs < 2 ^ 53) :
    double k - negativeZero = double k := by
  change Float.ofModel (.pack (.sub .binary64 (double k).toModel.unpack (.zero .negative))) = _
  rw [unpack_double hk, double]
  by_cases h : k = 0
  · subst h
    rfl
  · rw [half_of_ne h]
    rfl

end Doubles

/-! ## Measures -/

namespace Measure

open Doubles

variable {a b : Measure} {x y : Float}

theorem onFloats_eq {op : Float → Float → Float} (ha : a.toFloat? = some x)
    (hb : b.toFloat? = some y) : onFloats op a b = real (op x y) := by
  rw [onFloats, ha, hb]

theorem toFloat?_whole {n : Int} (hn : n.natAbs < 2 ^ 52) :
    (whole n).toFloat? = some (double (2 * n)) := by
  rw [toFloat?, ofInt?_eq hn]

theorem mul_real (ha : a.toFloat? = some x) (y : Float) : a * real y = real (x * y) := by
  change mul a (real y) = _
  rw [mul.eq_2 _ _ (by simp), onFloats_eq ha rfl]

theorem add_real (ha : a.toFloat? = some x) (y : Float) : a + real y = real (x + y) := by
  change add a (real y) = _
  rw [add.eq_2 _ _ (by simp), onFloats_eq ha rfl]

theorem real_add (x : Float) (hb : b.toFloat? = some y) : real x + b = real (x + y) := by
  change add (real x) b = _
  rw [add.eq_2 _ _ (by simp), onFloats_eq rfl hb]

theorem sub_real (ha : a.toFloat? = some x) (y : Float) : a - real y = real (x - y) := by
  change sub a (real y) = _
  rw [sub.eq_2 _ _ (by simp), onFloats_eq ha rfl]

theorem real_div (x : Float) (hb : b.toFloat? = some y) : real x / b = real (x / y) := by
  have hdiv (b : Measure) : div (real x) b = onFloats (· / ·) (real x) b := by
    cases b <;> rfl
  change div (real x) b = _
  rw [hdiv, onFloats_eq rfl hb]

theorem measure_eq (ha : a.toFloat? = some x) : measure a = real x := by
  rw [measure, ha, ofFloat?]

theorem measured_eq {n : Int} (hn : n.natAbs < 2 ^ 52) :
    (Scalar.measured n : Measure) = real (double (2 * n)) := by
  have hwhole : (Scalar.whole n : Measure) = whole n := rfl
  have hmeasure (m : Measure) : Scalar.measure m = measure m := rfl
  rw [Scalar.measured, hwhole, hmeasure, measure_eq (toFloat?_whole hn)]

/-! ### Rounding to whole numbers -/

section Wholes

variable {k : Int} (hk : k.natAbs < 2 ^ 53)
include hk

theorem ceil_double : ceil (real (double k)) = .ok ((k + 1) / 2) := by
  have hunits := halfUnits_pos
  rw [ceil, toWhole, decode_double hk]
  refine congrArg Except.ok ?_
  rw [Binary64.ceilUnits, one_eq_two_mul, Nat.mul_comm 2]
  generalize halfUnits = units at hunits
  rcases lt_or_ge k 0 with hneg | hnonneg
  · rw [decide_eq_true hneg, if_pos rfl, Nat.mul_comm units, Nat.mul_div_mul_right _ _ hunits]
    omega
  · have hrest : (units * 2 - 1) / units = 1 := Nat.div_eq_of_lt_le (by omega) (by omega)
    have hdiv : (k.natAbs * units + (units * 2 - 1)) / (units * 2) = (k.natAbs + 1) / 2 := by
      rw [← Nat.div_div_eq_div_mul, Nat.add_comm, Nat.add_mul_div_right _ _ hunits, hrest,
        Nat.add_comm]
    rw [decide_eq_false hnonneg.not_gt, if_neg Bool.false_ne_true, hdiv]
    omega

theorem exists_trunc_double : ∃ n, trunc (real (double k)) = .ok n := by
  rw [trunc, toWhole, decode_double hk]
  exact ⟨_, rfl⟩

end Wholes

section Order

variable {j k : Int} (hj : j.natAbs < 2 ^ 53) (hk : k.natAbs < 2 ^ 53)
include hj hk

theorem larger_double : larger (real (double j)) (real (double k)) = real (double (max j k)) := by
  have hless : less (real (double j)) (real (double k)) = decide (j < k) := by
    rw [less, Bool.eq_iff_iff, decide_eq_true_iff, decide_eq_true_iff, lt_double hj hk]
  rw [larger, hless]
  rcases lt_or_ge j k with hlt | hge
  · rw [decide_eq_true hlt, if_pos rfl, max_eq_right hlt.le]
  · rw [decide_eq_false hge.not_gt, if_neg Bool.false_ne_true, max_eq_left hge]

end Order

end Measure

end Number
end CellSketch
