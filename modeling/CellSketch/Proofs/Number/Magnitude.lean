import CellSketch.Proofs.Number.Doubles

/-!
# Magnitude — doubles that stay finite

A finite double is a mantissa of 53 bits over an exponent.  A bound on the exponent is carried
through products and differences with a little room for rounding, and as long as it stays below the
largest exponent there is, no result is infinite.

* `AtMost` — a bound on the exponent of a finite number;
* `atMost_round` — rounding raises the bound by one place;
* `below_mul`, `below_sub` — bounds of products and differences of doubles;
* `exists_ofInt?` — a whole number that is not too large has a bounded double;
* `Measure.exists_ceil_pixels` — cells of bounded size take a whole number of pixels.
-/

namespace CellSketch
namespace Number
namespace Doubles

open Float.Model UnpackedFloat

/-! ## Bounds -/

/-- A finite number whose exponent is at most `a`; with 53 bits it is below `2 ^ (a + 53)`. -/
def AtMost (a : Int) : UnpackedFloat → Prop
  | .zero _ => True
  | .finite _ _ e _ => e ≤ a
  | .infinity _ | .notANumber => False

theorem AtMost.mono {a b : Int} {u : UnpackedFloat} (h : AtMost a u) (hab : a ≤ b) :
    AtMost b u := by
  cases u with
  | zero => trivial
  | finite s m e hm => exact le_trans (show e ≤ a from h) hab
  | infinity | notANumber => exact h

/-! ## Bits -/

section Bits

variable (b : BitVec 64)

theorem toNat_unpackExponent :
    (@unpackExponent .binary64 b).toNat = b.toNat / 2 ^ 52 % 2 ^ 11 := by
  change (BitVec.cast _ (BitVec.extractLsb 62 52 b)).toNat = _
  rw [BitVec.toNat_cast, BitVec.extractLsb_toNat, Nat.shiftRight_eq_div_pow]

/-- What is read from bits is infinite, no number, or has a mantissa of at most 53 bits. -/
theorem mantissa_lt_of_unpack {s : Sign} {m : Nat} {e : Int} {hm : 0 < m}
    (h : UnpackedFloat.unpack .binary64 b = .finite s m e hm) : m < 2 ^ 53 := by
  unfold UnpackedFloat.unpack at h
  dsimp only at h
  split at h
  · split at h <;> cases h
  · split at h
    · split at h
      · cases h
      · cases h
        exact (BitVec.isLt _).trans (by decide)
    · cases h
      exact BitVec.isLt (1#1 ++ @unpackMantissa .binary64 b)

/-- Bits of a bounded number have an exponent that is not the largest. -/
theorem exponent_ne_of_atMost {a : Int} (h : AtMost a (UnpackedFloat.unpack .binary64 b)) :
    b.toNat / 2 ^ 52 % 2 ^ 11 ≠ 2047 := by
  intro heq
  have hones : @unpackExponent .binary64 b = -1#11 :=
    BitVec.eq_of_toNat_eq (by rw [toNat_unpackExponent, heq]; rfl)
  unfold UnpackedFloat.unpack at h
  dsimp only at h
  rw [if_pos hones] at h
  split at h <;> exact h

/-- Bits whose exponent is small are those of a bounded number. -/
theorem atMost_unpack {a : Int} (ha : -1074 ≤ a) (hlargest : a ≤ 971)
    (h : (b.toNat / 2 ^ 52 % 2 ^ 11 : Nat) ≤ a + 1075) :
    AtMost a (UnpackedFloat.unpack .binary64 b) := by
  rw [← toNat_unpackExponent] at h
  have hones : @unpackExponent .binary64 b ≠ -1#11 := by
    intro heq
    rw [heq] at h
    change ((2047 : Nat) : Int) ≤ _ at h
    omega
  unfold UnpackedFloat.unpack
  dsimp only
  rw [if_neg hones]
  split
  · split
    · trivial
    · rename_i hzero _
      rw [hzero]
      change ((0 : Nat) : Int) - 1075 + 1 ≤ a
      omega
  · change ((@unpackExponent .binary64 b).toNat : Int) - 1075 ≤ a
    omega

theorem atMost_unpack_packComponents {a : Int} (ha : -1074 ≤ a) (hlargest : a ≤ 971) (s : Sign)
    {exponent : BitVec 11} (h : (exponent.toNat : Int) ≤ a + 1075) (mantissa : BitVec 52) :
    AtMost a (UnpackedFloat.unpack .binary64 (packComponents .binary64 s exponent mantissa)) := by
  refine atMost_unpack _ ha hlargest ?_
  rw [← toNat_unpackExponent]
  refine le_of_eq_of_le (congrArg (fun v : BitVec 11 => (v.toNat : Int)) ?_) h
  exact @unpackExponent_packComponents .binary64 _ _ _

/-- A bounded number is read back as one. -/
theorem atMost_unpack_pack {a : Int} {u : UnpackedFloat} (h : AtMost a u) (ha : -1074 ≤ a)
    (hlargest : a ≤ 970) :
    AtMost a (UnpackedFloat.unpack .binary64 (UnpackedFloat.pack .binary64 u)) := by
  cases u with
  | zero s =>
      exact atMost_unpack_packComponents ha (by omega) s
        (by change ((0 : Nat) : Int) ≤ _; omega) 0
  | infinity | notANumber => cases h
  | finite s m e hm =>
      have he : e ≤ a := h
      have hbias : e + (Format.binary64.exponentBias : Int) +
          Format.binary64.mantissaBitsWithoutImplicit = e + 1075 := by
        rw [Int.add_assoc]
        rfl
      rw [UnpackedFloat.pack, hbias]
      dsimp only
      rw [if_neg (by omega)]
      split
      · refine atMost_unpack_packComponents ha (by omega) s ?_ _
        rw [BitVec.toNat_ofNat]
        omega
      · exact atMost_unpack_packComponents ha (by omega) s
          (by change ((0 : Nat) : Int) ≤ _; omega) _

end Bits

/-! ## Rounding -/

section Rounding

theorem mantissa_shiftRight (em : ExtendedMantissa) (k : Nat) :
    (em >>> k).mantissa = em.mantissa / 2 ^ k := by
  induction k with
  | zero => exact (Nat.div_one _).symm
  | succ k ih =>
      have hstep : em >>> (k + 1) = (em >>> k).shiftRightOne := rfl
      rw [hstep, ExtendedMantissa.shiftRightOne, ih, Nat.pow_succ, Nat.div_div_eq_div_mul]

theorem roundedMantissa_le (em : ExtendedMantissa) : em.roundedMantissa ≤ em.mantissa + 1 := by
  obtain ⟨m, round, sticky⟩ := em
  have hparity : m % 2 < 2 := Nat.mod_lt m Nat.two_pos
  cases round <;> cases sticky <;>
    simp only [ExtendedMantissa.roundedMantissa, ExtendedMantissa.accuracy,
      Accuracy.roundToNearestEven] <;> omega

/-- A mantissa of `t` bits has at most one bit more than it keeps when it is shifted and rounded. -/
theorem log2_roundedMantissa_le {m t : Nat} (hm : m < 2 ^ t) (k : Nat) :
    (ExtendedMantissa.roundedMantissa ((⟨m, false, false⟩ : ExtendedMantissa) >>> k)).log2 ≤
      t - k := by
  have hround := roundedMantissa_le ((⟨m, false, false⟩ : ExtendedMantissa) >>> k)
  rw [mantissa_shiftRight] at hround
  dsimp only at hround
  have hdiv : m / 2 ^ k < 2 ^ (t - k) := by
    rw [Nat.div_lt_iff_lt_mul (Nat.two_pow_pos k), ← Nat.pow_add]
    exact hm.trans_le (Nat.pow_le_pow_right Nat.two_pos (by omega))
  have hpow : 2 ^ (t - k + 1) = 2 * 2 ^ (t - k) := Nat.pow_succ'
  generalize ExtendedMantissa.roundedMantissa ((⟨m, false, false⟩ : ExtendedMantissa) >>> k) =
    rounded at hround ⊢
  by_cases hzero : rounded = 0
  · rw [hzero]
    simp
  · exact Nat.lt_succ_iff.1 ((Nat.log2_lt hzero).2 (by omega))

theorem shiftToTargetExponent_snd (m : Nat) (e : Int) :
    (shiftToTargetExponent .binary64 m e .exact).2 =
      max e (max ((m.log2 : Int) + e - 52) (-1074)) := by
  rw [shiftToTargetExponent, shiftToExponent, targetExponent_binary64, totalExponent]
  dsimp only
  omega

theorem log2_shiftToTargetExponent_le {m t : Nat} (hm : m < 2 ^ t) (e : Int) :
    ((shiftToTargetExponent .binary64 m e .exact).1.roundedMantissa.log2 : Int) +
      (shiftToTargetExponent .binary64 m e .exact).2 ≤
        max (t + e) (shiftToTargetExponent .binary64 m e .exact).2 := by
  rw [shiftToTargetExponent, shiftToExponent]
  dsimp only
  generalize (Format.binary64.targetExponent (totalExponent m e) - e).toNat = k
  have hlog := log2_roundedMantissa_le hm k
  change ((ExtendedMantissa.roundedMantissa
    ((⟨m, false, false⟩ : ExtendedMantissa) >>> k)).log2 : Int) + _ ≤ _
  omega

/-- Rounding keeps a number of `t` bits below the next power of two. -/
theorem atMost_roundWithAccuracy {m t : Nat} (hm : m < 2 ^ t) (e : Int) {a : Int}
    (he : e ≤ a) (ht : t + e - 52 ≤ a) (ha : -1074 ≤ a) (s : Sign) :
    AtMost a (roundWithAccuracy .binary64 s m e .exact) := by
  have hfirst := shiftToTargetExponent_snd m e
  have hrounded := log2_shiftToTargetExponent_le hm e
  have hlog : m.log2 ≤ t := by
    rcases Nat.eq_zero_or_pos m with rfl | hpos
    · simp
    · exact ((Nat.log2_lt hpos.ne').2 hm).le
  rw [roundWithAccuracy]
  dsimp only
  generalize shiftToTargetExponent .binary64 m e .exact = shifted at hfirst hrounded
  obtain ⟨em, e'⟩ := shifted
  dsimp only at hfirst hrounded ⊢
  have hsecond := shiftToTargetExponent_snd em.roundedMantissa e'
  generalize shiftToTargetExponent .binary64 em.roundedMantissa e' .exact = final at hsecond
  split
  · trivial
  · change final.2 ≤ a
    omega

theorem atMost_round {m t : Nat} (hm : m < 2 ^ t) {e a : Int} (he : e ≤ a) (ht : t + e - 52 ≤ a)
    (ha : -1074 ≤ a) (s : Sign) : AtMost a (UnpackedFloat.round .binary64 s m e) := by
  rw [UnpackedFloat.round, decreaseExponent]
  dsimp only
  generalize (e - Format.binary64.targetExponent (totalExponent m e)).toNat = k
  have hshifted : m <<< k < 2 ^ (t + k) := by
    rw [Nat.shiftLeft_eq, Nat.pow_add]
    exact Nat.mul_lt_mul_of_pos_right hm (Nat.two_pow_pos k)
  exact atMost_roundWithAccuracy hshifted _ (by omega) (by omega) ha s

theorem atMost_normalize {m : Int} {t : Nat} (hm : m.natAbs < 2 ^ t) {e a : Int} (he : e ≤ a)
    (ht : t + e - 52 ≤ a) (ha : -1074 ≤ a) (s : Sign) :
    AtMost a (UnpackedFloat.normalize .binary64 m e s) := by
  rw [UnpackedFloat.normalize]
  split
  · exact atMost_round (by omega) he ht ha _
  · trivial
  · exact atMost_round (by omega) he ht ha _

end Rounding

/-! ## Arithmetic -/

/-- A double that is finite and has an exponent of at most `a`. -/
def Below (a : Int) (x : Float) : Prop := AtMost a x.toModel.unpack

section Arithmetic

variable {x y : Float} {a b : Int}

theorem Below.mono (h : Below a x) (hab : a ≤ b) : Below b x := AtMost.mono h hab

/-- The product of numbers below `2 ^ (a + 53)` and `2 ^ (b + 53)`. -/
theorem below_mul (hx : Below a x) (hy : Below b y) (hleast : -1074 ≤ a + b + 54)
    (hlargest : a + b + 54 ≤ 970) : Below (a + b + 54) (x * y) := by
  refine atMost_unpack_pack (u := .mul .binary64 x.toModel.unpack y.toModel.unpack) ?_ hleast
    hlargest
  have hm {s m e hm} (h : x.toModel.unpack = .finite s m e hm) := mantissa_lt_of_unpack _ h
  have hn {s n e hn} (h : y.toModel.unpack = .finite s n e hn) := mantissa_lt_of_unpack _ h
  unfold Below at hx hy
  generalize x.toModel.unpack = u at hx hm
  generalize y.toModel.unpack = v at hy hn
  cases u with
  | infinity | notANumber => cases hx
  | zero s =>
      cases v with
      | infinity | notANumber => cases hy
      | zero | finite => trivial
  | finite s m e hpos =>
      cases v with
      | infinity | notANumber => cases hy
      | zero => trivial
      | finite s' n e' hpos' =>
          have he : e ≤ a := hx
          have he' : e' ≤ b := hy
          have hproduct : m * n < 2 ^ (53 + 53) := by
            rw [Nat.pow_add]
            exact Nat.mul_lt_mul'' (hm rfl) (hn rfl)
          exact atMost_roundWithAccuracy hproduct _ (by omega) (by omega) hleast _

theorem decreaseExponent_lt {m : Nat} (hm : m < 2 ^ 53) {e least t : Int} (he : e ≤ t)
    (hleast : least ≤ t) :
    (decreaseExponent m e least).1 < 2 ^ (53 + (t - least).toNat) := by
  rw [decreaseExponent, Nat.shiftLeft_eq]
  calc m * 2 ^ (e - least).toNat
    _ < 2 ^ 53 * 2 ^ (e - least).toNat := Nat.mul_lt_mul_of_pos_right hm (Nat.two_pow_pos _)
    _ ≤ 2 ^ 53 * 2 ^ (t - least).toNat :=
        Nat.mul_le_mul_left _ (Nat.pow_le_pow_right Nat.two_pos (by omega))
    _ = 2 ^ (53 + (t - least).toNat) := (Nat.pow_add 2 53 _).symm

theorem natAbs_apply (s : Sign) (n : Nat) : (s.apply n).natAbs = n := by
  cases s with
  | positive => exact Int.natAbs_natCast n
  | negative => exact (Int.natAbs_neg _).trans (Int.natAbs_natCast n)

/-- The difference of numbers below `2 ^ (a + 53)`. -/
theorem below_sub (hx : Below a x) (hy : Below a y) (hleast : -1074 ≤ a + 2)
    (hlargest : a + 2 ≤ 970) : Below (a + 2) (x - y) := by
  refine atMost_unpack_pack (u := .sub .binary64 x.toModel.unpack y.toModel.unpack) ?_ hleast
    hlargest
  have hm {s m e hm} (h : x.toModel.unpack = .finite s m e hm) := mantissa_lt_of_unpack _ h
  have hn {s n e hn} (h : y.toModel.unpack = .finite s n e hn) := mantissa_lt_of_unpack _ h
  unfold Below at hx hy
  generalize x.toModel.unpack = u at hx hm
  generalize y.toModel.unpack = v at hy hn
  cases u with
  | infinity | notANumber => cases hx
  | zero s =>
      cases v with
      | infinity | notANumber => cases hy
      | zero s' =>
          rw [UnpackedFloat.sub]
          split <;> trivial
      | finite => exact AtMost.mono hy (by omega)
  | finite s m e hpos =>
      cases v with
      | infinity | notANumber => cases hy
      | zero => exact AtMost.mono hx (by omega)
      | finite s' n e' hpos' =>
          have he : e ≤ a := hx
          have he' : e' ≤ a := hy
          have hfirst := decreaseExponent_lt (hm rfl) (le_max_left e e')
            ((min_le_left e e').trans (le_max_left e e'))
          have hsecond := decreaseExponent_lt (hn rfl) (le_max_right e e')
            ((min_le_left e e').trans (le_max_left e e'))
          rw [UnpackedFloat.sub]
          dsimp only
          generalize (decreaseExponent m e (min e e')).1 = m' at hfirst ⊢
          generalize (decreaseExponent n e' (min e e')).1 = n' at hsecond ⊢
          have hdifference : (s.apply m' - s'.apply n').natAbs <
              2 ^ (53 + (max e e' - min e e').toNat + 1) := by
            have hm' := natAbs_apply s m'
            have hn' := natAbs_apply s' n'
            rw [Nat.pow_succ]
            omega
          exact atMost_normalize hdifference (by omega) (by omega) hleast _

end Arithmetic

/-! ## Whole numbers -/

section Wholes

theorem below_double {k : Int} (hk : k.natAbs < 2 ^ 53) : Below (-1) (double k) := by
  have hlog := log2_le hk
  rw [Below, unpack_double hk]
  by_cases h : k = 0
  · subst h
    trivial
  · rw [half_of_ne h]
    change (k.natAbs.log2 : Int) - 53 ≤ -1
    omega

theorem below_ofBits {bits : UInt64} {a : Int} (ha : -1074 ≤ a) (hlargest : a ≤ 970)
    (h : (bits.toNat / 2 ^ 52 % 2 ^ 11 : Nat) ≤ a + 1075) : Below a (Float.ofBits bits) :=
  atMost_unpack_pack (atMost_unpack _ ha (by omega) h) ha hlargest

/-- The bits of a quotient below a power of two: its exponent, and one more where rounding
carries. -/
theorem exists_nearestBits? {n den t : Nat} (hden : 0 < den) (hn : n < 2 ^ t) (ht : t ≤ 1020) :
    ∃ bits, Binary64.nearestBits? n den = some bits ∧ bits / 2 ^ 52 ≤ t + 1023 := by
  obtain ⟨places, hplaces⟩ : ∃ places, places = 1074 := ⟨_, rfl⟩
  have hunits : n * Binary64.one < 2 ^ (t + places) := by
    rw [one_eq hplaces, Nat.pow_add]
    exact Nat.mul_lt_mul_of_pos_right hn (Nat.two_pow_pos places)
  rw [Binary64.nearestBits?]
  generalize n * Binary64.one = units at hunits
  have hquotient : units < (units / den + 1) * den := by
    rw [Nat.mul_comm]
    exact Nat.lt_mul_div_succ units hden
  have hless := (Nat.div_le_self units den).trans_lt hunits
  generalize units / den = quotient at hquotient hless
  have hshift : quotient.log2 + 1 - 53 ≤ t + 1021 := by
    rcases Nat.eq_zero_or_pos quotient with rfl | hpos
    · simp
    · have hlog := (Nat.log2_lt hpos.ne').2 hless
      omega
  have hsmall : quotient < 2 ^ (quotient.log2 + 1 - 53 + 53) :=
    Nat.lt_log2_self.trans_le (Nat.pow_le_pow_right Nat.two_pos (by omega))
  generalize quotient.log2 + 1 - 53 = shift at hshift hsmall
  have hscale : 0 < den * 2 ^ shift := Nat.mul_pos hden (Nat.two_pow_pos shift)
  have hscaled : units < den * 2 ^ shift * 2 ^ 53 :=
    calc units
      _ < (quotient + 1) * den := hquotient
      _ ≤ 2 ^ (shift + 53) * den := Nat.mul_le_mul_right den hsmall
      _ = den * 2 ^ shift * 2 ^ 53 := by rw [Nat.pow_add, Nat.mul_comm, Nat.mul_assoc]
  have hrounded : nearestEven units (den * 2 ^ shift) ≤ 2 ^ 53 := by
    have hbounds := (nearestEven_bounds units (den * 2 ^ shift) hscale).2
    by_contra hlarge
    have hmore := Nat.mul_le_mul_right (den * 2 ^ shift)
      (Nat.succ_le_of_lt (Nat.lt_of_not_le hlarge))
    rw [Nat.succ_mul] at hmore
    generalize nearestEven units (den * 2 ^ shift) = rounded at *
    generalize den * 2 ^ shift = scale at *
    omega
  simp only [Nat.pow_eq]
  generalize nearestEven units (den * 2 ^ shift) = rounded at hrounded
  refine ⟨_, if_pos ?_, ?_⟩ <;> omega

/-- A quotient of whole numbers that is not too large has a nearest double. -/
theorem exists_ofQuotient? {n den t : Nat} (hden : 0 < den) (hn : n < 2 ^ t) (ht : t ≤ 1020) :
    ∃ x, Binary64.ofQuotient? n den = some x ∧ Below (t - 52) x := by
  obtain ⟨bits, hbits, hexponent⟩ := exists_nearestBits? hden hn ht
  rw [Binary64.ofQuotient?, Int.natAbs_natCast, hbits, Option.map_some, if_neg (by omega)]
  refine ⟨_, rfl, below_ofBits (by omega) (by omega) ?_⟩
  rw [UInt64.toNat_ofNat']
  omega

theorem exists_ofInt? {n t : Nat} (hn : n < 2 ^ t) (ht : t ≤ 1020) :
    ∃ x, Binary64.ofInt? n = some x ∧ Below (t - 52) x :=
  exists_ofQuotient? Nat.one_pos hn ht

end Wholes

theorem exists_decode {a : Int} {x : Float} (h : Below a x) :
    ∃ negative units, Binary64.decode x = .finite negative units := by
  have hexponent : x.toBits.toNat / 2 ^ 52 % 2 ^ 11 ≠ 2047 := exponent_ne_of_atMost _ h
  simp only [Binary64.decode, Binary64.decodeBits, Nat.pow_eq]
  rw [if_neg hexponent]
  split <;> exact ⟨_, _, rfl⟩

end Doubles

/-! ## Pixels -/

namespace Measure

open Doubles

variable {a : Int} {x : Float}

theorem real_sub {b : Measure} {y : Float} (x : Float) (hb : b.toFloat? = some y) :
    real x - b = real (x - y) := by
  change sub (real x) b = _
  rw [sub.eq_2 _ _ (by simp), onFloats_eq rfl hb]

/-- There is a whole number next to a double of bounded magnitude. -/
theorem exists_toWhole (h : Below a x) (next : Bool → Nat → Int) :
    ∃ n, toWhole next (real x) = .ok n := by
  obtain ⟨negative, units, hdecode⟩ := exists_decode h
  rw [toWhole, hdecode]
  exact ⟨_, rfl⟩

/-- A number with a double below `2 ^ 968`. -/
def Moderate (m : Measure) : Prop := ∃ x, m.toFloat? = some x ∧ Below 915 x

theorem moderate_whole {n : Nat} (hn : n < 2 ^ 967) : (whole n).Moderate :=
  exists_ofInt? hn (by decide)

theorem whole_div {m n : Int} {den : Nat} (hn : ¬ n < 0) (hden : n.natAbs = den) {x : Float}
    (h : Binary64.ofQuotient? m den = some x) :
    (Scalar.whole m / Scalar.whole n : Measure) = real x := by
  have hdiv : (Scalar.whole m / Scalar.whole n : Measure) = div (whole m) (whole n) := rfl
  rw [hdiv, div, if_neg hn, hden, h, ofFloat?]

/-- Half of a whole number. -/
theorem exists_half {w : Nat} (hw : w < 2 ^ 52) :
    ∃ y, (Scalar.whole w / Scalar.whole 2 : Measure) = real y ∧ Below 915 y := by
  obtain ⟨t, ht⟩ : ∃ t, t = 52 := ⟨_, rfl⟩
  rw [← ht] at hw
  obtain ⟨y, hy, hbelow⟩ := exists_ofQuotient? Nat.two_pos hw (by omega)
  exact ⟨y, whole_div (by decide) rfl hy, hbelow.mono (by omega)⟩

theorem moderate_half {w : Nat} (hw : w < 2 ^ 52) :
    (Scalar.whole w / Scalar.whole 2 : Measure).Moderate := by
  obtain ⟨y, hy, hbelow⟩ := exists_half hw
  exact ⟨y, by rw [hy]; rfl, hbelow⟩

/-- There is a cell next to a moderate number less half a width. -/
theorem Moderate.exists_round {m : Measure} (h : m.Moderate) {w : Nat} (hw : w < 2 ^ 52) :
    ∃ n, Scalar.round (m - Scalar.whole w / Scalar.whole 2) = .ok n := by
  obtain ⟨x, hx, hbelow⟩ := h
  obtain ⟨y, hy, hbelow'⟩ := exists_half hw
  rw [hy, sub_real hx]
  exact exists_toWhole (below_sub hbelow hbelow' (by decide) (by decide)) _

/-- Fewer than `2 ^ 52` cells, less one pixel, take a whole number of pixels. -/
theorem exists_ceil_pixels {n : Int} (hn : 0 ≤ n ∧ n < 2 ^ 52) (hx : Below a x) (ha : 0 ≤ a)
    (hlargest : a ≤ 915) :
    Scalar.fault? (Scalar.whole n * real x - Scalar.whole 1 : Measure) = none ∧
      ∃ m, Scalar.ceil (Scalar.positivePart (Scalar.whole n * real x - Scalar.whole 1 : Measure)) =
        .ok m := by
  have hproduct : Scalar.whole n * real x = real (double (2 * n) * x) :=
    mul_real (toFloat?_whole (by omega)) x
  have hdifference : real (double (2 * n) * x) - Scalar.whole 1 =
      real (double (2 * n) * x - double 2) :=
    real_sub _ (toFloat?_whole (n := 1) (by decide))
  have hbelow : Below (a + 55) (double (2 * n) * x - double 2) :=
    (below_sub (below_mul (below_double (by omega)) hx (by omega) (by omega))
      ((below_double (k := 2) (by decide)).mono (by omega)) (by omega) (by omega)).mono (by omega)
  rw [hproduct, hdifference]
  refine ⟨rfl, ?_⟩
  change ∃ m, ceil (positivePart (real (double (2 * n) * x - double 2))) = .ok m
  rw [positivePart]
  split
  · exact exists_toWhole hbelow _
  · exact ⟨0, by decide +kernel⟩

end Measure

end Number
end CellSketch
