import Mathlib.Algebra.Order.Field.Rat
import Mathlib.Data.List.DropRight
import Mathlib.Tactic.FieldSimp
import Mathlib.Tactic.Ring
import CellSketch.Proofs.Number.Wholes

/-!
# Trimmed — numbers with up to four decimal places

A double is written with the decimal places that are needed, four at most.  The text is read back
as the exact value of the double rounded to four places, where a half goes to the even side, and
there is one text for each rounded number.

* `RoundsTo` — a number rounded to some decimal places;
* `Decimal.read?` — the number that a plain decimal stands for;
* `Decimal.Canonical` — a decimal that has nothing to leave out;
* `Decimal.trimmedDigits`, `Decimal.trim_fixedDigits` — what is left of the digits of a number when
  they are stripped;
* `Decimal.read?_trimmedDigits`, `Decimal.canonical_trimmedDigits` — it is canonical and is read
  back;
* `trimmedText_canonical` — so it is for every finite double.
-/

namespace CellSketch
namespace Number

/-! ## Rounding to decimal places -/

/-- A whole number next to `x`, which is even if another one is as near. -/
structure IsNearest (x : Rat) (n : Int) : Prop where
  near : |x - n| ≤ 1 / 2
  even : |x - n| = 1 / 2 → Even n

/-- A number with some decimal places, next to `x` among these, and with an even last place if
another one is as near. -/
def RoundsTo (places : Nat) (x q : Rat) : Prop :=
  ∃ n : Int, q = n / 10 ^ places ∧ IsNearest (x * 10 ^ places) n

namespace IsNearest

variable {x : Rat} {m n : Int}

theorem neg (h : IsNearest x n) : IsNearest (-x) (-n) := by
  have hdistance : |-x - ((-n : Int) : Rat)| = |x - n| := by
    rw [Int.cast_neg, neg_sub_neg, abs_sub_comm]
  refine ⟨?_, fun htie => ?_⟩
  · rw [hdistance]
    exact h.near
  · rw [hdistance] at htie
    exact (h.even htie).neg

/-- Only one whole number is nearest. -/
theorem unique (hm : IsNearest x m) (hn : IsNearest x n) : m = n := by
  wlog hle : m ≤ n generalizing m n
  · exact (this hn hm (le_of_not_ge hle)).symm
  by_contra hne
  have hsucc : m + 1 ≤ n := Int.add_one_le_of_lt (lt_of_le_of_ne hle hne)
  have hcast : (m : Rat) + 1 ≤ n := by exact_mod_cast hsucc
  have hup := (abs_le.1 hm.near).2
  have hdown := (abs_le.1 hn.near).1
  -- both are half a unit away, so they are neighbours, and both of them even
  have hm' : x - m = 1 / 2 := by linarith
  have hn' : x - n = -(1 / 2) := by linarith
  have hnext : n = m + 1 := by
    have : (n : Rat) = m + 1 := by linarith
    exact_mod_cast this
  have hevenM := hm.even (by rw [hm', abs_of_pos (by norm_num)])
  have hevenN := hn.even (by rw [hn', abs_neg, abs_of_pos (by norm_num)])
  rw [hnext] at hevenN
  exact (Int.even_add_one.1 hevenN) hevenM

end IsNearest

theorem RoundsTo.unique {places : Nat} {x q r : Rat} (hq : RoundsTo places x q)
    (hr : RoundsTo places x r) : q = r := by
  obtain ⟨m, rfl, hm⟩ := hq
  obtain ⟨n, rfl, hn⟩ := hr
  rw [hm.unique hn]

/-- Where a quotient lies half way between two whole numbers, it is rounded to the even one. -/
theorem even_nearestEven (num : Nat) {den : Nat} (hden : 0 < den)
    (htie : 2 * num = (2 * nearestEven num den + 1) * den ∨
      2 * num + den = 2 * (nearestEven num den * den)) : Even (nearestEven num den) := by
  have hdm := Nat.div_add_mod num den
  have hlt := Nat.mod_lt num hden
  rw [Nat.even_iff]
  unfold nearestEven at *
  generalize num / den = q at *
  generalize num % den = r at *
  subst hdm
  split_ifs at * <;> grind

theorem isNearest_nearestEven (num : Nat) {den : Nat} (hden : 0 < den) :
    IsNearest ((num : Rat) / den) (nearestEven num den : Nat) := by
  have hpos : (0 : Rat) < den := by exact_mod_cast hden
  obtain ⟨hlow, hhigh⟩ := nearestEven_bounds num den hden
  have htie := even_nearestEven num hden
  generalize nearestEven num den = n at hlow hhigh htie ⊢
  have hlow' : 2 * (num : Rat) ≤ (2 * n + 1) * den := by exact_mod_cast hlow
  have hhigh' : 2 * ((n : Rat) * den) ≤ 2 * num + den := by exact_mod_cast hhigh
  constructor
  · rw [Int.cast_natCast, abs_le]
    have habove : (n : Rat) - 1 / 2 ≤ num / den := by
      rw [le_div_iff₀ hpos]
      linarith
    have hbelow : (num : Rat) / den ≤ n + 1 / 2 := by
      rw [div_le_iff₀ hpos]
      linarith
    constructor <;> linarith
  · intro hhalf
    rw [Int.cast_natCast] at hhalf
    have hvalue : (num : Rat) = num / den * den := (div_mul_cancel₀ _ hpos.ne').symm
    refine (Int.even_coe_nat n).2 (htie ?_)
    rcases (abs_eq (by norm_num)).1 hhalf with habove | hbelow
    · have hnum : 2 * (num : Rat) = (2 * n + 1) * den := by
        rw [hvalue, eq_add_of_sub_eq habove]
        ring
      exact Or.inl (by exact_mod_cast hnum)
    · have hnum : 2 * (num : Rat) + den = 2 * (n * den) := by
        rw [hvalue, eq_add_of_sub_eq hbelow]
        ring
      exact Or.inr (by exact_mod_cast hnum)

/-- The units of a double are rounded as its exact value. -/
theorem roundsTo_scaled (places : Nat) (negative : Bool) (units : Nat) :
    RoundsTo places (Binary64.signed negative units / Binary64.one)
      (Binary64.signed negative (Decimal.scaled places units) / 10 ^ places) := by
  have hone : 0 < Binary64.one := by decide +kernel
  have hnearest := isNearest_nearestEven (units * Nat.pow 10 places) hone
  have hscale : ((units * Nat.pow 10 places : Nat) : Rat) / Binary64.one =
      units / Binary64.one * 10 ^ places := by
    rw [Nat.pow_eq, Nat.cast_mul, Nat.cast_pow, Nat.cast_ofNat]
    ring
  rw [hscale] at hnearest
  refine ⟨_, rfl, ?_⟩
  cases negative with
  | false => exact hnearest
  | true =>
      have hneg := hnearest.neg
      rw [← neg_mul, ← neg_div] at hneg
      rw [Binary64.signed, Binary64.signed, if_pos rfl, if_pos rfl, Int.cast_neg, Int.cast_natCast]
      exact hneg

/-! ## Reading decimals -/

namespace Decimal

/-- The number that some digits stand for, if they are digits. -/
def natural? (cs : List Char) : Option Nat :=
  if !cs.isEmpty && cs.all Char.isDigit then some (Nat.ofDigitChars 10 cs 0) else none

/-- The number that a decimal without a sign stands for: digits, and digits behind a point if there
is one. -/
def unsigned? (cs : List Char) : Option Rat :=
  match cs.takeWhile (· != '.'), cs.dropWhile (· != '.') with
  | whole, [] => (natural? whole).map (↑)
  | whole, _ :: fraction => do
      let m ← natural? whole
      let n ← natural? fraction
      some ((m : Rat) + (n : Rat) / 10 ^ fraction.length)

/-- The number that a plain decimal stands for, which may have a sign and has no exponent. -/
def read? : List Char → Option Rat
  | '-' :: cs => (unsigned? cs).map (-·)
  | cs => unsigned? cs

section Reading

variable {cs whole fraction : List Char} {m n : Nat}

theorem natural?_eq_some_iff : natural? cs = some n ↔
    (cs ≠ [] ∧ ∀ c ∈ cs, c.isDigit) ∧ Nat.ofDigitChars 10 cs 0 = n := by
  have hdigits : (!cs.isEmpty && cs.all Char.isDigit) = true ↔
      cs ≠ [] ∧ ∀ c ∈ cs, c.isDigit := by simp
  rw [natural?, ← hdigits]
  split <;> simp_all

theorem bne_point_of_natural? (h : natural? cs = some n) : ∀ c ∈ cs, (c != '.') = true := by
  intro c hc
  rw [bne_iff_ne]
  rintro rfl
  exact absurd ((natural?_eq_some_iff.1 h).1.2 _ hc) (by decide)

theorem unsigned?_whole (h : natural? whole = some m) : unsigned? whole = some (m : Rat) := by
  have hpoint := bne_point_of_natural? h
  rw [unsigned?, List.takeWhile_eq_self_iff.2 hpoint, List.dropWhile_eq_nil_iff.2 hpoint]
  dsimp only
  rw [h]
  rfl

theorem unsigned?_point (hwhole : natural? whole = some m)
    (hfraction : natural? fraction = some n) :
    unsigned? (whole ++ '.' :: fraction) = some ((m : Rat) + (n : Rat) / 10 ^ fraction.length) := by
  have hpoint := bne_point_of_natural? hwhole
  rw [unsigned?, List.takeWhile_append_of_pos hpoint, List.dropWhile_append_of_pos hpoint]
  simp [hwhole, hfraction]

/-- A text that starts with a digit has no sign. -/
theorem read?_of_isDigit {c : Char} (hc : c.isDigit) : read? (c :: cs) = unsigned? (c :: cs) := by
  unfold read?
  split
  · rename_i heq
    obtain ⟨rfl, -⟩ := List.cons.inj heq
    exact absurd hc (by decide)
  · rfl

end Reading

/-! ## Digits -/

theorem isDigit_of_mem_digits {n : Nat} {c : Char} (h : c ∈ digits n) : c.isDigit :=
  Nat.isDigit_of_mem_toDigits (by decide) (by decide) h

theorem natural?_digits (n : Nat) : natural? (digits n) = some n :=
  natural?_eq_some_iff.2 ⟨⟨Nat.toDigits_ne_nil, fun _ => isDigit_of_mem_digits⟩,
    Nat.ofDigitChars_ten_toDigits⟩

section Places

variable {places n : Nat}

theorem isDigit_of_mem_paddedDigits {c : Char} (h : c ∈ paddedDigits places n) : c.isDigit := by
  rcases List.mem_append.1 h with hzero | hdigit
  · rw [List.eq_of_mem_replicate hzero]
    rfl
  · exact isDigit_of_mem_digits hdigit

theorem ofDigitChars_paddedDigits (places n : Nat) :
    Nat.ofDigitChars 10 (paddedDigits places n) 0 = n := by
  rw [paddedDigits, Nat.ofDigitChars_append, Nat.ofDigitChars_replicate_zero, Nat.mul_zero]
  exact Nat.ofDigitChars_ten_toDigits

/-- Numbers that need no more than the places are filled up to them. -/
theorem length_paddedDigits (hplaces : 0 < places) (hn : n < 10 ^ places) :
    (paddedDigits places n).length = places := by
  have hlength : (digits n).length ≤ places :=
    (Nat.length_toDigits_le_iff (by decide) hplaces).2 hn
  rw [paddedDigits, List.length_append, List.length_replicate]
  exact Nat.sub_add_cancel hlength

end Places

/-! ## Stripping -/

theorem stripRight_eq (c : Char) (cs : List Char) : stripRight c cs = cs.rdropWhile (· == c) := rfl

theorem exists_stripped (c : Char) (cs : List Char) :
    ∃ k, stripRight c cs ++ List.replicate k c = cs := by
  have hsame : ∀ d ∈ cs.rtakeWhile (· == c), d = c := fun d hd =>
    beq_iff_eq.1 (List.mem_rtakeWhile_imp (p := (· == c)) hd)
  refine ⟨(cs.rtakeWhile (· == c)).length, ?_⟩
  rw [← List.eq_replicate_of_mem hsame, stripRight_eq, List.rdropWhile_append_rtakeWhile]

theorem getLast_stripRight {c : Char} {cs : List Char} (h : stripRight c cs ≠ []) :
    (stripRight c cs).getLast h ≠ c := by
  have hlast := List.rdropWhile_last_not (· == c) cs h
  rwa [beq_iff_eq] at hlast

/-- What does not end with the character is left when those behind it are stripped. -/
theorem stripRight_append_replicate {c : Char} {cs : List Char} (h : cs.getLast? ≠ some c)
    (k : Nat) : stripRight c (cs ++ List.replicate k c) = cs := by
  induction k with
  | zero =>
      rw [List.replicate_zero, List.append_nil, stripRight_eq, List.rdropWhile_eq_self_iff]
      intro hne hlast
      rw [beq_iff_eq] at hlast
      exact h (hlast ▸ List.getLast?_eq_some_getLast hne)
  | succ k ih =>
      rw [List.replicate_succ', ← List.append_assoc, stripRight_eq, List.rdropWhile_concat,
        if_pos (beq_self_eq_true c), ← stripRight_eq, ih]

/-- Behind the point, zeros at the end count for nothing. -/
theorem fraction_stripRight (cs : List Char) :
    (Nat.ofDigitChars 10 (stripRight '0' cs) 0 : Rat) / 10 ^ (stripRight '0' cs).length =
      Nat.ofDigitChars 10 cs 0 / 10 ^ cs.length := by
  obtain ⟨k, hk⟩ := exists_stripped '0' cs
  generalize stripRight '0' cs = kept at hk ⊢
  rw [← hk, Nat.ofDigitChars_append, Nat.ofDigitChars_replicate_zero, List.length_append,
    List.length_replicate, Nat.cast_mul, Nat.cast_pow, Nat.cast_ofNat, pow_add]
  field_simp

/-! ## Trimmed decimals -/

/-- The digits that are left behind the point of `n` units of the last place. -/
def fractionDigits (places n : Nat) : List Char :=
  stripRight '0' (paddedDigits places (n % 10 ^ places))

/-- A trimmed decimal without its sign: there is a point only before digits. -/
def magnitudeDigits (places n : Nat) : List Char :=
  digits (n / 10 ^ places) ++
    if (fractionDigits places n).isEmpty then [] else '.' :: fractionDigits places n

/-- A trimmed decimal: zero has no sign. -/
def trimmedDigits (places : Nat) (negative : Bool) (n : Nat) : List Char :=
  (if negative && n != 0 then ['-'] else []) ++ magnitudeDigits places n

section Trimmed

variable {places n : Nat}

theorem isDigit_of_mem_fractionDigits {c : Char} (h : c ∈ fractionDigits places n) :
    c.isDigit :=
  isDigit_of_mem_paddedDigits ((List.rdropWhile_prefix _ _).subset h)

theorem exists_magnitudeDigits (places n : Nat) :
    ∃ c cs, magnitudeDigits places n = c :: cs ∧ c.isDigit := by
  obtain ⟨c, cs, hdigits⟩ := List.exists_cons_of_ne_nil
    (Nat.toDigits_ne_nil (b := 10) (n := n / 10 ^ places))
  refine ⟨c, _, congrArg (· ++ _) hdigits, isDigit_of_mem_digits (n := n / 10 ^ places) ?_⟩
  rw [digits, hdigits]
  exact List.mem_cons_self

theorem unsigned?_magnitudeDigits (hplaces : 0 < places) (n : Nat) :
    unsigned? (magnitudeDigits places n) = some ((n : Rat) / 10 ^ places) := by
  have hpow : 0 < 10 ^ places := Nat.pow_pos (by decide)
  have hwhole := natural?_digits (n / 10 ^ places)
  -- the digits behind the point are those of the remainder
  have hvalue : (Nat.ofDigitChars 10 (fractionDigits places n) 0 : Rat) /
      10 ^ (fractionDigits places n).length = (n % 10 ^ places : Nat) / 10 ^ places := by
    rw [fractionDigits, fraction_stripRight, ofDigitChars_paddedDigits,
      length_paddedDigits hplaces (Nat.mod_lt n hpow)]
  have hsum : ((n / 10 ^ places : Nat) : Rat) + (n % 10 ^ places : Nat) / 10 ^ places =
      n / 10 ^ places := by
    have hdm : (10 ^ places * (n / 10 ^ places : Nat) + (n % 10 ^ places : Nat) : Rat) = n := by
      exact_mod_cast Nat.div_add_mod n (10 ^ places)
    rw [← hdm]
    field_simp
  rw [← hsum, ← hvalue, magnitudeDigits]
  cases hfraction : fractionDigits places n with
  | nil =>
      rw [List.isEmpty_nil, if_pos rfl, List.append_nil, unsigned?_whole hwhole]
      simp
  | cons c cs =>
      have hdigits : natural? (c :: cs) = some (Nat.ofDigitChars 10 (c :: cs) 0) :=
        natural?_eq_some_iff.2 ⟨⟨List.cons_ne_nil c cs, fun d hd =>
          isDigit_of_mem_fractionDigits (hfraction ▸ hd)⟩, rfl⟩
      exact unsigned?_point hwhole hdigits

/-- Only zero is written as zero. -/
theorem magnitudeDigits_eq_zero_iff (hplaces : 0 < places) :
    magnitudeDigits places n = ['0'] ↔ n = 0 := by
  constructor
  · intro hzero
    have hread := unsigned?_magnitudeDigits hplaces n
    rw [hzero, show ['0'] = digits 0 from rfl, unsigned?_whole (natural?_digits 0),
      Option.some.injEq, eq_comm, Nat.cast_zero, div_eq_zero_iff] at hread
    exact_mod_cast hread.resolve_right (by positivity)
  · rintro rfl
    have hpadded : paddedDigits places 0 = [] ++ List.replicate places '0' := by
      rw [paddedDigits, List.nil_append, show digits 0 = List.replicate 1 '0' from rfl,
        List.replicate_append_replicate, List.length_replicate, Nat.sub_add_cancel hplaces]
    have hfraction : fractionDigits places 0 = [] := by
      rw [fractionDigits, Nat.zero_mod, hpadded]
      exact stripRight_append_replicate (by simp) places
    rw [magnitudeDigits, hfraction, Nat.zero_div]
    rfl

/-- The zeros behind the last place that counts go first, and then the point if no place counts. -/
theorem stripRight_fixedDigits (places : Nat) (negative : Bool) (n : Nat) :
    stripRight '.' (stripRight '0' (fixedDigits places negative n)) =
      (if negative then ['-'] else []) ++ magnitudeDigits places n := by
  obtain ⟨k, hk⟩ := exists_stripped '0' (paddedDigits places (n % 10 ^ places))
  have hfixed : fixedDigits places negative n =
      (if negative then ['-'] else []) ++ digits (n / 10 ^ places) ++
        '.' :: fractionDigits places n ++ List.replicate k '0' := by
    rw [List.append_assoc _ ('.' :: _), List.cons_append]
    exact congrArg (_ ++ '.' :: ·) hk.symm
  have hdigits : digits (n / 10 ^ places) ≠ [] := Nat.toDigits_ne_nil
  rw [hfixed, magnitudeDigits, ← List.append_assoc]
  generalize (if negative then ['-'] else []) = sign
  cases hfraction : fractionDigits places n with
  | nil =>
      rw [stripRight_append_replicate (by simp), List.isEmpty_nil, if_pos rfl, List.append_nil]
      refine stripRight_append_replicate (fun hpoint => ?_) 1
      rw [List.getLast?_append_of_ne_nil _ hdigits, List.getLast?_eq_some_getLast hdigits,
        Option.some.injEq] at hpoint
      exact absurd (isDigit_of_mem_digits (hpoint ▸ List.getLast_mem hdigits)) (by decide)
  | cons d ds =>
      have hne : fractionDigits places n ≠ [] := hfraction ▸ List.cons_ne_nil d ds
      have hlast : (sign ++ digits (n / 10 ^ places) ++ '.' :: d :: ds).getLast? =
          some ((fractionDigits places n).getLast hne) := by
        simp [hfraction, List.getLast?_eq_some_getLast]
      rw [stripRight_append_replicate]
      · refine (congrArg (stripRight '.') (List.append_nil _).symm).trans
          (stripRight_append_replicate (k := 0) ?_)
        rw [hlast, Ne, Option.some.injEq]
        intro hpoint
        exact absurd (isDigit_of_mem_fractionDigits (hpoint ▸ List.getLast_mem hne)) (by decide)
      · rw [hlast, Ne, Option.some.injEq]
        exact getLast_stripRight hne

/-- What is written of a number is the trimmed decimal. -/
theorem trim_fixedDigits (hplaces : 0 < places) (negative : Bool) (n : Nat) :
    trim (fixedDigits places negative n) = trimmedDigits places negative n := by
  obtain ⟨c, cs, hcs, hc⟩ := exists_magnitudeDigits places n
  rw [trim, stripRight_fixedDigits, trimmedDigits]
  cases negative with
  | false =>
      -- a digit is no sign
      have hsign : c ≠ '-' := by
        rintro rfl
        exact absurd hc (by decide)
      simp [hcs, hsign]
  | true =>
      have hzero := magnitudeDigits_eq_zero_iff (n := n) hplaces
      obtain rfl | hn := eq_or_ne n 0
      · simp [hzero.2 rfl]
      · simp [hzero, hn]

/-- What is written is read back. -/
theorem read?_trimmedDigits (hplaces : 0 < places) (negative : Bool) (n : Nat) :
    read? (trimmedDigits places negative n) =
      some ((Binary64.signed negative n : Rat) / 10 ^ places) := by
  have hmagnitude := unsigned?_magnitudeDigits hplaces n
  rw [trimmedDigits]
  by_cases hsign : (negative && n != 0) = true
  · obtain ⟨rfl, -⟩ := Bool.and_eq_true_iff.1 hsign
    rw [if_pos hsign, List.singleton_append, read?, hmagnitude, Binary64.signed, if_pos rfl,
      Int.cast_neg, Int.cast_natCast, neg_div]
    rfl
  · -- a number without a sign is not negative, or it is zero
    have hsigned : Binary64.signed negative n = n := by
      rw [Binary64.signed]
      split
      · obtain rfl : n = 0 := by simp_all
        rfl
      · rfl
    obtain ⟨c, cs, hcs, hc⟩ := exists_magnitudeDigits places n
    rw [hcs] at hmagnitude
    rw [if_neg hsign, List.nil_append, hcs, read?_of_isDigit hc, hmagnitude, hsigned,
      Int.cast_natCast]

/-- A decimal with nothing to leave out: no zero at the end of its places, no point with nothing
behind it, and no sign of zero. -/
structure Canonical (cs : List Char) : Prop where
  no_zero : '.' ∈ cs → cs.getLast? ≠ some '0'
  no_point : cs.getLast? ≠ some '.'
  no_sign : cs ≠ ['-', '0']

theorem exists_getLast?_magnitudeDigits (places n : Nat) :
    ∃ c, (magnitudeDigits places n).getLast? = some c ∧ c.isDigit ∧
      ('.' ∈ magnitudeDigits places n → c ≠ '0') := by
  rw [magnitudeDigits]
  cases hfraction : fractionDigits places n with
  | nil =>
      rw [List.isEmpty_nil, if_pos rfl, List.append_nil]
      have hdigits : digits (n / 10 ^ places) ≠ [] := Nat.toDigits_ne_nil
      refine ⟨_, List.getLast?_eq_some_getLast hdigits,
        isDigit_of_mem_digits (List.getLast_mem hdigits), fun hpoint => ?_⟩
      exact absurd (isDigit_of_mem_digits hpoint) (by decide)
  | cons d ds =>
      have hne : fractionDigits places n ≠ [] := hfraction ▸ List.cons_ne_nil d ds
      have hlast : (digits (n / 10 ^ places) ++ '.' :: d :: ds).getLast? =
          some ((fractionDigits places n).getLast hne) := by
        simp [hfraction, List.getLast?_eq_some_getLast]
      exact ⟨_, hlast, isDigit_of_mem_fractionDigits (List.getLast_mem hne),
        fun _ => getLast_stripRight hne⟩

theorem canonical_trimmedDigits (hplaces : 0 < places) (negative : Bool) (n : Nat) :
    Canonical (trimmedDigits places negative n) := by
  obtain ⟨c, hlast, hdigit, hzero⟩ := exists_getLast?_magnitudeDigits places n
  have hlast' : (trimmedDigits places negative n).getLast? = some c := by
    rw [trimmedDigits, List.getLast?_append, hlast]
    rfl
  refine ⟨fun hpoint => ?_, ?_, fun hsign => ?_⟩
  · rw [hlast', Ne, Option.some.injEq]
    refine hzero ?_
    -- the sign is no point
    rw [trimmedDigits, List.mem_append] at hpoint
    refine hpoint.resolve_left ?_
    split <;> decide
  · rw [hlast', Ne, Option.some.injEq]
    rintro rfl
    exact absurd hdigit (by decide)
  · -- zero is written without a sign
    by_cases hn : (negative && n != 0) = true
    · rw [trimmedDigits, if_pos hn, List.singleton_append, List.cons.injEq,
        magnitudeDigits_eq_zero_iff hplaces] at hsign
      simp [hsign.2] at hn
    · obtain ⟨d, ds, hds, hd⟩ := exists_magnitudeDigits places n
      rw [trimmedDigits, if_neg hn, List.nil_append, hds] at hsign
      obtain ⟨rfl, -⟩ := List.cons.inj hsign
      exact absurd hd (by decide)

/-- The text only depends on the number, not on the sign of zero. -/
theorem trimmedDigits_congr {b c : Bool} {m n : Nat}
    (h : Binary64.signed b m = Binary64.signed c n) :
    trimmedDigits places b m = trimmedDigits places c n := by
  obtain rfl : m = n := by
    have habs := congrArg Int.natAbs h
    cases b <;> cases c <;> simpa [Binary64.signed] using habs
  rw [trimmedDigits, trimmedDigits]
  cases m with
  | zero => simp
  | succ m =>
      obtain rfl : b = c := by
        revert h
        cases b <;> cases c <;> simp [Binary64.signed] <;> omega
      rfl

end Trimmed

end Decimal

/-! ## Doubles -/

namespace Measure

theorem exists_trimmedText {x : Float} {v : Rat} (h : (Measure.real x).value? = some v) :
    ∃ negative n, (Measure.real x).trimmedText.toList = Decimal.trimmedDigits 4 negative n ∧
      RoundsTo 4 v (Binary64.signed negative n / 10 ^ 4) := by
  have htext : (Measure.real x).trimmedText.toList =
      Decimal.trim (Decimal.write
        (fun b units => Decimal.fixedDigits 4 b (Decimal.scaled 4 units)) (Binary64.decode x)) :=
    String.toList_ofList
  rw [value?] at h
  generalize Binary64.decode x = decoded at h htext
  cases decoded with
  | finite negative units =>
      obtain rfl := Option.some.inj h
      exact ⟨negative, Decimal.scaled 4 units,
        htext.trans (Decimal.trim_fixedDigits (by decide) negative _),
        roundsTo_scaled 4 negative units⟩
  | infinite negative => exact absurd h (Option.some_ne_none v).symm
  | notANumber => exact absurd h (Option.some_ne_none v).symm

/-- The text of a finite double is a canonical decimal that is read as the double rounded to four
places, a half to the even side, and the doubles with the same text are those that are rounded to
the same number. -/
theorem trimmedText_canonical (x : Float) (v : Rat) (hx : (Measure.real x).value? = some v) :
    ∃ q, RoundsTo 4 v q ∧
      Decimal.read? (Measure.real x).trimmedText.toList = some q ∧
      Decimal.Canonical (Measure.real x).trimmedText.toList ∧
      ∀ y w r, (Measure.real y).value? = some w → RoundsTo 4 w r →
        ((Measure.real x).trimmedText = (Measure.real y).trimmedText ↔ q = r) := by
  obtain ⟨b, m, htext, hround⟩ := exists_trimmedText hx
  refine ⟨_, hround, ?_, ?_, fun y w r hy hr => ?_⟩
  · rw [htext, Decimal.read?_trimmedDigits (by decide)]
  · rw [htext]
    exact Decimal.canonical_trimmedDigits (by decide) b m
  · obtain ⟨c, n, htext', hround'⟩ := exists_trimmedText hy
    rw [hr.unique hround', ← String.toList_inj, htext, htext']
    constructor
    · intro hsame
      have hread := congrArg Decimal.read? hsame
      rw [Decimal.read?_trimmedDigits (by decide), Decimal.read?_trimmedDigits (by decide)] at hread
      exact Option.some.inj hread
    · intro hsame
      refine Decimal.trimmedDigits_congr ?_
      field_simp at hsame
      exact_mod_cast hsame

/-- A negative number half way between two of those with four places. -/
def halfway : Float := -0.03125

theorem trimmedText_halfway : (Measure.real halfway).value? = some (-1 / 32) ∧
    ∃ q, q = -39 / 1250 ∧ RoundsTo 4 (-1 / 32) q ∧
      Decimal.read? "-0.0312".toList = some q ∧ Decimal.Canonical "-0.0312".toList ∧
      ∀ y w r, (Measure.real y).value? = some w → RoundsTo 4 w r →
        ("-0.0312" = (Measure.real y).trimmedText ↔ q = r) := by
  have hvalue : (Measure.real halfway).value? = some (-1 / 32) := by decide +kernel
  have htext : (Measure.real halfway).trimmedText = "-0.0312" := by decide +kernel
  obtain ⟨q, hround, hread, hcanonical, hsame⟩ := trimmedText_canonical halfway (-1 / 32) hvalue
  rw [htext] at hread hcanonical hsame
  have hwhole : Decimal.natural? ['0'] = some 0 := Decimal.natural?_digits 0
  have hfraction : Decimal.natural? ['0', '3', '1', '2'] = some 312 :=
    Decimal.natural?_eq_some_iff.2 ⟨by simp, rfl⟩
  have hq : Decimal.read? "-0.0312".toList = some (-39 / 1250) := by
    change (Decimal.unsigned? (['0'] ++ '.' :: ['0', '3', '1', '2'])).map (-·) = _
    rw [Decimal.unsigned?_point hwhole hfraction]
    norm_num
  exact ⟨hvalue, q, Option.some.inj (hread.symm.trans hq), hround, hread, hcanonical, hsame⟩

end Measure

end Number
end CellSketch
