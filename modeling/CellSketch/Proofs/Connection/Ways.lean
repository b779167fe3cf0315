import Mathlib.Tactic.FieldSimp
import CellSketch.Proofs.Connection.Runs

/-!
# Ways — where the legs between points lead

The legs between points that lie in a row or column with their neighbours are a way, which is at
some place after each length.  Points in the middle of a straight stretch of it may be listed or
not.

* `Passes` — a way is at a place after a length;
* `SameWay` — lists of points between which the legs are the same way;
* `sameWay_between` — points in between may be listed or not.
-/

namespace CellSketch
namespace Connection

open Number

/-! ## Legs -/

/-- The length of a straight leg. -/
def legLength (a b : Point Rat) : Rat := |b.x - a.x| + |b.y - a.y|

/-- The point of a leg at a length from its start. -/
def toward (a b : Point Rat) (s : Rat) : Point Rat :=
  ⟨a.x + s / legLength a b * (b.x - a.x), a.y + s / legLength a b * (b.y - a.y)⟩

/-- The legs between points pass, at a length from the first point, through a point. -/
def Passes : List (Point Rat) → Rat → Point Rat → Prop
  | a :: b :: rest, s, p =>
      (0 ≤ s ∧ s ≤ legLength a b ∧ p = toward a b s) ∨
        (legLength a b ≤ s ∧ Passes (b :: rest) (s - legLength a b) p)
  | [a], s, p => s = 0 ∧ p = a
  | [], _, _ => False

/-- The legs between two lists of points are the same way: at each length they pass through the
same points. -/
def SameWay (points others : List (Point Rat)) : Prop :=
  ∀ s p, Passes points s p ↔ Passes others s p

namespace SameWay

variable {points others more : List (Point Rat)}

theorem symm (h : SameWay points others) : SameWay others points := fun s p => (h s p).symm

theorem trans (h : SameWay points others) (h' : SameWay others more) : SameWay points more :=
  fun s p => (h s p).trans (h' s p)

theorem cons {b : Point Rat} (a : Point Rat) (h : SameWay (b :: points) (b :: others)) :
    SameWay (a :: b :: points) (a :: b :: others) := by
  intro s p
  simp only [Passes]
  rw [h]

end SameWay

/-! ## Straight stretches -/

theorem passes_ahead (side : Side) {n : Rat} (hn : 0 ≤ n) (a : Point Rat)
    (rest : List (Point Rat)) (s : Rat) (p : Point Rat) :
    Passes (a :: side.ahead n a :: rest) s p ↔
      (0 ≤ s ∧ s ≤ n ∧ p = side.ahead s a) ∨
        (n ≤ s ∧ Passes (side.ahead n a :: rest) (s - n) p) := by
  have hlength : legLength a (side.ahead n a) = n := by
    cases side <;> simp [legLength, Side.ahead, abs_of_nonneg hn]
  have htoward (hpos : 0 < n) : toward a (side.ahead n a) s = side.ahead s a := by
    rw [toward, hlength]
    cases side <;> simp [Side.ahead] <;> field_simp <;> ring
  rw [Passes, hlength]
  rcases hn.eq_or_lt with rfl | hpos
  · -- a leg of no length is passed at its start only
    refine or_congr_left (and_congr_right fun h => and_congr_right fun h' => ?_)
    obtain rfl := le_antisymm h' h
    simp [toward]
  · rw [htoward hpos]

/-- A point on the way may be listed or not. -/
theorem sameWay_between (side : Side) {m n : Rat} (hm : 0 ≤ m) (hn : m ≤ n) (a : Point Rat)
    (rest : List (Point Rat)) :
    SameWay (a :: side.ahead m a :: side.ahead n a :: rest) (a :: side.ahead n a :: rest) := by
  intro s p
  have hsplit : side.ahead n a = side.ahead (n - m) (side.ahead m a) := by
    rw [Side.ahead_ahead, add_sub_cancel]
  rw [passes_ahead side hm, passes_ahead side (hm.trans hn), hsplit,
    passes_ahead side (sub_nonneg.2 hn), ← hsplit, Side.ahead_ahead, add_sub_cancel,
    sub_sub_sub_cancel_right, sub_nonneg, sub_le_sub_iff_right, sub_le_sub_iff_right]
  constructor
  · rintro (⟨h, h', hp⟩ | ⟨h, ⟨-, h', hp⟩ | hmore⟩)
    · exact Or.inl ⟨h, h'.trans hn, hp⟩
    · exact Or.inl ⟨hm.trans h, h', hp⟩
    · exact Or.inr hmore
  · rintro (⟨h, h', hp⟩ | ⟨h, hmore⟩)
    · rcases le_total s m with hle | hle
      · exact Or.inl ⟨h, hle, hp⟩
      · exact Or.inr ⟨hle, Or.inl ⟨hle, h', hp⟩⟩
    · exact Or.inr ⟨hn.trans h, Or.inr ⟨h, hmore⟩⟩

/-- Of the points before another one, on one line, those in between may be listed or not. -/
theorem sameWay_before (side : Side) {s t u : Rat} (hst : s ≤ t) (htu : t ≤ u) (m : Point Rat)
    (rest : List (Point Rat)) :
    SameWay (side.ahead (-u) m :: side.ahead (-t) m :: side.ahead (-s) m :: rest)
      (side.ahead (-u) m :: side.ahead (-s) m :: rest) := by
  have hbetween := sameWay_between side (sub_nonneg.2 htu) (sub_le_sub_left hst u)
    (side.ahead (-u) m) rest
  rwa [Side.ahead_ahead, Side.ahead_ahead, neg_add_eq_sub, neg_add_eq_sub, sub_sub_cancel_left,
    sub_sub_cancel_left] at hbetween

theorem sameWay_up_to (side : Side) {t u : Rat} (ht : 0 ≤ t) (htu : t ≤ u) (m : Point Rat)
    (rest : List (Point Rat)) :
    SameWay (side.ahead (-u) m :: side.ahead (-t) m :: m :: rest)
      (side.ahead (-u) m :: m :: rest) := by
  have hbefore := sameWay_before side ht htu m rest
  rwa [neg_zero, Side.ahead_zero] at hbefore

end Connection
end CellSketch
