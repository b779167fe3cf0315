import Mathlib.Data.List.Chain
import Mathlib.Tactic.Common
import CellSketch.Connection
import CellSketch.Flow.Route
import CellSketch.Scan.Basic

/-!
# Polyline — chains of cells and their straight runs

The way of an edge is a list of points, each of which shares its row or column with the next one.
Such a list is judged by the headings of its pieces and by the cells that the pieces cover.

* `isChain_chain` — normalization leaves chains in which each two neighbours are aligned;
* `chain_eq_self` — such a chain needs no normalization;
* `exists_of_mem_chain` — the cells of a chain lie in columns and rows of its points;
* `mergeStraight_spec` — merging straight runs keeps ends, headings and covered cells, and leaves
  only pieces of alternating axes.
-/

namespace CellSketch

/-! ## Headings -/

namespace Connection
namespace Heading

/-- The opposite heading. -/
def reverse (h : Heading) : Heading := ⟨-h.dx, -h.dy⟩

theorem between_eq_down {a b : Cell} : between a b = ⟨0, 1⟩ ↔ a.x = b.x ∧ a.y < b.y := by
  simp only [between, mk.injEq, Int.sign_eq_zero_iff_zero, Int.sign_eq_one_iff_pos]
  omega

theorem between_eq_up {a b : Cell} : between a b = ⟨0, -1⟩ ↔ a.x = b.x ∧ b.y < a.y := by
  simp only [between, mk.injEq, Int.sign_eq_zero_iff_zero, Int.sign_eq_neg_one_iff_neg]
  omega

theorem between_eq_right {a b : Cell} : between a b = ⟨1, 0⟩ ↔ a.x < b.x ∧ a.y = b.y := by
  simp only [between, mk.injEq, Int.sign_eq_zero_iff_zero, Int.sign_eq_one_iff_pos]
  omega

theorem between_eq_left {a b : Cell} : between a b = ⟨-1, 0⟩ ↔ b.x < a.x ∧ a.y = b.y := by
  simp only [between, mk.injEq, Int.sign_eq_zero_iff_zero, Int.sign_eq_neg_one_iff_neg]
  omega

end Heading

/-! ## Aligned points -/

/-- Two points that differ in exactly one coordinate. -/
def Aligned (a b : Cell) : Prop := (a.x = b.x ∧ a.y ≠ b.y) ∨ (a.x ≠ b.x ∧ a.y = b.y)

/-- The cells of the straight piece between two aligned points, both ends included. -/
def OnPiece (a b c : Cell) : Prop :=
  (min a.x b.x ≤ c.x ∧ c.x ≤ max a.x b.x) ∧ (min a.y b.y ≤ c.y ∧ c.y ≤ max a.y b.y)

/-- The headings of the pieces of a point list. -/
def headings : List Cell → List Heading
  | a :: b :: rest => Heading.between a b :: headings (b :: rest)
  | _ => []

/-- Whether a piece of a point list runs over a cell. -/
def Covers : List Cell → Cell → Prop
  | a :: b :: rest, c => OnPiece a b c ∨ Covers (b :: rest) c
  | _, _ => False

@[simp] theorem headings_cons_cons (a b : Cell) (rest : List Cell) :
    headings (a :: b :: rest) = Heading.between a b :: headings (b :: rest) := rfl

@[simp] theorem headings_singleton (a : Cell) : headings [a] = [] := rfl

/-- The four headings that a straight piece can have. -/
theorem Aligned.heading_cases {a b : Cell} (h : Aligned a b) :
    Heading.between a b = ⟨0, 1⟩ ∨ Heading.between a b = ⟨0, -1⟩ ∨
      Heading.between a b = ⟨1, 0⟩ ∨ Heading.between a b = ⟨-1, 0⟩ := by
  rw [Heading.between_eq_down, Heading.between_eq_up, Heading.between_eq_right,
    Heading.between_eq_left]
  unfold Aligned at h
  omega

/-- A straight piece goes on over a point that is reached with its heading. -/
theorem Aligned.extend {a p c : Cell} (hpc : Aligned p c)
    (h : Heading.between a p = Heading.between p c) :
    Aligned a c ∧ Heading.between a c = Heading.between p c ∧
      ∀ x, OnPiece a c x → OnPiece a p x ∨ OnPiece p c x := by
  unfold Aligned OnPiece
  -- with the heading known, both pieces are intervals of one row or column
  rcases hpc.heading_cases with hd | hd | hd | hd
  all_goals
    rw [hd] at h ⊢
    simp only [Heading.between_eq_down, Heading.between_eq_up, Heading.between_eq_right,
      Heading.between_eq_left] at h hd ⊢
    refine ⟨by omega, by omega, fun x hx => by omega⟩

/-- Without a reversal, two neighbouring pieces lie on one line just if they have one heading. -/
theorem Aligned.collinear_iff {p c n : Cell} (hpc : Aligned p c) (hcn : Aligned c n)
    (hforward : Heading.between c n ≠ (Heading.between p c).reverse) :
    ((p.x = c.x ∧ c.x = n.x) ∨ (p.y = c.y ∧ c.y = n.y)) ↔
      Heading.between p c = Heading.between c n := by
  rcases hpc.heading_cases with hd | hd | hd | hd
  all_goals
    rw [hd] at hforward ⊢
    rw [eq_comm (b := Heading.between c n)]
    simp only [Heading.reverse, ne_eq, Int.neg_zero, Int.neg_neg, Heading.between_eq_down,
      Heading.between_eq_up, Heading.between_eq_right, Heading.between_eq_left] at hd hforward ⊢
    unfold Aligned at hcn
    omega

theorem Aligned.axis_ne {p c n : Cell} (hpc : Aligned p c) (hcn : Aligned c n)
    (hline : ¬ ((p.x = c.x ∧ c.x = n.x) ∨ (p.y = c.y ∧ c.y = n.y))) :
    (Heading.between p c).axis ≠ (Heading.between c n).axis := by
  rcases hpc.heading_cases with hp | hp | hp | hp <;>
    rcases hcn.heading_cases with hc | hc | hc | hc
  all_goals
    rw [hp, hc]
    simp only [Heading.between_eq_down, Heading.between_eq_up, Heading.between_eq_right,
      Heading.between_eq_left] at hp hc
    first
      | decide
      | exact absurd (by omega) hline

/-! ## Chains that stay as they are -/

theorem chainFrom_eq_self {last : Cell} {points : List Cell}
    (h : (last :: points).IsChain Aligned) : chainFrom last points = points := by
  induction points generalizing last with
  | nil => rfl
  | cons c rest ih =>
      obtain ⟨hc, hrest⟩ := List.isChain_cons_cons.1 h
      unfold Aligned at hc
      have hne : last ≠ c := by
        rintro rfl
        omega
      rw [chainFrom, if_neg hne, if_neg (by omega), ih hrest]

theorem chain_eq_self {points : List Cell} (h : points.IsChain Aligned) :
    chain points = points := by
  cases points with
  | nil => rfl
  | cons c rest => rw [chain, chainFrom_eq_self h]

/-! ## Normal chains -/

theorem isChain_chainFrom (last : Cell) (points : List Cell) :
    (last :: chainFrom last points).IsChain Aligned := by
  induction points generalizing last with
  | nil => exact List.isChain_singleton last
  | cons c rest ih =>
      rw [chainFrom]
      split
      · exact ih last
      · rename_i hne
        split
        · rename_i hboth
          refine List.isChain_cons_cons.2 ⟨Or.inl ⟨rfl, hboth.2⟩, ?_⟩
          exact List.isChain_cons_cons.2 ⟨Or.inr ⟨hboth.1, rfl⟩, ih c⟩
        · rename_i hone
          refine List.isChain_cons_cons.2 ⟨?_, ih c⟩
          unfold Aligned
          by_contra haligned
          exact hne (by cases last; cases c; simp only [Cell.mk.injEq] at *; omega)

/-- Normalization leaves each two neighbours aligned. -/
theorem isChain_chain (points : List Cell) : (chain points).IsChain Aligned := by
  cases points with
  | nil => exact List.isChain_nil
  | cons c rest => exact isChain_chainFrom c rest

theorem subset_chainFrom (last : Cell) (points : List Cell) :
    points ⊆ last :: chainFrom last points := by
  induction points generalizing last with
  | nil => exact List.nil_subset _
  | cons c rest ih =>
      have hrest := ih c
      rw [chainFrom]
      split
      · rename_i heq
        subst heq
        exact List.cons_subset.2 ⟨List.mem_cons_self, hrest⟩
      · have hmore : rest ⊆ last :: c :: chainFrom c rest :=
          List.Subset.trans hrest (List.subset_cons_self _ _)
        split
        · refine List.cons_subset.2 ⟨by simp, fun d hd => ?_⟩
          rcases List.mem_cons.1 (hmore hd) with rfl | hd
          · exact List.mem_cons_self
          · exact List.mem_cons_of_mem _ (List.mem_cons_of_mem _ hd)
        · exact List.cons_subset.2 ⟨by simp, hmore⟩

/-- No point is lost. -/
theorem subset_chain (points : List Cell) : points ⊆ chain points := by
  cases points with
  | nil => exact List.nil_subset _
  | cons c rest => exact List.cons_subset.2 ⟨List.mem_cons_self, subset_chainFrom c rest⟩

theorem exists_of_mem_chainFrom {last d : Cell} {points : List Cell}
    (h : d ∈ chainFrom last points) (axis : Axis) :
    ∃ p ∈ last :: points, axis.position p = axis.position d := by
  induction points generalizing last with
  | nil => cases h
  | cons c rest ih =>
      have hmore (hd : d ∈ c :: chainFrom c rest) :
          ∃ p ∈ last :: c :: rest, axis.position p = axis.position d := by
        rcases List.mem_cons.1 hd with rfl | hd
        · exact ⟨d, by simp, rfl⟩
        · obtain ⟨p, hp, heq⟩ := ih hd
          exact ⟨p, List.mem_cons_of_mem last hp, heq⟩
      rw [chainFrom] at h
      split at h
      · rename_i heq
        subst heq
        exact hmore (List.mem_cons_of_mem last h)
      · split at h
        · rcases List.mem_cons.1 h with rfl | h
          · -- the cell in between takes its column from one point and its row from the other
            cases axis with
            | horizontal => exact ⟨last, by simp, rfl⟩
            | vertical => exact ⟨c, by simp, rfl⟩
          · exact hmore h
        · exact hmore h

/-- The cells of a chain lie in columns and rows of its points. -/
theorem exists_of_mem_chain {points : List Cell} {d : Cell} (h : d ∈ chain points) (axis : Axis) :
    ∃ p ∈ points, axis.position p = axis.position d := by
  cases points with
  | nil => cases h
  | cons c rest =>
      rcases List.mem_cons.1 h with rfl | h
      · exact ⟨d, List.mem_cons_self, rfl⟩
      · exact exists_of_mem_chainFrom h axis

/-- What holds of the columns and of the rows of points holds of those of their chain. -/
theorem forall_mem_chain {points : List Cell} {P Q : Int → Prop}
    (h : ∀ p ∈ points, P p.x ∧ Q p.y) : ∀ d ∈ chain points, P d.x ∧ Q d.y := by
  intro d hd
  obtain ⟨p, hp, hx⟩ := exists_of_mem_chain hd .horizontal
  obtain ⟨q, hq, hy⟩ := exists_of_mem_chain hd .vertical
  simp only [Axis.position] at hx hy
  exact ⟨hx ▸ (h p hp).1, hy ▸ (h q hq).2⟩

/-! ## Forward and turning chains -/

/-- Neighbouring points are aligned, and no piece goes back against the one before it. -/
structure Forward (points : List Cell) : Prop where
  aligned : points.IsChain Aligned
  forward : (headings points).IsChain fun h k => k ≠ h.reverse

/-- Neighbouring points are aligned, and each piece is perpendicular to the one before it. -/
structure Turning (points : List Cell) : Prop where
  aligned : points.IsChain Aligned
  turning : (headings points).IsChain fun h k => h.axis ≠ k.axis

theorem Turning.forward {points : List Cell} (h : Turning points) : Forward points where
  aligned := h.aligned
  forward := by
    refine h.turning.imp fun h k hne heq => hne ?_
    rw [heq]
    simp [Heading.axis, Heading.reverse]

theorem forward_cons {a b : Cell} {rest : List Cell} :
    Forward (a :: b :: rest) ↔
      Aligned a b ∧ (∀ h ∈ (headings (b :: rest)).head?, h ≠ (Heading.between a b).reverse) ∧
        Forward (b :: rest) := by
  constructor
  · rintro ⟨haligned, hforward⟩
    obtain ⟨hab, hrest⟩ := List.isChain_cons_cons.1 haligned
    rw [headings_cons_cons, List.isChain_cons] at hforward
    exact ⟨hab, hforward.1, hrest, hforward.2⟩
  · rintro ⟨hab, hhead, haligned, hforward⟩
    refine ⟨List.isChain_cons_cons.2 ⟨hab, haligned⟩, ?_⟩
    rw [headings_cons_cons, List.isChain_cons]
    exact ⟨hhead, hforward⟩

theorem turning_cons {a b : Cell} {rest : List Cell} :
    Turning (a :: b :: rest) ↔
      Aligned a b ∧ (∀ h ∈ (headings (b :: rest)).head?, (Heading.between a b).axis ≠ h.axis) ∧
        Turning (b :: rest) := by
  constructor
  · rintro ⟨haligned, hturning⟩
    obtain ⟨hab, hrest⟩ := List.isChain_cons_cons.1 haligned
    rw [headings_cons_cons, List.isChain_cons] at hturning
    exact ⟨hab, hturning.1, hrest, hturning.2⟩
  · rintro ⟨hab, hhead, haligned, hturning⟩
    refine ⟨List.isChain_cons_cons.2 ⟨hab, haligned⟩, ?_⟩
    rw [headings_cons_cons, List.isChain_cons]
    exact ⟨hhead, hturning⟩

end Connection

/-! ## Merging straight runs -/

namespace Flow

open Connection

/-- What merging keeps of a chain that goes on from `start`, where `first` is the heading of its
first piece. -/
structure Merged (start : Cell) (first : Heading) (full merged : List Cell) : Prop where
  turning : Turning (start :: merged)
  head : (headings (start :: merged)).head? = some first
  last : (headings (start :: merged)).getLast? = (headings full).getLast?
  ends : (start :: merged).getLast? = full.getLast?

/-- The loop of the merge: `kept` is the last point that was kept, and the run from there to
`previous`, if it has any length, goes straight on to `c`. -/
theorem mergeStraight_go_spec {kept previous c : Cell} {rest : List Cell}
    (h : Forward (previous :: c :: rest))
    (hrun : previous = kept ∨ (Aligned kept previous ∧
      Heading.between kept previous = Heading.between previous c)) :
    Merged kept (Heading.between previous c) (previous :: c :: rest)
        (mergeStraight.go previous (c :: rest)) ∧
      ∀ x, Covers (kept :: mergeStraight.go previous (c :: rest)) x →
        (previous ≠ kept ∧ OnPiece kept previous x) ∨ Covers (previous :: c :: rest) x := by
  obtain ⟨hpc, hforward, hrest⟩ := forward_cons.1 h
  have hkept : Aligned kept c ∧ Heading.between kept c = Heading.between previous c ∧
      ∀ x, OnPiece kept c x → (previous ≠ kept ∧ OnPiece kept previous x) ∨
        OnPiece previous c x := by
    rcases hrun with rfl | ⟨hkp, hsame⟩
    · exact ⟨hpc, rfl, fun x hx => Or.inr hx⟩
    · obtain ⟨hkc, hheading, hcover⟩ := hpc.extend hsame
      have hne : previous ≠ kept := by
        rintro rfl
        unfold Aligned at hkp
        omega
      refine ⟨hkc, hheading, fun x hx => ?_⟩
      rcases hcover x hx with hx | hx
      · exact Or.inl ⟨hne, hx⟩
      · exact Or.inr hx
  obtain ⟨hkc, hheading, hcover⟩ := hkept
  -- the points that were skipped are gone, so only the piece from `kept` to `c` stands for them
  induction rest generalizing kept previous c with
  | nil =>
      rw [mergeStraight.go]
      refine ⟨⟨?_, by simp [hheading], by simp [hheading], by simp⟩, fun x hx => ?_⟩
      · rw [turning_cons]
        exact ⟨hkc, by simp, by simp, by simp [headings]⟩
      · rcases hx with hx | hx
        · exact (hcover x hx).imp id Or.inl
        · exact hx.elim
  | cons next rest ih =>
      obtain ⟨hcn, hforward', hrest'⟩ := forward_cons.1 hrest
      have hne : Heading.between c next ≠ (Heading.between previous c).reverse :=
        hforward _ (by simp)
      rw [mergeStraight.go]
      have hpiece : ∀ x, OnPiece kept c x →
          (previous ≠ kept ∧ OnPiece kept previous x) ∨ Covers (previous :: c :: next :: rest) x :=
        fun x hx => (hcover x hx).imp id Or.inl
      by_cases hline : (previous.x = c.x ∧ c.x = next.x) ∨ (previous.y = c.y ∧ c.y = next.y)
      · -- `c` is skipped: the run from `kept` goes on to `next`
        rw [if_pos hline]
        have hsame := (hpc.collinear_iff hcn hne).1 hline
        have hkc' : Heading.between kept c = Heading.between c next := hheading.trans hsame
        obtain ⟨hkn, hheading', hcover'⟩ := hcn.extend hkc'
        have hck : c ≠ kept := by
          rintro rfl
          unfold Aligned at hkc
          omega
        obtain ⟨hmerged, hcovers⟩ := ih hrest (Or.inr ⟨hkc, hkc'⟩) hcn hforward' hrest' hkn
          hheading' (fun x hx => (hcover' x hx).imp (fun hx => ⟨hck, hx⟩) id)
        refine ⟨⟨hmerged.turning, ?_, ?_, ?_⟩, fun x hx => ?_⟩
        · rw [hmerged.head, hsame]
        · rw [hmerged.last]
          simp [List.getLast?_cons]
        · rw [hmerged.ends]
          simp [List.getLast?_cons]
        · rcases hcovers x hx with ⟨-, hx⟩ | hx
          · exact hpiece x hx
          · exact Or.inr (Or.inr hx)
      · -- `c` is kept, and a new run begins there
        rw [if_neg hline]
        obtain ⟨hmerged, hcovers⟩ := ih hrest (Or.inl rfl) hcn hforward' hrest' hcn rfl
          (fun x hx => Or.inr hx)
        refine ⟨⟨?_, by simp [hheading], ?_, ?_⟩, fun x hx => ?_⟩
        · rw [turning_cons]
          refine ⟨hkc, fun h hh => ?_, hmerged.turning⟩
          rw [hmerged.head, Option.mem_some_iff] at hh
          rw [← hh, hheading]
          exact hpc.axis_ne hcn hline
        · rw [headings_cons_cons, List.getLast?_cons, hmerged.last]
          simp [List.getLast?_cons]
        · rw [List.getLast?_cons, hmerged.ends]
          simp [List.getLast?_cons]
        · rcases hx with hx | hx
          · exact hpiece x hx
          · rcases hcovers x hx with ⟨hcc, -⟩ | hx
            · exact absurd rfl hcc
            · exact Or.inr (Or.inr hx)

/-- Merging keeps the ends of a chain, its first and last heading and the cells it covers, and
leaves pieces of alternating axes. -/
theorem mergeStraight_spec {a b : Cell} {rest : List Cell} (h : Forward (a :: b :: rest)) :
    Turning (mergeStraight (a :: b :: rest)) ∧
      (mergeStraight (a :: b :: rest)).head? = some a ∧
      (mergeStraight (a :: b :: rest)).getLast? = (a :: b :: rest).getLast? ∧
      (headings (mergeStraight (a :: b :: rest))).head? = some (Heading.between a b) ∧
      (headings (mergeStraight (a :: b :: rest))).getLast? =
        (headings (a :: b :: rest)).getLast? ∧
      ∀ x, Covers (mergeStraight (a :: b :: rest)) x → Covers (a :: b :: rest) x := by
  obtain ⟨hmerged, hcovers⟩ := mergeStraight_go_spec h (Or.inl rfl)
  refine ⟨hmerged.turning, rfl, hmerged.ends, hmerged.head, hmerged.last, fun x hx => ?_⟩
  rcases hcovers x hx with ⟨hne, -⟩ | hx
  · exact absurd rfl hne
  · exact hx

end Flow
end CellSketch
