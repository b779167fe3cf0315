import CellSketch.Proofs.Polyline
import CellSketch.Scan.Basic

/-!
# FarEnds — how far the pieces of a connection reach

Segments of a connection end in centres of cells or half a cell away from them, so that their ends
are counted in halves of cells.  A segment reaches up to the cell in which its farther end lies,
rounded up; some segments have no length and are left out.  Still the pieces of a chain reach
exactly as far as its cells: those on a straight run lie between its ends, and what is cut off a run
at a corner is covered by the corner.

* `farEnds` — the cells up to which the pieces of a chain reach;
* `sameReach_farEnds` — along each axis they go as far as the cells of the chain.
-/

namespace CellSketch
namespace Connection

/-! ## Reach -/

/-- Cells that go equally far along both axes. -/
def SameReach (cells others : List Cell) : Prop :=
  ∀ axis m, (∀ c ∈ cells, Axis.position axis c ≤ m) ↔ ∀ c ∈ others, Axis.position axis c ≤ m

namespace SameReach

variable {cells others more : List Cell}

theorem refl (cells : List Cell) : SameReach cells cells := fun _ _ => Iff.rfl

theorem symm (h : SameReach cells others) : SameReach others cells := fun axis m => (h axis m).symm

theorem trans (h : SameReach cells others) (h' : SameReach others more) : SameReach cells more :=
  fun axis m => (h axis m).trans (h' axis m)

theorem append {cells' others' : List Cell} (h : SameReach cells others)
    (h' : SameReach cells' others') : SameReach (cells ++ cells') (others ++ others') := by
  intro axis m
  simp only [List.mem_append, or_imp, forall_and]
  exact and_congr (h axis m) (h' axis m)

theorem append_of_subset (h : SameReach cells others) (hmore : more ⊆ others) :
    SameReach (cells ++ more) others := by
  intro axis m
  rw [List.forall_mem_append, h axis m]
  exact and_iff_left_of_imp fun hm c hc => hm c (hmore hc)

theorem of_subset (h : cells ⊆ others)
    (h' : ∀ axis, ∀ c ∈ others, ∃ d ∈ cells, Axis.position axis c ≤ Axis.position axis d) :
    SameReach cells others := by
  intro axis m
  constructor
  · intro hm c hc
    obtain ⟨d, hd, hle⟩ := h' axis c hc
    exact Int.le_trans hle (hm d hd)
  · exact fun hm c hc => hm c (h hc)

end SameReach

/-! ## Halves of cells -/

/-- The centre of a cell, in halves. -/
def doubled (c : Cell) : Cell := ⟨2 * c.x, 2 * c.y⟩

/-- How many halves segments end before rounded and before plain corners. -/
def insetHalves (round : Bool) : Int := if round then 1 else 0

def halfBefore (inset : Int) (c : Cell) (h : Heading) : Cell :=
  ⟨2 * c.x - h.dx * inset, 2 * c.y - h.dy * inset⟩

def halfAfter (inset : Int) (c : Cell) (h : Heading) : Cell :=
  ⟨2 * c.x + h.dx * inset, 2 * c.y + h.dy * inset⟩

/-- The cell up to which a segment between two positions reaches. -/
def upTo (a b : Cell) : Cell := ⟨(max a.x b.x + 1) / 2, (max a.y b.y + 1) / 2⟩

/-- Where a segment reaches to, unless it has no length. -/
def segmentEnd (a b : Cell) : List Cell := if a = b then [] else [upTo a b]

/-- The cells up to which the pieces reach that lead from `start`, in halves, over `cell`. -/
def farEnds (inset : Int) (start previous cell : Cell) : List Cell → List Cell
  | [] => segmentEnd start (doubled cell)
  | next :: rest =>
      let incoming := Heading.between previous cell
      let outgoing := Heading.between cell next
      if incoming.axis = outgoing.axis then
        if incoming = outgoing then farEnds inset start cell next rest
        else segmentEnd start (doubled cell) ++ farEnds inset (doubled cell) cell next rest
      else
        segmentEnd start (halfBefore inset cell incoming) ++
          cell :: farEnds inset (halfAfter inset cell outgoing) cell next rest

/-! ## Positions on a run -/

/-- A position, in halves, from which a run leads to a cell as it does from another cell. -/
def OnRun (start previous cell : Cell) : Prop :=
  Heading.between start (doubled cell) = Heading.between previous cell

section Runs

variable {start previous cell next : Cell} {inset : Int}

theorem OnRun.ne (h : OnRun start previous cell) (haligned : Aligned previous cell) :
    start ≠ doubled cell := by
  rintro rfl
  unfold OnRun at h
  rcases haligned.heading_cases with hd | hd | hd | hd <;>
    rw [hd] at h <;>
    simp [Heading.between] at h

theorem onRun_doubled (haligned : Aligned previous cell) :
    OnRun (doubled previous) previous cell := by
  unfold OnRun
  rcases haligned.heading_cases with hd | hd | hd | hd
  all_goals
    rw [hd]
    simp only [Heading.between_eq_down, Heading.between_eq_up, Heading.between_eq_right,
      Heading.between_eq_left, doubled] at hd ⊢
    omega

theorem onRun_halfAfter (hinset : 0 ≤ inset ∧ inset ≤ 1) (haligned : Aligned previous cell) :
    OnRun (halfAfter inset previous (.between previous cell)) previous cell := by
  unfold OnRun
  rcases haligned.heading_cases with hd | hd | hd | hd
  all_goals
    rw [hd]
    simp only [Heading.between_eq_down, Heading.between_eq_up, Heading.between_eq_right,
      Heading.between_eq_left, doubled, halfAfter] at hd ⊢
    omega

/-- A run goes on over a cell that it crosses, and the cell is left behind. -/
theorem OnRun.straight (h : OnRun start previous cell) (haligned : Aligned cell next)
    (hsame : Heading.between previous cell = Heading.between cell next)
    (hinset : 0 ≤ inset ∧ inset ≤ 1) :
    OnRun start cell next ∧ start ≠ halfBefore inset next (.between cell next) ∧
      ∀ axis, (Axis.position axis start ≤ 2 * Axis.position axis cell ∧
          Axis.position axis cell ≤ Axis.position axis next) ∨
        2 * Axis.position axis cell < Axis.position axis start := by
  unfold OnRun at *
  rw [hsame] at h
  rcases haligned.heading_cases with hd | hd | hd | hd
  all_goals
    rw [hd] at h ⊢
    simp only [Heading.between_eq_down, Heading.between_eq_up, Heading.between_eq_right,
      Heading.between_eq_left, doubled] at h hd ⊢
    refine ⟨by omega, ?_, fun axis => ?_⟩
    · rintro rfl
      simp only [halfBefore] at h
      omega
    · cases axis <;> simp only [Axis.position] <;> omega

/-- What is cut off a run lies between the two cells. -/
theorem position_halfAfter (hinset : 0 ≤ inset ∧ inset ≤ 1) (haligned : Aligned previous cell)
    (axis : Axis) :
    axis.position (halfAfter inset previous (.between previous cell)) ≤
        2 * axis.position previous ∨
      axis.position (halfAfter inset previous (.between previous cell)) ≤
        2 * axis.position cell := by
  rcases haligned.heading_cases with hd | hd | hd | hd
  all_goals
    rw [hd]
    simp only [Heading.between_eq_down, Heading.between_eq_up, Heading.between_eq_right,
      Heading.between_eq_left] at hd
    cases axis <;> simp only [Axis.position, halfAfter] <;> omega

theorem position_halfBefore (hinset : 0 ≤ inset ∧ inset ≤ 1) (haligned : Aligned previous cell)
    (axis : Axis) :
    axis.position (halfBefore inset cell (.between previous cell)) ≤
        2 * axis.position previous ∨
      axis.position (halfBefore inset cell (.between previous cell)) ≤
        2 * axis.position cell := by
  rcases haligned.heading_cases with hd | hd | hd | hd
  all_goals
    rw [hd]
    simp only [Heading.between_eq_down, Heading.between_eq_up, Heading.between_eq_right,
      Heading.between_eq_left] at hd
    cases axis <;> simp only [Axis.position, halfBefore] <;> omega

end Runs

/-! ## Segments -/

section Segments

variable {a b : Cell} {axis : Axis} {m : Int}

theorem position_upTo (axis : Axis) (a b : Cell) : axis.position (upTo a b) =
    (max (axis.position a) (axis.position b) + 1) / 2 := by
  cases axis <;> rfl

theorem position_doubled (axis : Axis) (c : Cell) :
    axis.position (doubled c) = 2 * axis.position c := by
  cases axis <;> rfl

/-- A segment with a length goes as far as both of its ends. -/
theorem ends_le_of_segmentEnd {more : List Cell} (hne : a ≠ b)
    (h : ∀ c ∈ segmentEnd a b ++ more, axis.position c ≤ m) :
    axis.position a ≤ 2 * m ∧ axis.position b ≤ 2 * m := by
  have hle := h (upTo a b) (by simp [segmentEnd, hne])
  rw [position_upTo] at hle
  omega

theorem segmentEnd_le (ha : axis.position a ≤ 2 * m) (hb : axis.position b ≤ 2 * m) :
    ∀ c ∈ segmentEnd a b, axis.position c ≤ m := by
  intro c hc
  rw [segmentEnd] at hc
  split at hc
  · cases hc
  · rw [List.mem_singleton.1 hc, position_upTo]
    omega

end Segments

/-! ## Chains -/

section Chains

variable {inset : Int} (hinset : 0 ≤ inset ∧ inset ≤ 1) {axis : Axis} {m : Int}
  {start previous cell : Cell} {rest : List Cell}
include hinset

/-- The first segment of a run is not left out. -/
theorem start_le_of_farEnds (haligned : (previous :: cell :: rest).IsChain Aligned)
    (hrun : OnRun start previous cell)
    (hlong : start ≠ halfBefore inset cell (.between previous cell))
    (h : ∀ c ∈ farEnds inset start previous cell rest, axis.position c ≤ m) :
    axis.position start ≤ 2 * m := by
  induction rest generalizing previous cell with
  | nil =>
      rw [farEnds, ← List.append_nil (segmentEnd _ _)] at h
      exact (ends_le_of_segmentEnd (hrun.ne (List.isChain_cons_cons.1 haligned).1) h).1
  | cons next rest ih =>
      obtain ⟨hincoming, hrest⟩ := List.isChain_cons_cons.1 haligned
      have houtgoing := (List.isChain_cons_cons.1 hrest).1
      rw [farEnds] at h
      split at h
      · split at h
        · rename_i hsame
          obtain ⟨hrun', hlong', -⟩ := hrun.straight houtgoing hsame hinset
          exact ih hrest hrun' hlong' h
        · exact (ends_le_of_segmentEnd (hrun.ne hincoming) h).1
      · exact (ends_le_of_segmentEnd hlong h).1

/-- The cells that pieces lead over do not go further than the pieces reach. -/
theorem cells_le_of_farEnds (haligned : (previous :: cell :: rest).IsChain Aligned)
    (hrun : OnRun start previous cell)
    (hstart : axis.position start ≤ 2 * m ∨ axis.position start ≤ 2 * axis.position cell)
    (h : ∀ c ∈ farEnds inset start previous cell rest, axis.position c ≤ m) :
    ∀ c ∈ cell :: rest, axis.position c ≤ m := by
  induction rest generalizing start previous cell with
  | nil =>
      rw [farEnds, ← List.append_nil (segmentEnd _ _)] at h
      have hcell := (ends_le_of_segmentEnd (hrun.ne (List.isChain_cons_cons.1 haligned).1) h).2
      rw [position_doubled] at hcell
      rw [List.forall_mem_singleton]
      omega
  | cons next rest ih =>
      obtain ⟨hincoming, hrest⟩ := List.isChain_cons_cons.1 haligned
      have houtgoing := (List.isChain_cons_cons.1 hrest).1
      rw [farEnds] at h
      rw [List.forall_mem_cons]
      split at h
      · split at h
        · -- a cell that is crossed lies between what is before and what is behind it
          rename_i hsame
          obtain ⟨hrun', -, hcross⟩ := hrun.straight houtgoing hsame hinset
          have hbetween := hcross axis
          have hmore := ih hrest hrun' (by omega) h
          have hnext := hmore next List.mem_cons_self
          exact ⟨by omega, hmore⟩
        · have hcell := (ends_le_of_segmentEnd (hrun.ne hincoming) h).2
          have hmore := ih hrest (onRun_doubled houtgoing) (Or.inl hcell) fun c hc =>
            h c (List.mem_append_right _ hc)
          rw [position_doubled] at hcell
          exact ⟨by omega, hmore⟩
      · have hcell := h cell (by simp)
        have hhalf := position_halfAfter hinset houtgoing axis
        have hmore := ih hrest (onRun_halfAfter hinset houtgoing) (by omega) fun c hc =>
          h c (by simp [hc])
        exact ⟨hcell, hmore⟩

/-- The pieces of a chain do not reach further than its cells. -/
theorem farEnds_le_of_cells (haligned : (previous :: cell :: rest).IsChain Aligned)
    (hstart : axis.position start ≤ 2 * m)
    (h : ∀ c ∈ previous :: cell :: rest, axis.position c ≤ m) :
    ∀ c ∈ farEnds inset start previous cell rest, axis.position c ≤ m := by
  have hdoubled {c : Cell} (hc : c ∈ previous :: cell :: rest) :
      axis.position (doubled c) ≤ 2 * m := by
    have hle := h c hc
    rw [position_doubled]
    omega
  induction rest generalizing start previous cell with
  | nil => exact segmentEnd_le hstart (hdoubled (by simp))
  | cons next rest ih =>
      obtain ⟨hincoming, hrest⟩ := List.isChain_cons_cons.1 haligned
      have houtgoing := (List.isChain_cons_cons.1 hrest).1
      have hprevious := h previous (by simp)
      have hcell := h cell (by simp)
      have hnext := h next (by simp)
      have hmore : ∀ c ∈ cell :: next :: rest, axis.position c ≤ m := fun c hc =>
        h c (List.mem_cons_of_mem previous hc)
      rw [farEnds]
      split
      · split
        · exact ih hrest hstart hmore fun hc => hdoubled (List.mem_cons_of_mem previous hc)
        · refine List.forall_mem_append.2 ⟨segmentEnd_le hstart (hdoubled (by simp)), ?_⟩
          refine ih hrest (hdoubled (by simp)) hmore fun hc => ?_
          exact hdoubled (List.mem_cons_of_mem previous hc)
      · have hbefore := position_halfBefore hinset hincoming axis
        have hafter := position_halfAfter hinset houtgoing axis
        refine List.forall_mem_append.2 ⟨segmentEnd_le hstart (by omega), ?_⟩
        refine List.forall_mem_cons.2 ⟨hcell, ih hrest (by omega) hmore fun hc => ?_⟩
        exact hdoubled (List.mem_cons_of_mem previous hc)

/-- The pieces of a chain from its first centre on reach exactly as far as its cells. -/
theorem sameReach_farEnds (haligned : (previous :: cell :: rest).IsChain Aligned) :
    SameReach (farEnds inset (doubled previous) previous cell rest) (previous :: cell :: rest) := by
  have hfirst := (List.isChain_cons_cons.1 haligned).1
  have hrun := onRun_doubled hfirst
  intro axis m
  constructor
  · intro h
    have hlong : doubled previous ≠ halfBefore inset cell (.between previous cell) := by
      intro heq
      rcases hfirst.heading_cases with hd | hd | hd | hd
      all_goals
        rw [hd] at heq
        simp only [Heading.between_eq_down, Heading.between_eq_up, Heading.between_eq_right,
          Heading.between_eq_left] at hd
        simp only [doubled, halfBefore, Cell.mk.injEq] at heq
        omega
    have hstart := start_le_of_farEnds hinset haligned hrun hlong h
    have hcells := cells_le_of_farEnds hinset haligned hrun (Or.inl hstart) h
    rw [position_doubled] at hstart
    exact List.forall_mem_cons.2 ⟨by omega, hcells⟩
  · intro h
    have hprevious := h previous List.mem_cons_self
    refine farEnds_le_of_cells hinset haligned ?_ h
    rw [position_doubled]
    omega

end Chains

end Connection
end CellSketch
