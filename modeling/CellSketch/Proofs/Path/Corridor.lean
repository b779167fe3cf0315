import CellSketch.Proofs.Path.TurningBack

/-!
# Corridor — paths between two free rows

A corridor is what a path meets between two layers of boxes: the row it is led into, the row before
its goal and a column that joins them are free, and the goal is entered against a blocked cell.  In
a corridor there is always a path, and a cheapest one never turns back, not even at the goal.
-/

namespace CellSketch
namespace Flow
namespace PathQuery

open Step

variable {q : PathQuery}

/-! ## Corridors -/

/-- Along a free row, to the left or to the right. -/
theorem Reaches.alongRow {x x' y : Int} {e : Step} {bound : Nat} (hy : y ≠ q.start.y)
    (hx : 0 ≤ x ∧ x ≤ q.width) (hx' : 0 ≤ x' ∧ x' ≤ q.width)
    (hrow : ∀ z, 0 ≤ z → z ≤ q.width → q.Inside ⟨z, y⟩)
    (h : ∀ e, q.Reaches ⟨⟨x', y⟩, e⟩ bound) :
    q.Reaches ⟨⟨x, y⟩, e⟩ ((x - x').natAbs + 2 + bound) := by
  have hstart (z : Int) : (⟨z, y⟩ : Cell) ≠ q.start := fun h => hy (congrArg Cell.y h)
  rcases Int.le_total x x' with hle | hle
  · obtain ⟨n, rfl⟩ := Int.le.dest hle
    have htimes (i : Nat) : right.times i ⟨x, y⟩ = ⟨x + i, y⟩ := by simp [times, right]
    have hn : (x - (x + n)).natAbs = n := by omega
    rw [hn]
    refine Reaches.straight (m := right) (by decide) (fun i _ => ?_) (fun i hi => ?_) fun e => ?_
    · rw [htimes]
      exact hstart _
    · rw [htimes]
      exact hrow _ (by omega) (by omega)
    · rw [htimes]
      exact h e
  · obtain ⟨n, rfl⟩ := Int.le.dest hle
    have htimes (i : Nat) : left.times i ⟨x' + n, y⟩ = ⟨x' + n - i, y⟩ := by
      simp [times, left, Int.sub_eq_add_neg]
    have hn : (x' + n - x').natAbs = n := by omega
    rw [hn]
    refine Reaches.straight (m := left) (by decide) (fun i _ => ?_) (fun i hi => ?_) fun e => ?_
    · rw [htimes]
      exact hstart _
    · rw [htimes]
      exact hrow _ (by omega) (by omega)
    · rw [htimes, Int.add_sub_cancel]
      exact h e

/-- Free rows next to the start and next to the goal, joined by the last column, where `d` is the
vertical direction in which the path is led out and in. -/
structure Corridor (q : PathQuery) (d : Int) : Prop where
  unit : d = 1 ∨ d = -1
  leave : q.leave = ⟨0, d⟩
  arrive : q.arrive = ⟨0, d⟩
  between : 2 ≤ d * (q.goal.y - q.start.y)
  start : q.Inside q.start
  goal : q.Inside q.goal
  firstRow : ∀ x, 0 ≤ x → x ≤ q.width → q.Inside ⟨x, q.start.y + d⟩
  lastRow : ∀ x, 0 ≤ x → x ≤ q.width → q.Inside ⟨x, q.goal.y - d⟩
  column : ∀ y, 0 < d * (y - q.start.y) → 0 < d * (q.goal.y - y) → q.Inside ⟨q.width, y⟩
  /-- The cell that the goal is entered against. -/
  border : ¬ q.Inside ⟨q.goal.x, q.goal.y + d⟩

namespace Corridor

variable {d : Int}

theorem mem_moves (C : q.Corridor d) : (⟨0, d⟩ : Step) ∈ moves := by
  rcases C.unit with rfl | rfl <;> decide

theorem start_ne_goal (C : q.Corridor d) : q.start ≠ q.goal := by
  intro h
  have hbetween := C.between
  rw [h, Int.sub_self, Int.mul_zero] at hbetween
  omega

theorem lastRow_ne_start (C : q.Corridor d) : q.goal.y - d ≠ q.start.y := by
  have hbetween := C.between
  rcases C.unit with rfl | rfl <;> omega

/-- From the row before the goal it takes the way along that row, two turns and a step. -/
theorem reaches_of_lastRow (C : q.Corridor d) {x : Int} (hx : 0 ≤ x ∧ x ≤ q.width) (e : Step) :
    q.Reaches ⟨⟨x, q.goal.y - d⟩, e⟩ ((x - q.goal.x).natAbs + 5) := by
  have hahead : (⟨0, d⟩ : Step).ahead ⟨q.goal.x, q.goal.y - d⟩ = q.goal := by
    simp [ahead]
  have harrived : q.Reaches ⟨(⟨0, d⟩ : Step).ahead ⟨q.goal.x, q.goal.y - d⟩, ⟨0, d⟩⟩ 0 := by
    rw [hahead]
    exact reaches_of_arrived (arrived_iff.2 ⟨rfl, Or.inr C.arrive.symm⟩)
  have hlast (e : Step) : q.Reaches ⟨⟨q.goal.x, q.goal.y - d⟩, e⟩ 3 := by
    refine harrived.step C.mem_moves (fun _ => C.leave.symm) ?_
    rw [hahead]
    exact C.goal
  exact Reaches.alongRow C.lastRow_ne_start hx C.goal.1 C.lastRow hlast

/-- From the last column of the first row the goal can be reached along that column. -/
theorem reaches_of_corner (C : q.Corridor d) :
    ∃ bound, ∀ e, q.Reaches ⟨⟨q.width, q.start.y + d⟩, e⟩ bound := by
  have hbetween := C.between
  have hwidth : 0 ≤ q.width := C.goal.1.1.trans C.goal.1.2
  obtain ⟨n, hn⟩ : ∃ n : Nat, d * (q.goal.y - q.start.y) = n + 2 :=
    ⟨(d * (q.goal.y - q.start.y) - 2).toNat, by omega⟩
  have htimes (i : Nat) :
      (⟨0, d⟩ : Step).times i ⟨q.width, q.start.y + d⟩ = ⟨q.width, q.start.y + d + i * d⟩ := by
    simp [times]
  refine ⟨n + 2 + ((q.width - q.goal.x).natAbs + 5), fun e => ?_⟩
  refine Reaches.straight C.mem_moves (fun i hi => ?_) (fun i hi => ?_) fun e => ?_
  · rw [htimes]
    intro h
    have hy : q.start.y + d + i * d = q.start.y := congrArg Cell.y h
    rcases C.unit with rfl | rfl <;> omega
  · rw [htimes]
    apply C.column <;> rcases C.unit with rfl | rfl <;> push_cast <;> omega
  · have hrow : q.start.y + d + n * d = q.goal.y - d := by
      rcases C.unit with rfl | rfl <;> omega
    rw [htimes, hrow]
    exact C.reaches_of_lastRow ⟨hwidth, Int.le_refl _⟩ e

/-- There is a way: out to the first row, along it to the last column, along that to the row before
the goal, and in from there. -/
theorem reaches (C : q.Corridor d) : ∃ bound, q.Reaches q.initial bound := by
  have hwidth : 0 ≤ q.width := C.goal.1.1.trans C.goal.1.2
  obtain ⟨bound, hcorner⟩ := C.reaches_of_corner
  have hrow : q.start.y + d ≠ q.start.y := by
    rcases C.unit with rfl | rfl <;> omega
  have hahead : (⟨0, d⟩ : Step).ahead q.start = ⟨q.start.x, q.start.y + d⟩ := by
    simp [ahead]
  have hfirst := Reaches.alongRow (e := ⟨0, d⟩) hrow C.start.1 ⟨hwidth, Int.le_refl _⟩ C.firstRow
    hcorner
  rw [← hahead] at hfirst
  refine ⟨_, hfirst.step C.mem_moves (fun _ => C.leave.symm) ?_⟩
  rw [hahead]
  exact C.firstRow _ C.start.1.1 C.start.1.2

/-! ## No turning back at the goal -/

/-- A cheapest walk that turns back pays for two turns and two steps more than the way to the
goal. -/
theorem cost_of_cheapest (C : q.Corridor d) {mid : List Cell} {s : PathState}
    (h : q.Cheapest s (mid ++ [q.goal, threshold q, q.goal]))
    (hborder : s.cell ≠ ⟨q.goal.x, q.goal.y + d⟩) :
    q.distance s.cell + 6 ≤
      costFrom s.entered (s.cell :: (mid ++ [q.goal, threshold q, q.goal])) := by
  induction mid generalizing s with
  | nil =>
      rw [List.nil_append] at h ⊢
      have hhorizontal := h.horizontal (by rw [C.arrive]) (C.arrive ▸ C.mem_moves) (by
        rw [C.arrive, ahead, Int.add_zero]
        exact hborder)
      obtain ⟨k₁, hk₁, h₁⟩ := h.tail
      obtain ⟨k₂, hk₂, h₂⟩ := h₁.tail
      obtain ⟨k₃, hk₃, -⟩ := h₂.tail
      have hdistance := distance_le_of_mem_successors hk₁
      have hzero : q.distance q.goal = 0 := by simp [distance]
      have hcost : costFrom s.entered [s.cell, q.goal, threshold q, q.goal] =
          k₁ + (k₂ + (k₃ + 0)) := by
        rw [costFrom_cons hk₁, costFrom_cons hk₂, costFrom_cons hk₃]
        rfl
      have hturn₂ := (mem_successors.1 hk₂).2.2.2.2
      have hturn₃ := (mem_successors.1 hk₃).2.2.2.2
      dsimp only at hturn₂ hturn₃ hdistance
      obtain ⟨hin, hout⟩ := between_threshold q
      rw [C.arrive] at hin hout
      simp only [reverse, Int.neg_zero] at hout
      -- both steps at the goal are turns, the first one because the walk comes from the side
      rw [hout, if_neg (by
        intro heq
        have hdy := congrArg Step.dy heq
        rcases C.unit with rfl | rfl <;> simp [hhorizontal] at hdy)] at hturn₂
      rw [hin, hout, if_neg (by
        simp only [Step.mk.injEq]
        rcases C.unit with rfl | rfl <;> omega)] at hturn₃
      simp only [turnPenalty] at hturn₂ hturn₃
      omega
  | cons c mid ih =>
      -- any other move adds at least as much as it takes off the distance
      obtain ⟨k, hk, htail⟩ := h.tail
      have hin := (mem_successors.1 hk).2.2.2.1
      have hle := ih htail (fun hc => C.border (hc ▸ hin))
      have hdistance := distance_le_of_mem_successors hk
      rw [List.cons_append]
      have hcost := costFrom_cons hk (mid ++ [q.goal, threshold q, q.goal])
      dsimp only at hcost hdistance hle
      omega

/-- From the row before the goal such a walk is not cheapest. -/
theorem not_cheapest_of_lastRow (C : q.Corridor d) {mid : List Cell} {s : PathState}
    (hrow : s.cell.y = q.goal.y - d) (hx : 0 ≤ s.cell.x ∧ s.cell.x ≤ q.width) :
    ¬ q.Cheapest s (mid ++ [q.goal, threshold q, q.goal]) := by
  intro h
  have hborder : s.cell ≠ ⟨q.goal.x, q.goal.y + d⟩ := by
    intro heq
    rw [heq] at hrow
    dsimp only at hrow
    rcases C.unit with rfl | rfl <;> omega
  have hlow := C.cost_of_cheapest h hborder
  obtain ⟨⟨x, y⟩, e⟩ := s
  dsimp only at hrow hx hlow
  subst hrow
  have hhigh := h.least _ (C.reaches_of_lastRow hx e)
  dsimp only at hhigh
  simp only [distance] at hlow
  rcases C.unit with rfl | rfl <;> omega

/-- And a walk from further out passes that row. -/
theorem not_cheapest (C : q.Corridor d) {mid : List Cell} {s : PathState}
    (hrow : 0 < d * (q.goal.y - d - s.cell.y)) :
    ¬ q.Cheapest s (mid ++ [q.goal, threshold q, q.goal]) := by
  induction mid generalizing s with
  | nil =>
      intro h
      obtain ⟨k, hk, -⟩ := h.tail
      have hm := Step.mem_moves_iff.1 (mem_successors.1 hk).1
      simp only [Step.between] at hm
      rcases C.unit with rfl | rfl <;> omega
  | cons c mid ih =>
      intro h
      obtain ⟨k, hk, htail⟩ := h.tail
      obtain ⟨hm, -, -, hin, -⟩ := mem_successors.1 hk
      rw [Step.mem_moves_iff] at hm
      simp only [Step.between] at hm
      by_cases hc : 0 < d * (q.goal.y - d - c.y)
      · exact ih hc htail
      · refine C.not_cheapest_of_lastRow ?_ hin.1 htail
        dsimp only
        rcases C.unit with rfl | rfl <;> omega

/-- In a corridor a path is found, it is valid, and it never turns back. -/
theorem exists_find? (C : q.Corridor d) :
    ∃ path, q.find? = some path ∧ q.Valid path ∧
      (along path).IsChain fun m n => n ≠ m.reverse := by
  obtain ⟨bound, hreaches⟩ := C.reaches
  obtain ⟨path, hpath⟩ := exists_find?_of_reaches hreaches
  refine ⟨path, hpath, valid_of_find? hpath, (isChain_iff_not_turnsBack hpath).2 ?_⟩
  rintro ⟨pre, hpre⟩
  obtain ⟨rest, rfl, hcheapest⟩ := cheapest_of_find? hpath
  cases pre with
  | nil =>
      rw [List.nil_append, List.cons.injEq] at hpre
      exact C.start_ne_goal hpre.1.symm
  | cons p mid =>
      rw [List.cons_append, List.cons.injEq] at hpre
      rw [← hpre.2] at hcheapest
      have hbetween := C.between
      refine C.not_cheapest ?_ hcheapest
      simp only [initial]
      rcases C.unit with rfl | rfl <;> omega

end Corridor
end PathQuery
end Flow
end CellSketch
