import CellSketch.Proofs.Path.Cheapest
import CellSketch.Proofs.Path.Detours

/-!
# TurningBack — paths that step back from their goal

The last move of a path has a given direction.  A path that comes to its goal from elsewhere may
have to step back to the cell before the goal and in again, if that cell has no other way in.  This
is the only place where a path that is found goes back on itself.

* `cheapest_of_find?` — what the search finds is a cheapest walk;
* `isChain_iff_not_turnsBack` — it goes back on itself just if it turns back at the goal;
* `Cheapest.horizontal` — the goal was then entered from the side before;
* `Pocket.turnsBack` — in front of a pocket every path that is found turns back.
-/

namespace CellSketch
namespace Flow
namespace PathQuery

open Step

variable {q : PathQuery}

/-! ## Searches and cheapest walks -/

/-- The path that is found is a cheapest walk from the start. -/
theorem cheapest_of_find? {path : List Cell} (h : q.find? = some path) :
    ∃ rest, path = q.start :: rest ∧ q.Cheapest q.initial rest := by
  have hanswers := (find?_finishes q).2
  rw [h] at hanswers
  obtain ⟨hpath, hleast⟩ := hanswers
  cases path with
  | nil => simp [isPath] at hpath
  | cons c rest =>
      simp only [isPath, Bool.and_eq_true, beq_iff_eq] at hpath
      obtain ⟨rfl, hwalk⟩ := hpath
      refine ⟨rest, rfl, hwalk, ?_⟩
      rintro bound ⟨other, hother, hcost⟩
      have hle := hleast (q.start :: other) (by
        rw [isPath, beq_self_eq_true, Bool.true_and]
        exact hother)
      exact hle.trans hcost

theorem exists_find?_of_reaches {bound : Nat} (h : q.Reaches q.initial bound) :
    ∃ path, q.find? = some path := by
  obtain ⟨rest, hwalk, -⟩ := h
  cases hfind : q.find? with
  | some path => exact ⟨path, rfl⟩
  | none =>
      have hanswers := (find?_finishes q).2
      rw [hfind] at hanswers
      have hnot := hanswers (q.start :: rest)
      rw [isPath, beq_self_eq_true, Bool.true_and] at hnot
      exact absurd (hnot.symm.trans hwalk) (by decide)

theorem exists_find?_of_valid {route : List Cell} (h : q.Valid route) :
    ∃ path, q.find? = some path := by
  obtain ⟨-, hnone, -⟩ := find?_cheapest q
  cases hfind : q.find? with
  | some path => exact ⟨path, rfl⟩
  | none => exact absurd h (hnone.1 hfind route)

/-- A goal that is found elsewhere than at the start is a cell of the field. -/
theorem inside_goal_of_find? {path : List Cell} (h : q.find? = some path)
    (hne : q.start ≠ q.goal) : q.Inside q.goal := by
  have hvalid := valid_of_find? h
  have hends := hvalid.ends
  obtain ⟨rest, rfl, -⟩ := cheapest_of_find? h
  rcases List.eq_nil_or_concat rest with rfl | ⟨init, c, rfl⟩
  · exact absurd (by simpa using hends) hne
  · have hgoal : c = q.goal := by simpa [List.getLast?_cons] using hends
    rw [← hgoal]
    exact hvalid.inside c (by simp)

/-- The rest of a cheapest walk behind one of its cells is cheapest. -/
theorem Cheapest.drop {s : PathState} {mid rest : List Cell} {c : Cell}
    (h : q.Cheapest s (mid ++ c :: rest)) : q.Inside c ∧ ∃ m, q.Cheapest ⟨c, m⟩ rest := by
  induction mid generalizing s with
  | nil =>
      obtain ⟨k, hk, htail⟩ := h.tail
      exact ⟨(mem_successors.1 hk).2.2.2.1, _, htail⟩
  | cons d mid ih =>
      obtain ⟨k, hk, htail⟩ := h.tail
      exact ih htail

/-- A walk on which nothing is left to pay has ended. -/
theorem Cheapest.eq_nil_of_arrived {s : PathState} {rest : List Cell} (h : q.Cheapest s rest)
    (harrived : q.arrived s = true) : rest = [] := by
  cases rest with
  | nil => rfl
  | cons c rest =>
      obtain ⟨k, hk, -⟩ := h.tail
      have hpos := pos_of_mem_successors hk
      have hcost := costFrom_cons hk rest
      have hle := h.least 0 (reaches_of_arrived harrived)
      dsimp only at hcost
      omega

/-! ## Stepping back at the goal -/

/-- The cell before the goal. -/
def threshold (q : PathQuery) : Cell := q.arrive.behind q.goal

/-- The path steps back from the goal, and in again. -/
def TurnsBack (q : PathQuery) (path : List Cell) : Prop :=
  [q.goal, threshold q, q.goal] <:+ path

theorem between_threshold (q : PathQuery) :
    between (threshold q) q.goal = q.arrive ∧ between q.goal (threshold q) = q.arrive.reverse := by
  simp only [threshold, behind, between, reverse, Step.mk.injEq]
  constructor
  · cases harrive : q.arrive
    simp only [Step.mk.injEq]
    omega
  · omega

/-- A path that is found goes back on itself just if it turns back at the goal. -/
theorem isChain_iff_not_turnsBack {path : List Cell} (h : q.find? = some path) :
    ((along path).IsChain fun m n => n ≠ m.reverse) ↔ ¬ q.TurnsBack path := by
  have hvalid := valid_of_find? h
  constructor
  · rintro hchain ⟨pre, rfl⟩
    obtain ⟨hin, hout⟩ := between_threshold q
    have halong : along (pre ++ [q.goal, threshold q, q.goal]) =
        (along (pre ++ [q.goal]) ++ [q.arrive.reverse]) ++ [q.arrive] := by
      rw [← hout, ← along_append_pair, ← hin,
        show pre ++ [q.goal, threshold q] = (pre ++ [q.goal]) ++ [threshold q] by simp,
        ← along_append_pair]
      simp
    rw [halong] at hchain
    have hlast := (List.isChain_append.1 hchain).2.2 q.arrive.reverse (by simp) q.arrive (by simp)
    exact hlast (by simp [reverse])
  · intro hnot
    obtain ⟨rest, rfl, hcheapest⟩ := cheapest_of_find? h
    rw [← List.append_nil rest] at hcheapest
    apply hcheapest.isChain
    -- stepping back at the end would be stepping back at the goal
    rintro - c g ⟨pre, hpre⟩
    have hpre : pre ++ [g, c, g] = q.start :: rest := hpre
    have hlast : g = q.goal := by
      have hends := hvalid.ends
      rw [← hpre] at hends
      simpa using hends
    have hc : c = threshold q := by
      have hmove : Step.between c g = q.arrive := by
        refine hvalid.arrives _ ?_
        rw [← hpre, show pre ++ [g, c, g] = (pre ++ [g]) ++ [c, g] by simp, along_append_pair]
        simp
      rw [threshold, ← hlast, ← hmove, behind_between]
    subst hlast hc
    exact hnot ⟨pre, hpre⟩

/-- A cheapest walk that turns back has come to the goal in another direction, for a step in the
right one would have been the end of it. -/
theorem Cheapest.between_ne_arrive {s : PathState}
    (h : q.Cheapest s [q.goal, threshold q, q.goal]) : between s.cell q.goal ≠ q.arrive := by
  intro heq
  obtain ⟨k, hk, htail⟩ := h.tail
  have hend := htail.eq_nil_of_arrived (arrived_iff.2 ⟨rfl, Or.inr heq⟩)
  exact absurd hend (List.cons_ne_nil _ _)

/-- If it is to arrive vertically and cannot come against that direction, it has come from the
side. -/
theorem Cheapest.horizontal {s : PathState}
    (h : q.Cheapest s [q.goal, threshold q, q.goal]) (hvertical : q.arrive.dx = 0)
    (hunit : q.arrive ∈ moves) (hagainst : s.cell ≠ q.arrive.ahead q.goal) :
    (between s.cell q.goal).dy = 0 := by
  obtain ⟨k, hk, -⟩ := h.tail
  have hm := mem_moves_iff.1 (mem_successors.1 hk).1
  have harrive := mem_moves_iff.1 hunit
  have hne := h.between_ne_arrive
  by_contra hdy
  apply hagainst
  obtain ⟨⟨x, y⟩, e⟩ := s
  cases hstep : q.arrive
  simp only [hstep, ahead, between, ne_eq, Step.mk.injEq, Cell.mk.injEq] at *
  omega

/-- A path that is found and turns back does so from the side, and not before. -/
theorem TurnsBack.exists_front {path : List Cell} (h : q.TurnsBack path)
    (hfind : q.find? = some path) (hne : q.start ≠ q.goal) (hvertical : q.arrive.dx = 0)
    (hunit : q.arrive ∈ moves) (hstart : q.start ≠ q.arrive.ahead q.goal)
    (hagainst : ¬ q.Inside (q.arrive.ahead q.goal)) :
    ∃ front p, path = front ++ [p, q.goal] ++ [threshold q, q.goal] ∧
      ((along (front ++ [p, q.goal])).IsChain fun m n => n ≠ m.reverse) ∧
      (between p q.goal).dy = 0 := by
  obtain ⟨rest, rfl, hcheapest⟩ := cheapest_of_find? hfind
  obtain ⟨pre, hpre⟩ := h
  -- the path has a first cell before it comes to the goal
  rcases List.eq_nil_or_concat pre with rfl | ⟨front, p, rfl⟩
  · rw [List.nil_append, List.cons.injEq] at hpre
    exact absurd hpre.1.symm hne
  refine ⟨front, p, by rw [← hpre]; simp, ?_⟩
  cases front with
  | nil =>
      obtain ⟨rfl, rfl⟩ : p = q.start ∧ [q.goal, threshold q, q.goal] = rest := by
        simpa using hpre
      exact ⟨by simp, hcheapest.horizontal hvertical hunit hstart⟩
  | cons c front =>
      obtain ⟨rfl, rfl⟩ : c = q.start ∧
          front ++ p :: [q.goal, threshold q, q.goal] = rest := by
        simpa using hpre
      obtain ⟨hin, m, hend⟩ := hcheapest.drop
      refine ⟨?_, hend.horizontal hvertical hunit fun heq => hagainst (heq ▸ hin)⟩
      have hsplit : q.Cheapest q.initial ((front ++ [p, q.goal]) ++ [threshold q, q.goal]) := by
        simpa using hcheapest
      exact hsplit.isChain fun hnil => absurd hnil (List.cons_ne_nil _ _)

/-! ## Pockets -/

/-- From the cell before the goal, having stepped back to it, the cheapest walk is to step in
again. -/
theorem Cheapest.eq_goal {rest : List Cell} (h : q.Cheapest ⟨threshold q, q.arrive.reverse⟩ rest)
    (harrive : q.arrive ∈ moves) (hstart : threshold q ≠ q.start) (hgoal : q.Inside q.goal) :
    rest = [q.goal] := by
  have hahead : q.arrive.ahead (threshold q) = q.goal := by
    rw [← (between_threshold q).1, ahead_between]
  have hshort : q.Reaches ⟨threshold q, q.arrive.reverse⟩ (3 + 0) := by
    refine Reaches.step harrive (fun h => absurd h hstart) (by rwa [hahead]) ?_
    rw [hahead]
    exact reaches_of_arrived (arrived_iff.2 ⟨rfl, Or.inr rfl⟩)
  have hle := h.least _ hshort
  have hmove := mem_moves_iff.1 harrive
  rcases rest with _ | ⟨c, rest⟩
  · -- the walk has not ended yet
    have hend := (arrived_iff.1 h.walks).1
    have hx := congrArg Cell.x hend
    have hy := congrArg Cell.y hend
    simp only [threshold, behind] at hx hy
    omega
  obtain ⟨k, hk, htail⟩ := h.tail
  by_cases hc : c = q.goal
  · subst hc
    rw [htail.eq_nil_of_arrived (arrived_iff.2 ⟨rfl, Or.inr (between_threshold q).1⟩)]
  -- any other walk makes a turn as well, and has further to go
  exfalso
  rcases rest with _ | ⟨d, rest⟩
  · exact hc (arrived_iff.1 htail.walks).1
  obtain ⟨k', hk', htail'⟩ := htail.tail
  have hcost := costFrom_cons hk (d :: rest)
  have hcost' := costFrom_cons hk' rest
  have hfirst := distance_le_costFrom htail.walks
  have hsecond := distance_le_costFrom htail'.walks
  obtain ⟨hm, -, -, -, hturn⟩ := mem_successors.1 hk
  obtain ⟨hm', -, -, -, hturn'⟩ := mem_successors.1 hk'
  rw [mem_moves_iff] at hm hm'
  dsimp only at hle hcost hcost' hfirst hsecond hturn hturn' hm hm'
  have hne : ¬ (c.x = q.goal.x ∧ c.y = q.goal.y) := fun h => hc ((Cell.mk.injEq ..).mpr h)
  simp only [distance, between, reverse, threshold, behind, turnPenalty, Step.mk.injEq] at *
  split at hturn <;> split at hturn' <;> omega

/-- Cells that are entered only from the goal, and only by the step back from it. -/
structure Pocket (q : PathQuery) (inside : Cell → Prop) : Prop where
  arrive : q.arrive ∈ moves
  threshold : inside (threshold q)
  start : ¬ inside q.start
  goal : ¬ inside q.goal
  entered : ∀ c m, q.Inside c ∨ c = q.start → ¬ inside c → m ∈ moves → inside (m.ahead c) →
    c = q.goal ∧ m.ahead c = PathQuery.threshold q

namespace Pocket

variable {inside : Cell → Prop}

/-- Outside the pocket a cheapest walk cannot end, and it comes out of the pocket as soon as it is
in. -/
theorem suffix_of_cheapest (P : q.Pocket inside) (hne : q.start ≠ q.goal) {s : PathState}
    {rest : List Cell} (h : q.Cheapest s rest) (hs : q.Inside s.cell ∨ s.cell = q.start)
    (hout : ¬ inside s.cell) (hnot : q.arrived s = false) :
    [q.goal, PathQuery.threshold q, q.goal] <:+ s.cell :: rest := by
  induction rest generalizing s with
  | nil => exact absurd (hnot.symm.trans h.walks) (by decide)
  | cons c rest ih =>
      obtain ⟨k, hk, htail⟩ := h.tail
      obtain ⟨hm, hcell, -, hin, -⟩ := mem_successors.1 hk
      dsimp only at hm hcell hin
      by_cases hc : inside c
      · -- the step back from the goal
        rw [hcell] at hc
        obtain ⟨hgoal, hthreshold⟩ := P.entered _ _ hs hout hm hc
        rw [← hcell] at hthreshold
        subst hthreshold
        rw [hgoal, (between_threshold q).2] at htail
        have hstart : PathQuery.threshold q ≠ q.start := by
          intro heq
          exact P.start (heq ▸ P.threshold)
        have hinside : q.Inside q.goal := by
          rw [hgoal] at hs
          exact hs.resolve_right hne.symm
        rw [hgoal, htail.eq_goal P.arrive hstart hinside]
      · refine (ih htail (Or.inl hin) hc ?_).trans (List.suffix_cons _ _)
        -- the goal is not entered from the pocket
        rw [← Bool.not_eq_true, arrived_iff]
        rintro ⟨hgoal, hstart | harrive⟩
        · exact hne (hstart.symm.trans hgoal)
        · dsimp only at hgoal harrive
          apply hout
          have hback : s.cell = PathQuery.threshold q := by
            rw [PathQuery.threshold, ← hgoal, ← harrive, behind_between]
          rw [hback]
          exact P.threshold

/-- In front of a pocket every path that is found turns back. -/
theorem turnsBack (P : q.Pocket inside) (hne : q.start ≠ q.goal) {path : List Cell}
    (h : q.find? = some path) : q.TurnsBack path := by
  obtain ⟨rest, rfl, hcheapest⟩ := cheapest_of_find? h
  refine P.suffix_of_cheapest hne hcheapest (Or.inr rfl) P.start ?_
  rw [← Bool.not_eq_true, arrived_iff]
  exact fun harrived => hne harrived.1

end Pocket

end PathQuery
end Flow
end CellSketch
