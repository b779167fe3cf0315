import Mathlib.Data.List.Chain
import Mathlib.Tactic.Common
import CellSketch.Flow.Path

/-!
# Routes — which cell sequences answer a path query

A route is judged here without any search: by its two ends, its moves and the cells it enters.  Its
price counts moves and turns.  The search speaks of walks from state to state instead, so this
module also proves that the two views agree:

* `isPath_of_valid`, `valid_of_isPath` — routes are the walks of the search;
* `price_eq_cost` — the price of a route is the cost that the search adds up;
* `distance_le_costFrom` — the distance to the goal never exceeds the cost of a walk to it.
-/

namespace CellSketch
namespace Flow

/-! ## Moves and turns -/

namespace Step

/-- The move that leads from one cell to another. -/
def between (a b : Cell) : Step := ⟨b.x - a.x, b.y - a.y⟩

/-- The opposite move. -/
def reverse (s : Step) : Step := ⟨-s.dx, -s.dy⟩

@[simp] theorem between_ahead (s : Step) (c : Cell) : between c (s.ahead c) = s := by
  cases s
  simp only [between, ahead, mk.injEq]
  omega

@[simp] theorem ahead_between (a b : Cell) : (between a b).ahead a = b := by
  cases b
  simp only [between, ahead, Cell.mk.injEq]
  omega

@[simp] theorem behind_between (a b : Cell) : (between a b).behind b = a := by
  cases a
  simp only [between, behind, Cell.mk.injEq]
  omega

theorem between_eq_iff {a b : Cell} {s : Step} : between a b = s ↔ b = s.ahead a := by
  constructor
  · rintro rfl
    simp
  · rintro rfl
    simp

/-- The moves of a cell sequence. -/
def along : List Cell → List Step
  | a :: b :: rest => between a b :: along (b :: rest)
  | _ => []

/-- How often the direction changes in a sequence of moves. -/
def turns : List Step → Nat
  | a :: b :: rest => (if b = a then 0 else 1) + turns (b :: rest)
  | _ => 0

@[simp] theorem along_cons_cons (a b : Cell) (rest : List Cell) :
    along (a :: b :: rest) = between a b :: along (b :: rest) := rfl

@[simp] theorem along_singleton (a : Cell) : along [a] = [] := rfl

theorem along_append_pair (l : List Cell) (a b : Cell) :
    along (l ++ [a, b]) = along (l ++ [a]) ++ [between a b] := by
  induction l with
  | nil => rfl
  | cons c l ih =>
      cases l with
      | nil => rfl
      | cons d l => simpa using ih

/-- A unit move changes one coordinate by one. -/
theorem mem_moves_iff {s : Step} :
    s ∈ moves ↔ (s.dx = 0 ∧ (s.dy = 1 ∨ s.dy = -1)) ∨ (s.dy = 0 ∧ (s.dx = 1 ∨ s.dx = -1)) := by
  cases s
  simp [moves, down, up, right, left]
  omega

end Step

namespace PathQuery

open Step

/-! ## Valid routes and their price -/

/-- A cell of the field: in columns `0` to `width` and rows `0` to `height` and not blocked. -/
def Inside (q : PathQuery) (c : Cell) : Prop :=
  (0 ≤ c.x ∧ c.x ≤ q.width) ∧ (0 ≤ c.y ∧ c.y ≤ q.height) ∧ q.blocked c = false

/-- Unit moves from the start to the goal over cells of the field, where every move that leaves the
start cell goes in the direction `leave` and the last move, if there is one, goes in the direction
`arrive`. -/
structure Valid (q : PathQuery) (route : List Cell) : Prop where
  starts : route.head? = some q.start
  ends : route.getLast? = some q.goal
  unit : route.IsChain fun a b => between a b ∈ moves
  leaves : route.IsChain fun a b => a = q.start → between a b = q.leave
  inside : ∀ c ∈ route.tail, q.Inside c
  arrives : ∀ m ∈ (along route).getLast?, m = q.arrive

/-- The number of moves plus two for each move that differs from the one before it, where `leave`
counts as the direction before the first move. -/
def price (q : PathQuery) (route : List Cell) : Nat :=
  (along route).length + 2 * turns (q.leave :: along route)

theorem free_iff_inside {q : PathQuery} {c : Cell} : q.free c = true ↔ q.Inside c := by
  simp [free, Inside]
  tauto

/-! ## Successors -/

theorem mem_successors {q : PathQuery} {s t : PathState} {k : Nat} :
    (t, k) ∈ q.successors s ↔
      t.entered ∈ moves ∧ t.cell = t.entered.ahead s.cell ∧
        (s.cell = q.start → t.entered = q.leave) ∧ q.Inside t.cell ∧
        k = 1 + if t.entered = s.entered then 0 else turnPenalty := by
  rw [← free_iff_inside]
  simp only [successors, List.mem_filterMap]
  constructor
  · rintro ⟨m, hm, h⟩
    split at h
    · cases h
    · rename_i hleave
      split at h
      · rename_i hfree
        simp only [Option.some.injEq, Prod.mk.injEq] at h
        obtain ⟨rfl, rfl⟩ := h
        exact ⟨hm, rfl, fun hs => by_contra fun hne => hleave ⟨hs, hne⟩, hfree, rfl⟩
      · cases h
  · rintro ⟨hm, hcell, hleave, hfree, rfl⟩
    obtain ⟨cell, entered⟩ := t
    dsimp only at hm hcell hleave hfree
    subst hcell
    refine ⟨entered, hm, ?_⟩
    rw [if_neg (fun h => h.2 (hleave h.1)), if_pos hfree]

theorem length_successors_le (q : PathQuery) (s : PathState) : (q.successors s).length ≤ 4 :=
  List.length_filterMap_le _ _

/-- A move costs something. -/
theorem pos_of_mem_successors {q : PathQuery} {s t : PathState} {k : Nat}
    (h : (t, k) ∈ q.successors s) : 0 < k := by
  have hk := (mem_successors.1 h).2.2.2.2
  omega

/-- The distance to the goal is consistent: a move lowers it by one at most. -/
theorem distance_le_of_mem_successors {q : PathQuery} {s t : PathState} {k : Nat}
    (h : (t, k) ∈ q.successors s) : q.distance s.cell ≤ k + q.distance t.cell := by
  obtain ⟨hm, hcell, -, -, hk⟩ := mem_successors.1 h
  rw [mem_moves_iff] at hm
  rw [hcell]
  simp only [distance, ahead]
  omega

/-! ## Walks -/

theorem arrived_iff {q : PathQuery} {s : PathState} :
    q.arrived s = true ↔ s.cell = q.goal ∧ (s.cell = q.start ∨ s.entered = q.arrive) := by
  simp [arrived]

theorem walks_cons {q : PathQuery} {s : PathState} {c : Cell} {rest : List Cell} :
    q.walks s (c :: rest) = true ↔
      ∃ k, (⟨c, between s.cell c⟩, k) ∈ q.successors s ∧
        q.walks ⟨c, between s.cell c⟩ rest = true := by
  simp [walks, between]

/-- The cost of a walk splits at its first move. -/
theorem costFrom_cons {q : PathQuery} {s t : PathState} {k : Nat}
    (h : (t, k) ∈ q.successors s) (rest : List Cell) :
    costFrom s.entered (s.cell :: t.cell :: rest) = k + costFrom t.entered (t.cell :: rest) := by
  obtain ⟨-, hcell, -, -, hk⟩ := mem_successors.1 h
  have hmove : (⟨t.cell.x - s.cell.x, t.cell.y - s.cell.y⟩ : Step) = t.entered :=
    between_eq_iff.2 hcell
  simp only [costFrom, hmove, hk]

theorem distance_le_costFrom {q : PathQuery} {s : PathState} {rest : List Cell}
    (h : q.walks s rest = true) : q.distance s.cell ≤ costFrom s.entered (s.cell :: rest) := by
  -- the distance is nothing at the goal, and no move lowers it by more than it costs
  induction rest generalizing s with
  | nil =>
      rw [walks, arrived_iff] at h
      simp [distance, h.1]
  | cons c rest ih =>
      obtain ⟨k, hk, hwalk⟩ := walks_cons.1 h
      have hstep := distance_le_of_mem_successors hk
      have hcost := costFrom_cons hk rest
      have hrest := ih hwalk
      dsimp only at hstep hcost hrest
      omega

/-! ## Routes are walks -/

theorem costFrom_eq (entered : Step) (route : List Cell) :
    costFrom entered route = (along route).length + 2 * turns (entered :: along route) := by
  induction route generalizing entered with
  | nil => rfl
  | cons a rest ih =>
      cases rest with
      | nil => rfl
      | cons b rest =>
          rw [along_cons_cons, costFrom, ih]
          -- the search speaks of the difference of two cells where `turns` compares moves
          by_cases hturn : between a b = entered
          · simp only [turns, if_pos hturn, List.length_cons]
            rw [if_pos (by exact hturn), between]
            omega
          · simp only [turns, if_neg hturn, List.length_cons, turnPenalty]
            rw [if_neg (by exact hturn), between]
            omega

theorem price_eq_cost (q : PathQuery) (route : List Cell) : q.price route = q.cost route :=
  (costFrom_eq q.leave route).symm

/-- What makes the rest of a route a walk from a state. -/
structure ValidFrom (q : PathQuery) (s : PathState) (rest : List Cell) : Prop where
  ends : (s.cell :: rest).getLast? = some q.goal
  unit : (s.cell :: rest).IsChain fun a b => between a b ∈ moves
  leaves : (s.cell :: rest).IsChain fun a b => a = q.start → between a b = q.leave
  inside : ∀ c ∈ rest, q.Inside c
  arrives : ∀ m ∈ (s.entered :: along (s.cell :: rest)).getLast?,
    q.arrived ⟨q.goal, m⟩ = true

theorem walks_iff_validFrom {q : PathQuery} {s : PathState} {rest : List Cell} :
    q.walks s rest = true ↔ q.ValidFrom s rest := by
  induction rest generalizing s with
  | nil =>
      rw [walks]
      constructor
      · intro h
        have hgoal := (arrived_iff.1 h).1
        exact ⟨by simp [hgoal], by simp, by simp, by simp, by simpa [← hgoal] using h⟩
      · intro h
        have hgoal : s.cell = q.goal := by simpa using h.ends
        have harrived := h.arrives s.entered (by simp)
        rwa [← hgoal] at harrived
  | cons c rest ih =>
      rw [walks_cons]
      constructor
      · rintro ⟨k, hk, hwalk⟩
        obtain ⟨hm, -, hleave, hin, -⟩ := mem_successors.1 hk
        have hv := ih.1 hwalk
        refine ⟨?_, ?_, ?_, ?_, ?_⟩
        · simpa using hv.ends
        · exact List.isChain_cons_cons.2 ⟨hm, hv.unit⟩
        · exact List.isChain_cons_cons.2 ⟨hleave, hv.leaves⟩
        · exact List.forall_mem_cons.2 ⟨hin, hv.inside⟩
        · simpa using hv.arrives
      · intro h
        obtain ⟨hm, hunit⟩ := List.isChain_cons_cons.1 h.unit
        obtain ⟨hleave, hleaves⟩ := List.isChain_cons_cons.1 h.leaves
        obtain ⟨hin, hinside⟩ := List.forall_mem_cons.1 h.inside
        refine ⟨_, mem_successors.2 ⟨hm, by simp, hleave, hin, rfl⟩, ih.2 ?_⟩
        exact ⟨by simpa using h.ends, hunit, hleaves, hinside, by simpa using h.arrives⟩

theorem isPath_of_valid {q : PathQuery} {route : List Cell} (h : q.Valid route) :
    q.isPath route = true := by
  cases route with
  | nil => exact absurd h.starts (by simp)
  | cons c rest =>
      have hstart : c = q.start := by simpa using h.starts
      subst hstart
      simp only [isPath, beq_self_eq_true, Bool.true_and, walks_iff_validFrom]
      refine ⟨h.ends, h.unit, h.leaves, h.inside, ?_⟩
      intro m hm
      rw [arrived_iff]
      -- a walk of no moves ends where it starts, which is as good as the right last move
      cases rest with
      | nil => exact ⟨rfl, Or.inl (by simpa using h.ends.symm)⟩
      | cons d rest => exact ⟨rfl, Or.inr (h.arrives m (by simpa using hm))⟩

/-- A path that ends elsewhere than it starts is a valid route. -/
theorem valid_of_isPath {q : PathQuery} {route : List Cell} (h : q.isPath route = true)
    (hne : q.start ≠ q.goal) : q.Valid route := by
  cases route with
  | nil => simp [isPath] at h
  | cons c rest =>
      simp only [isPath, Bool.and_eq_true, beq_iff_eq, walks_iff_validFrom] at h
      obtain ⟨rfl, hv⟩ := h
      refine ⟨rfl, hv.ends, hv.unit, hv.leaves, hv.inside, ?_⟩
      intro m hm
      have hlast : m ∈ (q.leave :: along (q.start :: rest)).getLast? := by
        simp only [Option.mem_def] at hm ⊢
        rw [List.getLast?_cons, hm]
        rfl
      have harrived := arrived_iff.1 (hv.arrives m hlast)
      exact harrived.2.resolve_left fun hg => hne hg.symm

/-- The route of one cell, valid if the start is the goal. -/
theorem valid_singleton {q : PathQuery} (h : q.start = q.goal) : q.Valid [q.start] :=
  ⟨rfl, by simp [h], by simp, by simp, by simp, by simp⟩

/-- Only the route of one cell is free of charge. -/
theorem eq_singleton_of_cost_eq_zero {q : PathQuery} {route : List Cell}
    (h : q.isPath route = true) (hcost : q.cost route = 0) : route = [q.start] := by
  rw [← price_eq_cost] at hcost
  match route with
  | [] => simp [isPath] at h
  | [c] =>
      simp only [isPath, Bool.and_eq_true, beq_iff_eq] at h
      rw [h.1]
  | c :: d :: rest => simp [price] at hcost

end PathQuery
end Flow
end CellSketch
