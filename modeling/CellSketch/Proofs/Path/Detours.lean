import Mathlib.Tactic.Ring
import CellSketch.Proofs.Path.Routes

/-!
# Detours — what can be reached, and what a cheapest walk avoids

* `Reaches` — a goal can be reached from a state at a limited cost, with straight lines as the means
  to show it;
* `Cheapest` — a walk that no other one from its first state undercuts; its ends are cheapest too;
* `Cheapest.isChain` — a cheapest walk never goes back on itself, except perhaps in its last move.
-/

namespace CellSketch
namespace Flow

namespace Step

/-- The cell a number of steps away. -/
def times (s : Step) (n : Nat) (c : Cell) : Cell := ⟨c.x + n * s.dx, c.y + n * s.dy⟩

@[simp] theorem times_zero (s : Step) (c : Cell) : s.times 0 c = c := by
  simp [times]

theorem times_succ (s : Step) (n : Nat) (c : Cell) : s.times (n + 1) c = s.times n (s.ahead c) := by
  simp only [times, ahead, Cell.mk.injEq]
  push_cast
  constructor <;> ring

/-- A move and its reverse lead back. -/
theorem eq_of_between_eq_reverse {a c d : Cell} (h : between c d = (between a c).reverse) :
    d = a := by
  obtain ⟨x, y⟩ := d
  obtain ⟨x', y'⟩ := a
  simp only [between, reverse, mk.injEq, Cell.mk.injEq] at h ⊢
  omega

end Step

namespace PathQuery

open Step

variable {q : PathQuery}

/-! ## Reaching a goal -/

/-- A goal can be reached from a state at a cost of at most `bound`. -/
def Reaches (q : PathQuery) (s : PathState) (bound : Nat) : Prop :=
  ∃ rest, q.walks s rest = true ∧ costFrom s.entered (s.cell :: rest) ≤ bound

theorem Reaches.mono {s : PathState} {bound bound' : Nat} (h : q.Reaches s bound)
    (hle : bound ≤ bound') : q.Reaches s bound' := by
  obtain ⟨rest, hwalk, hcost⟩ := h
  exact ⟨rest, hwalk, hcost.trans hle⟩

theorem Reaches.move {s t : PathState} {k bound : Nat} (hk : (t, k) ∈ q.successors s)
    (h : q.Reaches t bound) : q.Reaches s (k + bound) := by
  obtain ⟨rest, hwalk, hcost⟩ := h
  have hmove : between s.cell t.cell = t.entered := between_eq_iff.2 (mem_successors.1 hk).2.1
  refine ⟨t.cell :: rest, ?_, ?_⟩
  · rw [walks_cons, hmove]
    exact ⟨k, hk, hwalk⟩
  · rw [costFrom_cons hk]
    omega

theorem reaches_of_arrived {s : PathState} (h : q.arrived s = true) : q.Reaches s 0 :=
  ⟨[], h, Nat.le_refl 0⟩

/-- One step, with or without a turn. -/
theorem Reaches.step {c : Cell} {entered m : Step} {bound : Nat} (hm : m ∈ moves)
    (hleave : c = q.start → m = q.leave) (hin : q.Inside (m.ahead c))
    (h : q.Reaches ⟨m.ahead c, m⟩ bound) : q.Reaches ⟨c, entered⟩ (3 + bound) := by
  refine (h.move (mem_successors.2 ⟨hm, rfl, hleave, hin, rfl⟩)).mono ?_
  simp only [turnPenalty]
  split <;> omega

/-- Straight on for a number of steps. -/
theorem Reaches.ahead {c : Cell} {m : Step} {n bound : Nat} (hm : m ∈ moves)
    (hleave : ∀ i < n, m.times i c ≠ q.start) (hin : ∀ i < n, q.Inside (m.times (i + 1) c))
    (h : q.Reaches ⟨m.times n c, m⟩ bound) : q.Reaches ⟨c, m⟩ (n + bound) := by
  induction n generalizing c with
  | zero => simpa using h
  | succ n ih =>
      have hnext : q.Reaches ⟨m.ahead c, m⟩ (n + bound) := by
        refine ih (fun i hi => ?_) (fun i hi => ?_) ?_
        · rw [← times_succ]
          exact hleave (i + 1) (by omega)
        · rw [← times_succ]
          exact hin (i + 1) (by omega)
        · rwa [← times_succ]
      have hfirst : q.Inside (m.ahead c) := by
        have h0 := hin 0 (by omega)
        rwa [times_succ, times_zero] at h0
      have hstart : c ≠ q.start := by
        have h0 := hleave 0 (by omega)
        rwa [times_zero] at h0
      have hk : (⟨m.ahead c, m⟩, 1) ∈ q.successors ⟨c, m⟩ :=
        mem_successors.2 ⟨hm, rfl, fun h => absurd h hstart, hfirst, by simp⟩
      exact (hnext.move hk).mono (by omega)

/-- A straight line, perhaps after a turn, to a cell from which the goal can be reached however it
is entered. -/
theorem Reaches.straight {c : Cell} {entered m : Step} {n bound : Nat} (hm : m ∈ moves)
    (hleave : ∀ i < n, m.times i c ≠ q.start) (hin : ∀ i < n, q.Inside (m.times (i + 1) c))
    (h : ∀ e, q.Reaches ⟨m.times n c, e⟩ bound) : q.Reaches ⟨c, entered⟩ (n + 2 + bound) := by
  cases n with
  | zero =>
      have h0 := h entered
      rw [times_zero] at h0
      exact h0.mono (by omega)
  | succ n =>
      have hfirst : q.Inside (m.ahead c) := by
        have h0 := hin 0 (by omega)
        rwa [times_succ, times_zero] at h0
      have hstart : c ≠ q.start := by
        have h0 := hleave 0 (by omega)
        rwa [times_zero] at h0
      have hahead : q.Reaches ⟨m.ahead c, m⟩ (n + bound) := by
        refine Reaches.ahead hm (fun i hi => ?_) (fun i hi => ?_) ?_
        · rw [← times_succ]
          exact hleave (i + 1) (by omega)
        · rw [← times_succ]
          exact hin (i + 1) (by omega)
        · rw [← times_succ]
          exact h m
      exact (hahead.step hm (fun h => absurd h hstart) hfirst).mono (by omega)

/-! ## Cheapest walks -/

/-- A walk to a goal that no other walk from the same state undercuts. -/
structure Cheapest (q : PathQuery) (s : PathState) (rest : List Cell) : Prop where
  walks : q.walks s rest = true
  least : ∀ bound, q.Reaches s bound → costFrom s.entered (s.cell :: rest) ≤ bound

/-- The rest of a cheapest walk is cheapest. -/
theorem Cheapest.tail {s : PathState} {c : Cell} {rest : List Cell}
    (h : q.Cheapest s (c :: rest)) :
    ∃ k, (⟨c, between s.cell c⟩, k) ∈ q.successors s ∧
      q.Cheapest ⟨c, between s.cell c⟩ rest := by
  obtain ⟨k, hk, hwalk⟩ := walks_cons.1 h.walks
  refine ⟨k, hk, hwalk, fun bound hbound => ?_⟩
  have hle := h.least _ (hbound.move hk)
  have hcost := costFrom_cons hk rest
  dsimp only at hcost ⊢
  omega

/-- A cheapest walk does not step back if it goes on from there: the way without the two moves is
cheaper. -/
theorem Cheapest.not_back {s : PathState} {c d e : Cell} {rest : List Cell}
    (h : q.Cheapest s (c :: d :: e :: rest)) : d ≠ s.cell := by
  rintro rfl
  obtain ⟨k₁, hk₁, h₁⟩ := h.tail
  obtain ⟨k₂, hk₂, h₂⟩ := h₁.tail
  obtain ⟨k₃, hk₃, h₃⟩ := h₂.tail
  obtain ⟨hm, hcell, hleave, hin, hcost₃⟩ := mem_successors.1 hk₃
  have hturn₂ := (mem_successors.1 hk₂).2.2.2.2
  -- the second move turns round
  have hmove : between c s.cell ≠ between s.cell c := by
    intro heq
    have hm₁ := (mem_successors.1 hk₁).1
    rw [mem_moves_iff] at hm₁
    simp only [between, Step.mk.injEq] at heq hm₁
    omega
  rw [if_neg hmove] at hturn₂
  have hpos₁ := pos_of_mem_successors hk₁
  -- straight to the third cell, at the cost of a turn at most
  have hshort : q.Reaches s (3 + costFrom (between s.cell e) (e :: rest)) := by
    have hrest : q.Reaches ⟨e, between s.cell e⟩ (costFrom (between s.cell e) (e :: rest)) :=
      ⟨rest, h₃.walks, Nat.le_refl _⟩
    rw [← ahead_between s.cell e] at hrest
    exact Reaches.step hm hleave (by rwa [ahead_between]) (by simpa using hrest)
  have hle := h.least _ hshort
  have hcost : costFrom s.entered (s.cell :: c :: s.cell :: e :: rest) =
      k₁ + (k₂ + (k₃ + costFrom (between s.cell e) (e :: rest))) := by
    rw [costFrom_cons hk₁, costFrom_cons hk₂, costFrom_cons hk₃]
  simp only [turnPenalty] at hturn₂
  omega

/-- The moves of a cheapest walk never reverse, unless the walk ends by stepping back once; nor do
those of the walk up to one of its cells. -/
theorem Cheapest.isChain {s : PathState} {rest tail : List Cell} (h : q.Cheapest s (rest ++ tail))
    (hend : tail = [] → ∀ c d, ¬ [d, c, d] <:+ s.cell :: rest) :
    (along (s.cell :: rest)).IsChain fun m n => n ≠ m.reverse := by
  induction rest generalizing s with
  | nil => simp
  | cons c rest ih =>
      obtain ⟨k, hk, htail⟩ := h.tail
      have hchain := ih htail fun hnil a b hsuffix =>
        hend hnil a b (hsuffix.trans (List.suffix_cons _ _))
      cases rest with
      | nil => simp
      | cons d rest =>
          rw [along_cons_cons, along_cons_cons, List.isChain_cons_cons]
          refine ⟨fun hrev => ?_, hchain⟩
          -- two moves that cancel out lead back to the first cell
          have hd : d = s.cell := eq_of_between_eq_reverse hrev
          subst hd
          cases hmore : rest ++ tail with
          | nil =>
              obtain ⟨rfl, hnil⟩ := List.append_eq_nil_iff.1 hmore
              exact hend hnil c s.cell (List.suffix_refl _)
          | cons e others =>
              rw [List.cons_append, List.cons_append, hmore] at h
              exact h.not_back rfl

end PathQuery
end Flow
end CellSketch
