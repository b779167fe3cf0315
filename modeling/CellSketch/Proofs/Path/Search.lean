import Mathlib.Data.Finset.Prod
import Mathlib.Data.Finset.Range
import CellSketch.Proofs.Path.Routes

/-!
# Search — what the path search keeps true

The search expands states in the order of their estimates.  A state is closed once it has been
expanded; the search itself does not store which states are closed, so the invariant carries them
along as a set of its own.

* `Invariant` — what holds of queue, costs and predecessors between two looks;
* `Relaxed` — a closed state has passed its cost on to its successors;
* `Invariant.pass`, `Invariant.close`, `Invariant.reach` — the three changes a look makes;
* `Invariant.exists_waiting` — as long as a goal can be reached, a candidate on the way waits.
-/

namespace CellSketch
namespace Flow

open Std

/-! ## The order of candidates -/

namespace Candidate

instance : TransCmp Candidate.order := by
  unfold Candidate.order
  infer_instance

instance : LawfulEqCmp Candidate.order where
  eq_of_compare := by
    rintro ⟨e, k, ⟨x, y⟩, ⟨dx, dy⟩⟩ ⟨e', k', ⟨x', y'⟩, ⟨dx', dy'⟩⟩ h
    simp only [order, compareLex_eq_eq, compareOn, Std.compare_eq_iff_eq] at h
    obtain ⟨rfl, rfl, rfl, rfl, rfl, rfl⟩ := h
    rfl

@[simp] theorem order_eq_iff {c d : Candidate} : order c d = .eq ↔ c = d :=
  LawfulEqCmp.compare_eq_iff_eq

theorem estimate_le_of_isLE {c d : Candidate} (h : (order c d).isLE) :
    c.estimate ≤ d.estimate := by
  by_contra hlt
  have hgt : compare c.estimate d.estimate = .gt := Nat.compare_eq_gt.2 (by omega)
  simp [order, compareLex, compareOn, hgt] at h

end Candidate

namespace PathQuery

open Step

/-! ## States -/

/-- The state in which a search begins. -/
def initial (q : PathQuery) : PathState := ⟨q.start, q.leave⟩

/-- All states that a search can get to: the first one, and every cell of the field entered by any
move. -/
def states (q : PathQuery) : Finset PathState :=
  insert q.initial <|
    ((Finset.range (q.width + 1).toNat ×ˢ Finset.range (q.height + 1).toNat) ×ˢ
      moves.toFinset).image fun p => ⟨⟨p.1.1, p.1.2⟩, p.2⟩

theorem card_states_le (q : PathQuery) :
    q.states.card ≤ 4 * ((q.width + 1).toNat * (q.height + 1).toNat) + 1 := by
  have hmoves : moves.toFinset.card = 4 := by decide
  calc
    q.states.card
        ≤ (((Finset.range (q.width + 1).toNat ×ˢ Finset.range (q.height + 1).toNat) ×ˢ
            moves.toFinset).image fun p => (⟨⟨p.1.1, p.1.2⟩, p.2⟩ : PathState)).card + 1 :=
          Finset.card_insert_le _ _
    _ ≤ ((Finset.range (q.width + 1).toNat ×ˢ Finset.range (q.height + 1).toNat) ×ˢ
            moves.toFinset).card + 1 := Nat.add_le_add_right Finset.card_image_le 1
    _ = 4 * ((q.width + 1).toNat * (q.height + 1).toNat) + 1 := by
        simp only [Finset.card_product, Finset.card_range, hmoves]
        rw [Nat.mul_comm]

theorem mem_states_of_mem_successors {q : PathQuery} {s t : PathState} {k : Nat}
    (h : (t, k) ∈ q.successors s) : t ∈ q.states := by
  obtain ⟨hm, -, -, ⟨hx, hy, -⟩, -⟩ := mem_successors.1 h
  obtain ⟨⟨x, y⟩, entered⟩ := t
  dsimp only at hx hy
  refine Finset.mem_insert_of_mem (Finset.mem_image.2 ⟨((x.toNat, y.toNat), entered), ?_, ?_⟩)
  · simp only [Finset.mem_product, Finset.mem_range, List.mem_toFinset]
    exact ⟨⟨by omega, by omega⟩, hm⟩
  · simp only [PathState.mk.injEq, Cell.mk.injEq, and_true]
    omega

/-! ## Routes into states -/

/-- A route from the start that enters a state, and what it costs. -/
inductive Leads (q : PathQuery) : PathState → List Cell → Nat → Prop where
  | start : Leads q q.initial [q.start] 0
  | move {s t : PathState} {route : List Cell} {cost k : Nat} :
      Leads q s route cost → (t, k) ∈ q.successors s → Leads q t (route ++ [t.cell]) (cost + k)

theorem walks_of_mem_successors {q : PathQuery} {s t : PathState} {k : Nat} {rest : List Cell}
    (h : (t, k) ∈ q.successors s) (hwalk : q.walks t rest = true) :
    q.walks s (t.cell :: rest) = true := by
  have hmove : between s.cell t.cell = t.entered := between_eq_iff.2 (mem_successors.1 h).2.1
  rw [walks_cons, hmove]
  exact ⟨k, h, hwalk⟩

/-- A route into a state and a walk from there make a path. -/
theorem Leads.isPath_append {q : PathQuery} {s : PathState} {route : List Cell} {cost : Nat}
    (h : q.Leads s route cost) {rest : List Cell} (hwalk : q.walks s rest = true) :
    q.isPath (route ++ rest) = true ∧
      q.cost (route ++ rest) = cost + costFrom s.entered (s.cell :: rest) := by
  induction h generalizing rest with
  | start =>
      refine ⟨?_, ?_⟩
      · rw [List.singleton_append, isPath, beq_self_eq_true, Bool.true_and]
        exact hwalk
      · rw [Nat.zero_add]
        rfl
  | @move s t route cost k _ hk ih =>
      -- the last move of the route becomes the first one of the walk
      obtain ⟨hpath, hcost⟩ := ih (walks_of_mem_successors hk hwalk)
      rw [List.append_assoc, List.singleton_append]
      refine ⟨hpath, ?_⟩
      rw [hcost, costFrom_cons hk, Nat.add_assoc]

/-! ## The invariant -/

/-- What holds between two looks, given the states that have been expanded. -/
structure Invariant (q : PathQuery) (search : Search) (closed : Finset PathState) : Prop where
  start : search.best[q.initial]? = some 0
  origin : search.previous[q.initial]? = none
  bounded : ∀ (s : PathState) (b : Nat), search.best[s]? = some b → s ∈ q.states
  known : ∀ s ∈ closed, ∃ b, search.best[s]? = some b
  /-- A known state that is not closed waits at its best cost. -/
  queued : ∀ (s : PathState) (b : Nat), search.best[s]? = some b → s ∉ closed →
    ⟨b + q.distance s.cell, b, s⟩ ∈ search.waiting
  estimated : ∀ c ∈ search.waiting, c.estimate = c.cost + q.distance c.state.cell
  /-- What waits for a closed state is out of date. -/
  stale : ∀ c ∈ search.waiting, ∃ b, search.best[c.state]? = some b ∧ b ≤ c.cost ∧
    (c.state ∈ closed → b < c.cost)
  ordered : ∀ s ∈ closed, ∀ b, search.best[s]? = some b → ∀ c ∈ search.waiting,
    b + q.distance s.cell ≤ c.estimate
  passed : ∀ s ∈ closed, q.arrived s = false
  /-- The predecessor of a state is closed and explains its cost. -/
  parent : ∀ (t : PathState) (b : Nat), search.best[t]? = some b → t ≠ q.initial →
    ∃ (s : PathState) (a k : Nat), search.previous[t]? = some s ∧ s ∈ closed ∧
      search.best[s]? = some a ∧ (t, k) ∈ q.successors s ∧ b = a + k

/-- Closed states have passed their costs on. -/
def Relaxed (q : PathQuery) (search : Search) (closed : Finset PathState) : Prop :=
  ∀ s ∈ closed, ∀ a, search.best[s]? = some a → ∀ t k, (t, k) ∈ q.successors s →
    ∃ b, search.best[t]? = some b ∧ b ≤ a + k

/-- Later costs are no higher, and those of closed states do not change. -/
structure Refines (before after : Search) (closed : Finset PathState) : Prop where
  same : ∀ s ∈ closed, after.best[s]? = before.best[s]?
  lower : ∀ (s : PathState) (b : Nat), before.best[s]? = some b →
    ∃ b', after.best[s]? = some b' ∧ b' ≤ b

theorem Refines.refl (search : Search) (closed : Finset PathState) :
    Refines search search closed :=
  ⟨fun _ _ => rfl, fun _ b h => ⟨b, h, Nat.le_refl b⟩⟩

theorem Refines.trans {first second third : Search} {closed : Finset PathState}
    (h : Refines first second closed) (h' : Refines second third closed) :
    Refines first third closed := by
  refine ⟨fun s hs => (h'.same s hs).trans (h.same s hs), ?_⟩
  intro s b hb
  obtain ⟨b', hb', hle⟩ := h.lower s b hb
  obtain ⟨b'', hb'', hle'⟩ := h'.lower s b' hb'
  exact ⟨b'', hb'', hle'.trans hle⟩

theorem best_begin {q : PathQuery} {s : PathState} {b : Nat} :
    q.begin.best[s]? = some b ↔ s = q.initial ∧ b = 0 := by
  by_cases hs : q.initial = s
  · subst hs
    simp [begin, initial, eq_comm]
  · have hne : ((⟨q.start, q.leave⟩ : PathState) == s) = false := beq_false_of_ne hs
    simp [begin, hne, Ne.symm hs]

theorem mem_waiting_begin {q : PathQuery} {c : Candidate} :
    c ∈ q.begin.waiting ↔ c = ⟨q.distance q.start, 0, q.initial⟩ := by
  rw [begin, TreeSet.mem_insert, Candidate.order_eq_iff, eq_comm]
  simp [initial]

theorem invariant_begin (q : PathQuery) : q.Invariant q.begin ∅ where
  start := best_begin.2 ⟨rfl, rfl⟩
  origin := by simp [begin]
  bounded s b h := by
    rw [(best_begin.1 h).1]
    exact Finset.mem_insert_self _ _
  known := by simp
  queued s b h _ := by
    obtain ⟨rfl, rfl⟩ := best_begin.1 h
    rw [mem_waiting_begin, Nat.zero_add]
    rfl
  estimated c hc := by
    rw [mem_waiting_begin.1 hc, Nat.zero_add]
    rfl
  stale c hc := by
    rw [mem_waiting_begin.1 hc]
    exact ⟨0, best_begin.2 ⟨rfl, rfl⟩, Nat.le_refl 0, by simp⟩
  ordered := by simp
  passed := by simp
  parent t b h hne := absurd (best_begin.1 h).1 hne

/-! ## What a look changes -/

section Look

variable {q : PathQuery} {search : Search} {closed : Finset PathState}

/-- The search without one of its candidates. -/
def drop (search : Search) (c : Candidate) : Search :=
  { search with waiting := search.waiting.erase c }

theorem mem_waiting_drop {c d : Candidate} :
    d ∈ (drop search c).waiting ↔ d ≠ c ∧ d ∈ search.waiting := by
  rw [drop, TreeSet.mem_erase, ne_eq, Candidate.order_eq_iff, ne_eq, eq_comm]

/-- Passing over a candidate that is out of date. -/
theorem Invariant.pass (I : q.Invariant search closed) {c : Candidate} {b : Nat}
    (hb : search.best[c.state]? = some b) (hlt : b < c.cost) :
    q.Invariant (drop search c) closed where
  start := I.start
  origin := I.origin
  bounded := I.bounded
  known := I.known
  queued s k hk hs := by
    refine mem_waiting_drop.2 ⟨?_, I.queued s k hk hs⟩
    rintro rfl
    have hbk : k = b := Option.some.inj (hk.symm.trans hb)
    exact absurd hlt (by simp [hbk])
  estimated d hd := I.estimated d (mem_waiting_drop.1 hd).2
  stale d hd := I.stale d (mem_waiting_drop.1 hd).2
  ordered s hs k hk d hd := I.ordered s hs k hk d (mem_waiting_drop.1 hd).2
  passed := I.passed
  parent := I.parent

/-- Closing the state of the first candidate, before its cost is passed on. -/
theorem Invariant.close (I : q.Invariant search closed) {c : Candidate}
    (hc : c ∈ search.waiting) (hmin : ∀ d ∈ search.waiting, c.estimate ≤ d.estimate)
    (hb : search.best[c.state]? = some c.cost) (harrived : q.arrived c.state = false) :
    q.Invariant (drop search c) (insert c.state closed) where
  start := I.start
  origin := I.origin
  bounded := I.bounded
  known s hs := by
    rcases Finset.mem_insert.1 hs with rfl | hs
    · exact ⟨c.cost, hb⟩
    · exact I.known s hs
  queued s k hk hs := by
    refine mem_waiting_drop.2 ⟨?_, I.queued s k hk fun h => hs (Finset.mem_insert_of_mem h)⟩
    rintro rfl
    exact hs (Finset.mem_insert_self _ _)
  estimated d hd := I.estimated d (mem_waiting_drop.1 hd).2
  stale d hd := by
    obtain ⟨hne, hd⟩ := mem_waiting_drop.1 hd
    obtain ⟨b, hdb, hle, hlt⟩ := I.stale d hd
    refine ⟨b, hdb, hle, fun hclosed => ?_⟩
    rcases Finset.mem_insert.1 hclosed with hstate | hclosed
    · -- the queue holds one candidate for each state and cost, so another one costs more
      refine Nat.lt_of_le_of_ne hle fun heq => hne ?_
      rw [hstate, hb] at hdb
      have hcost : d.cost = c.cost := by rw [← heq, Option.some.inj hdb]
      have hestimate : d.estimate = c.estimate := by
        rw [I.estimated d hd, I.estimated c hc, hcost, hstate]
      cases c
      cases d
      dsimp only at hstate hcost hestimate
      rw [hstate, hcost, hestimate]
    · exact hlt hclosed
  ordered s hs k hk d hd := by
    have hd := (mem_waiting_drop.1 hd).2
    rcases Finset.mem_insert.1 hs with rfl | hs
    · have hkb : k = c.cost := Option.some.inj (hk.symm.trans hb)
      rw [hkb, ← I.estimated c hc]
      exact hmin d hd
    · exact I.ordered s hs k hk d hd
  passed s hs := by
    rcases Finset.mem_insert.1 hs with rfl | hs
    · exact harrived
    · exact I.passed s hs
  parent t b ht hne := by
    obtain ⟨s, a, k, hprev, hs, ha, hk, hsum⟩ := I.parent t b ht hne
    exact ⟨s, a, k, hprev, Finset.mem_insert_of_mem hs, ha, hk, hsum⟩

/-- A state from which cost is passed on: it is closed, and no closed state has a higher
estimate. -/
structure Expanding (q : PathQuery) (search : Search) (closed : Finset PathState) (s : PathState)
    (a : Nat) : Prop where
  mem : s ∈ closed
  cost : search.best[s]? = some a
  top : ∀ u ∈ closed, ∀ b, search.best[u]? = some b →
    b + q.distance u.cell ≤ a + q.distance s.cell

theorem Expanding.of_refines {s : PathState} {a : Nat} {after : Search}
    (E : q.Expanding search closed s a) (hr : Refines search after closed) :
    q.Expanding after closed s a where
  mem := E.mem
  cost := by rw [hr.same s E.mem, E.cost]
  top u hu b hb := E.top u hu b (by rwa [← hr.same u hu])

variable {s t : PathState} {a k : Nat}

/-- A cheaper way never leads to a closed state. -/
theorem Expanding.not_mem_of_cheaper (E : q.Expanding search closed s a)
    (I : q.Invariant search closed) (hk : (t, k) ∈ q.successors s)
    (hcheaper : ∀ b, search.best[t]? = some b → a + k < b) : t ∉ closed := by
  intro ht
  obtain ⟨b, hb⟩ := I.known t ht
  have htop := E.top t ht b hb
  have hdistance := distance_le_of_mem_successors hk
  have hlt := hcheaper b hb
  omega

theorem reach_of_le {b : Nat} (hb : search.best[t]? = some b) (hle : b ≤ a + k) :
    q.reach s search t (a + k) = search := by
  rw [reach, if_neg]
  simp [hb, hle]

/-- Either a way is cheaper than all known ones, or one that costs no more is known. -/
theorem cheaper_or_known (search : Search) (t : PathState) (cost : Nat) :
    (∀ b, search.best[t]? = some b → cost < b) ∨ ∃ b, search.best[t]? = some b ∧ b ≤ cost := by
  cases search.best[t]? with
  | none => exact Or.inl (by simp)
  | some b =>
      rcases Nat.lt_or_ge cost b with hlt | hge
      · refine Or.inl fun b' hb' => ?_
        cases hb'
        exact hlt
      · exact Or.inr ⟨b, rfl, hge⟩

/-- The search after a cheaper way was recorded. -/
def record (q : PathQuery) (s : PathState) (search : Search) (t : PathState) (cost : Nat) :
    Search where
  waiting := search.waiting.insert ⟨cost + q.distance t.cell, cost, t⟩
  best := search.best.insert t cost
  previous := search.previous.insert t s

theorem reach_of_cheaper (hcheaper : ∀ b, search.best[t]? = some b → a + k < b) :
    q.reach s search t (a + k) = q.record s search t (a + k) := by
  rw [reach, if_pos, record]
  cases h : search.best[t]? with
  | none => rfl
  | some b => simpa using hcheaper b h

theorem best_record {cost : Nat} (u : PathState) :
    (q.record s search t cost).best[u]? = if u = t then some cost else search.best[u]? := by
  rw [record, HashMap.getElem?_insert]
  by_cases h : u = t
  · simp [h]
  · simp [h, Ne.symm h]

theorem previous_record {cost : Nat} (u : PathState) :
    (q.record s search t cost).previous[u]? = if u = t then some s else search.previous[u]? := by
  rw [record, HashMap.getElem?_insert]
  by_cases h : u = t
  · simp [h]
  · simp [h, Ne.symm h]

theorem mem_waiting_record {cost : Nat} {d : Candidate} :
    d ∈ (q.record s search t cost).waiting ↔
      d = ⟨cost + q.distance t.cell, cost, t⟩ ∨ d ∈ search.waiting := by
  rw [record, TreeSet.mem_insert, Candidate.order_eq_iff, eq_comm]

theorem refines_record {cost : Nat} (ht : t ∉ closed)
    (hcheaper : ∀ b, search.best[t]? = some b → cost < b) :
    Refines search (q.record s search t cost) closed where
  same u hu := by
    rw [best_record, if_neg]
    rintro rfl
    exact ht hu
  lower u b hb := by
    rw [best_record]
    by_cases hu : u = t
    · subst hu
      exact ⟨cost, by simp, (hcheaper b hb).le⟩
    · exact ⟨b, by simpa [hu] using hb, Nat.le_refl b⟩

/-- Recording a cheaper way out of the state that is being expanded. -/
theorem Invariant.record (I : q.Invariant search closed) (E : q.Expanding search closed s a)
    (hk : (t, k) ∈ q.successors s) (hcheaper : ∀ b, search.best[t]? = some b → a + k < b) :
    q.Invariant (q.record s search t (a + k)) closed := by
  have ht : t ∉ closed := E.not_mem_of_cheaper I hk hcheaper
  -- nothing is cheaper than to be at the start already
  have hinitial : q.initial ≠ t := by
    rintro rfl
    exact Nat.not_lt_zero _ (hcheaper 0 I.start)
  have hold (u : PathState) (hu : u ∈ closed) :
      (q.record s search t (a + k)).best[u]? = search.best[u]? :=
    (refines_record ht hcheaper).same u hu
  refine { passed := I.passed, start := ?start, origin := ?origin, bounded := ?bounded,
           known := ?known, queued := ?queued, estimated := ?estimated, stale := ?stale,
           ordered := ?ordered, parent := ?parent }
  case start => rw [best_record, if_neg hinitial, I.start]
  case origin => rw [previous_record, if_neg hinitial, I.origin]
  case bounded =>
    intro u b hb
    rw [best_record] at hb
    split at hb
    · rename_i hu
      exact hu ▸ mem_states_of_mem_successors hk
    · exact I.bounded u b hb
  case known =>
    intro u hu
    rw [hold u hu]
    exact I.known u hu
  case queued =>
    intro u b hb hu
    rw [best_record] at hb
    rw [mem_waiting_record]
    split at hb
    · rename_i heq
      cases hb
      exact Or.inl (by rw [heq])
    · exact Or.inr (I.queued u b hb hu)
  case estimated =>
    intro d hd
    rcases mem_waiting_record.1 hd with rfl | hd
    · rfl
    · exact I.estimated d hd
  case stale =>
    intro d hd
    rw [best_record]
    rcases mem_waiting_record.1 hd with rfl | hd
    · exact ⟨a + k, by simp, Nat.le_refl _, fun h => absurd h ht⟩
    · obtain ⟨b, hb, hle, hlt⟩ := I.stale d hd
      by_cases hdt : d.state = t
      · -- an older candidate for the same state is now out of date
        have hless : a + k < b := hcheaper b (hdt ▸ hb)
        exact ⟨a + k, by simp [hdt], by omega, fun h => absurd (hdt ▸ h) ht⟩
      · exact ⟨b, by simpa [hdt] using hb, hle, hlt⟩
  case ordered =>
    intro u hu b hb d hd
    rw [hold u hu] at hb
    rcases mem_waiting_record.1 hd with rfl | hd
    · -- the distance is consistent, so the new estimate is no lower than that of `s`
      have htop := E.top u hu b hb
      have hdistance := distance_le_of_mem_successors hk
      dsimp only
      omega
    · exact I.ordered u hu b hb d hd
  case parent =>
    intro u b hb hne
    rw [best_record] at hb
    by_cases hu : u = t
    · subst hu
      rw [if_pos rfl] at hb
      cases hb
      exact ⟨s, a, k, by simp [previous_record], E.mem, by rw [hold s E.mem, E.cost], hk, rfl⟩
    · rw [if_neg hu] at hb
      obtain ⟨p, c, j, hprev, hp, hc, hj, hsum⟩ := I.parent u b hb hne
      exact ⟨p, c, j, by simpa [previous_record, hu] using hprev, hp, by rw [hold p hp, hc], hj,
        hsum⟩

/-- Passing the cost of a state on to one successor. -/
theorem Invariant.reach (I : q.Invariant search closed) (E : q.Expanding search closed s a)
    (hk : (t, k) ∈ q.successors s) :
    q.Invariant (q.reach s search t (a + k)) closed ∧
      Refines search (q.reach s search t (a + k)) closed ∧
      (∃ b, (q.reach s search t (a + k)).best[t]? = some b ∧ b ≤ a + k) ∧
      (q.reach s search t (a + k)).waiting.size ≤ search.waiting.size + 1 := by
  rcases cheaper_or_known search t (a + k) with hcheaper | ⟨b, hb, hle⟩
  · rw [reach_of_cheaper hcheaper]
    refine ⟨I.record E hk hcheaper, refines_record (E.not_mem_of_cheaper I hk hcheaper) hcheaper,
      ⟨a + k, by simp [best_record], Nat.le_refl _⟩, ?_⟩
    exact TreeSet.size_insert_le
  · rw [reach_of_le hb hle]
    exact ⟨I, Refines.refl search closed, ⟨b, hb, hle⟩, Nat.le_succ _⟩

/-- Passing the cost of a state on to a list of its successors. -/
theorem Invariant.expand (I : q.Invariant search closed) (E : q.Expanding search closed s a)
    (targets : List (PathState × Nat)) (htargets : ∀ p ∈ targets, p ∈ q.successors s) :
    ∃ after, targets.foldl (fun found (next, move) => q.reach s found next (a + move)) search =
        after ∧
      q.Invariant after closed ∧ Refines search after closed ∧
      (∀ p ∈ targets, ∃ b, after.best[p.1]? = some b ∧ b ≤ a + p.2) ∧
      after.waiting.size ≤ search.waiting.size + targets.length := by
  -- what one successor was given may be lowered again by a later one, hence `≤` in the third part
  induction targets generalizing search with
  | nil => exact ⟨search, rfl, I, Refines.refl search closed, by simp, Nat.le_refl _⟩
  | cons p rest ih =>
      obtain ⟨hp, hrest⟩ := List.forall_mem_cons.1 htargets
      obtain ⟨I', hr, hknown, hsize⟩ := I.reach E hp
      obtain ⟨after, hafter, I'', hr', hothers, hsize'⟩ := ih I' (E.of_refines hr) hrest
      refine ⟨after, hafter, I'', hr.trans hr', ?_, ?_⟩
      · intro r hmem
        rcases List.mem_cons.1 hmem with rfl | hmem
        · obtain ⟨b, hb, hle⟩ := hknown
          obtain ⟨b', hb', hle'⟩ := hr'.lower _ b hb
          exact ⟨b', hb', hle'.trans hle⟩
        · exact hothers r hmem
      · simp only [List.length_cons]
        omega

end Look

end PathQuery
end Flow
end CellSketch
