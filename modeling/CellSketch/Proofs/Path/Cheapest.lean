import CellSketch.Proofs.Path.Search

/-!
# Cheapest — the path search finds a cheapest route

From the invariant of one look follows what a whole run does:

* `Invariant.exists_trace` — following predecessors gives a route that costs what the search noted;
* `Invariant.exists_waiting` — while a goal can be reached, a candidate on the way there waits;
* `Invariant.look` — every look answers correctly or makes progress;
* `find?_cheapest` — the search ends, answers whenever there is a route, and its route is cheapest.
-/

namespace CellSketch
namespace Flow
namespace PathQuery

open Std Step

variable {q : PathQuery} {search : Search} {closed : Finset PathState}

/-! ## Following predecessors -/

/-- The states with a predecessor whose best cost is at most `bound`. -/
def traced (search : Search) (bound : Nat) : Finset PathState :=
  search.previous.keys.toFinset.filter fun s => (search.best[s]?).any (· ≤ bound)

theorem mem_traced {s : PathState} {bound : Nat} :
    s ∈ traced search bound ↔
      s ∈ search.previous ∧ ∃ b, search.best[s]? = some b ∧ b ≤ bound := by
  simp [traced, Option.any_eq_true]

theorem card_traced_le (search : Search) (bound : Nat) :
    (traced search bound).card ≤ search.previous.size := by
  calc
    (traced search bound).card
        ≤ search.previous.keys.toFinset.card := Finset.card_filter_le _ _
    _ ≤ search.previous.keys.length := List.toFinset_card_le _
    _ = search.previous.size := HashMap.length_keys

/-- Predecessors lead back to the start: a step back lowers the cost, so the number of states that
are cheap enough bounds the number of steps. -/
theorem Invariant.exists_trace (I : q.Invariant search closed) {t : PathState} {b : Nat}
    (hb : search.best[t]? = some b) :
    ∃ route, q.Leads t route b ∧ ∀ fuel tail, (traced search b).card ≤ fuel →
      trace search.previous fuel t tail = route ++ tail := by
  induction b using Nat.strong_induction_on generalizing t with
  | _ b ih =>
      -- only the first state has no predecessor
      by_cases ht : t = q.initial
      · subst ht
        have hzero : b = 0 := Option.some.inj (hb.symm.trans I.start)
        subst hzero
        refine ⟨[q.start], .start, fun fuel tail _ => ?_⟩
        cases fuel with
        | zero => rfl
        | succ fuel =>
            rw [trace, I.origin]
            rfl
      · obtain ⟨s, a, k, hprev, -, ha, hk, rfl⟩ := I.parent t b hb ht
        have hpos := pos_of_mem_successors hk
        obtain ⟨route, hroute, htrace⟩ := ih a (by omega) ha
        -- `t` itself is no longer among the states that are cheap enough for `s`
        have hmem : t ∈ traced search (a + k) := by
          refine mem_traced.2 ⟨?_, a + k, hb, Nat.le_refl _⟩
          rw [HashMap.mem_iff_isSome_getElem?, hprev]
          rfl
        have hnot : t ∉ traced search a := by
          intro h
          obtain ⟨-, b, hb', hle⟩ := mem_traced.1 h
          have hsum : a + k = b := Option.some.inj (hb.symm.trans hb')
          omega
        have hsub : traced search a ⊆ traced search (a + k) := by
          intro u hu
          obtain ⟨hu, b, hb', hle⟩ := mem_traced.1 hu
          exact mem_traced.2 ⟨hu, b, hb', by omega⟩
        have hcard := Finset.card_lt_card (Finset.ssubset_iff_of_subset hsub |>.2 ⟨t, hmem, hnot⟩)
        refine ⟨route ++ [t.cell], hroute.move hk, fun fuel tail hfuel => ?_⟩
        cases fuel with
        | zero => omega
        | succ fuel =>
            rw [trace, hprev]
            dsimp only
            rw [htrace fuel (t.cell :: tail) (by omega)]
            simp

/-! ## What waits -/

/-- A walk to a goal passes a state that waits with an estimate no higher than the whole cost: the
first one on it that is not closed. -/
theorem Invariant.exists_waiting (I : q.Invariant search closed) (R : q.Relaxed search closed)
    {s : PathState} {b : Nat} (hb : search.best[s]? = some b) {rest : List Cell}
    (hwalk : q.walks s rest = true) :
    ∃ c ∈ search.waiting, c.estimate ≤ b + costFrom s.entered (s.cell :: rest) := by
  induction rest generalizing s b with
  | nil =>
      have hopen : s ∉ closed := by
        intro hs
        rw [walks, I.passed s hs] at hwalk
        cases hwalk
      have hdistance := distance_le_costFrom hwalk
      exact ⟨_, I.queued s b hb hopen, by dsimp only; omega⟩
  | cons c rest ih =>
      by_cases hs : s ∈ closed
      · -- a closed state has passed its cost on, so the search goes on from the next one
        obtain ⟨k, hk, hrest⟩ := walks_cons.1 hwalk
        obtain ⟨b', hb', hle⟩ := R s hs b hb _ k hk
        obtain ⟨d, hd, hestimate⟩ := ih hb' hrest
        have hcost := costFrom_cons hk rest
        dsimp only at hcost hestimate
        exact ⟨d, hd, by omega⟩
      · have hdistance := distance_le_costFrom hwalk
        exact ⟨_, I.queued s b hb hs, by dsimp only; omega⟩

theorem Invariant.exists_waiting_of_isPath (I : q.Invariant search closed)
    (R : q.Relaxed search closed) {route : List Cell} (h : q.isPath route = true) :
    ∃ c ∈ search.waiting, c.estimate ≤ q.cost route := by
  cases route with
  | nil => simp [isPath] at h
  | cons c rest =>
      simp only [isPath, Bool.and_eq_true, beq_iff_eq] at h
      obtain ⟨rfl, hwalk⟩ := h
      obtain ⟨c, hc, hle⟩ := I.exists_waiting R I.start hwalk
      exact ⟨c, hc, by simpa [initial, cost] using hle⟩

/-! ## One look -/

/-- What a right answer is: a cheapest path, or none if there is no path. -/
def Answers (q : PathQuery) : Option (List Cell) → Prop
  | none => ∀ route, q.isPath route = false
  | some path => q.isPath path = true ∧ ∀ route, q.isPath route = true → q.cost path ≤ q.cost route

/-- How much there is left to look at: what waits, and four candidates for each open state. -/
def remaining (q : PathQuery) (search : Search) (closed : Finset PathState) : Nat :=
  search.waiting.size + 4 * (q.states \ closed).card

theorem min?_waiting {c : Candidate} (h : search.waiting.min? = some c) :
    c ∈ search.waiting ∧ ∀ d ∈ search.waiting, c.estimate ≤ d.estimate := by
  obtain ⟨hc, hmin⟩ := TreeSet.min?_eq_some_iff_mem_and_forall.1 h
  exact ⟨hc, fun d hd => Candidate.estimate_le_of_isLE (hmin d hd)⟩

theorem size_drop {c : Candidate} (hc : c ∈ search.waiting) :
    (drop search c).waiting.size + 1 = search.waiting.size := by
  have hpos : search.waiting.size ≠ 0 := by
    intro hzero
    have hempty : search.waiting.isEmpty = true := by
      rw [TreeSet.isEmpty_eq_size_eq_zero, hzero]
      rfl
    rw [TreeSet.isEmpty_iff_forall_not_mem] at hempty
    exact hempty c hc
  rw [drop, TreeSet.size_erase, if_pos (TreeSet.mem_iff_contains.1 hc)]
  omega

theorem Invariant.answers_of_empty (I : q.Invariant search closed) (R : q.Relaxed search closed)
    (h : search.waiting.min? = none) : q.Answers none := by
  intro route
  by_contra hpath
  obtain ⟨c, hc, -⟩ := I.exists_waiting_of_isPath R (by simpa using hpath)
  rw [TreeSet.min?_eq_none_iff, TreeSet.isEmpty_iff_forall_not_mem] at h
  exact h c hc

theorem Invariant.answers_of_arrived (I : q.Invariant search closed) (R : q.Relaxed search closed)
    {c : Candidate} (h : search.waiting.min? = some c) (hb : search.best[c.state]? = some c.cost)
    (harrived : q.arrived c.state = true) :
    q.Answers (some (trace search.previous search.previous.size c.state [])) := by
  obtain ⟨hc, hmin⟩ := min?_waiting h
  obtain ⟨route, hroute, htrace⟩ := I.exists_trace hb
  have hstop : q.walks c.state [] = true := harrived
  obtain ⟨hpath, hcost⟩ := hroute.isPath_append hstop
  rw [htrace _ _ (card_traced_le search c.cost)]
  refine ⟨hpath, fun other hother => ?_⟩
  -- a candidate on the way of the other path waits behind this one
  obtain ⟨d, hd, hle⟩ := I.exists_waiting_of_isPath R hother
  calc
    q.cost (route ++ []) = c.cost + 0 := hcost
    _ ≤ c.estimate := by
        rw [I.estimated c hc]
        omega
    _ ≤ d.estimate := hmin d hd
    _ ≤ q.cost other := hle

/-- Expanding the first candidate keeps the invariant and leaves less to look at. -/
theorem Invariant.continues (I : q.Invariant search closed) (R : q.Relaxed search closed)
    {c : Candidate} (h : search.waiting.min? = some c) (hb : search.best[c.state]? = some c.cost)
    (harrived : q.arrived c.state = false) :
    ∃ after, (q.successors c.state).foldl
        (fun found (next, move) => q.reach c.state found next (c.cost + move)) (drop search c) =
        after ∧
      q.Invariant after (insert c.state closed) ∧ q.Relaxed after (insert c.state closed) ∧
      q.remaining after (insert c.state closed) < q.remaining search closed := by
  obtain ⟨hc, hmin⟩ := min?_waiting h
  have hopen : c.state ∉ closed := by
    intro hs
    obtain ⟨b, hcb, -, hlt⟩ := I.stale c hc
    have hsame : b = c.cost := Option.some.inj (hcb.symm.trans hb)
    have hless := hlt hs
    omega
  have E : q.Expanding (drop search c) (insert c.state closed) c.state c.cost := by
    refine ⟨Finset.mem_insert_self _ _, hb, fun u hu b hub => ?_⟩
    rcases Finset.mem_insert.1 hu with rfl | hu
    · have hsame : b = c.cost := Option.some.inj (hub.symm.trans hb)
      rw [hsame]
    · rw [← I.estimated c hc]
      exact I.ordered u hu b hub c hc
  obtain ⟨after, hafter, I', hr, hknown, hsize⟩ :=
    (I.close hc hmin hb harrived).expand E (q.successors c.state) fun _ hp => hp
  refine ⟨after, hafter, I', ?_, ?_⟩
  · -- the new closed state has just passed its cost on, the others did so before
    intro s hs a ha t k hk
    rcases Finset.mem_insert.1 hs with rfl | hs'
    · rw [hr.same _ hs] at ha
      have hsame : a = c.cost := Option.some.inj (ha.symm.trans hb)
      rw [hsame]
      exact hknown (t, k) hk
    · rw [hr.same _ hs] at ha
      obtain ⟨b, htb, hle⟩ := R s hs' a ha t k hk
      obtain ⟨b', htb', hle'⟩ := hr.lower t b htb
      exact ⟨b', htb', hle'.trans hle⟩
  · -- one state fewer is open, which pays for the four candidates it may add
    have hfour := length_successors_le q c.state
    have hdrop := size_drop hc
    have hmem : c.state ∈ q.states \ closed :=
      Finset.mem_sdiff.2 ⟨I.bounded _ _ hb, hopen⟩
    have hcard : (q.states \ insert c.state closed).card + 1 = (q.states \ closed).card := by
      rw [Finset.sdiff_insert, Finset.card_erase_of_mem hmem]
      exact Nat.succ_pred_eq_of_pos (Finset.card_pos.2 ⟨_, hmem⟩)
    simp only [remaining]
    omega

/-- A look answers rightly, or goes on with the invariant kept and less to look at. -/
theorem Invariant.look (I : q.Invariant search closed) (R : q.Relaxed search closed) :
    match q.look search with
    | .found path => q.Answers (some path)
    | .exhausted => q.Answers none
    | .continues next => ∃ closed', q.Invariant next closed' ∧ q.Relaxed next closed' ∧
        q.remaining next closed' < q.remaining search closed := by
  rw [PathQuery.look]
  cases hmin : search.waiting.min? with
  | none => exact I.answers_of_empty R hmin
  | some c =>
      have hc := (min?_waiting hmin).1
      obtain ⟨b, hb, hle, -⟩ := I.stale c hc
      dsimp only
      by_cases hstale : b < c.cost
      · -- a cheaper way was found since: the candidate is passed over
        rw [if_pos (by simpa [hb] using hstale)]
        refine ⟨closed, I.pass hb hstale, R, ?_⟩
        have hdrop : (search.waiting.erase c).size + 1 = search.waiting.size := size_drop hc
        simp only [remaining]
        omega
      · have hbest : search.best[c.state]? = some c.cost := by
          rw [hb, Nat.le_antisymm hle (Nat.le_of_not_lt hstale)]
        rw [if_neg (by simp [hbest])]
        cases harrived : q.arrived c.state with
        | true => exact I.answers_of_arrived R hmin hbest harrived
        | false =>
            obtain ⟨after, hafter, I', R', hless⟩ := I.continues R hmin hbest harrived
            rw [drop] at hafter
            simp only [Bool.false_eq_true, if_false, hafter]
            exact ⟨_, I', R', hless⟩

/-! ## Whole runs -/

/-- The search ends with an answer after finitely many looks. -/
inductive Finishes (q : PathQuery) : Search → Option (List Cell) → Prop where
  | found {search : Search} {path : List Cell} :
      q.look search = .found path → Finishes q search (some path)
  | exhausted {search : Search} : q.look search = .exhausted → Finishes q search none
  | continues {search next : Search} {answer : Option (List Cell)} :
      q.look search = .continues next → Finishes q next answer → Finishes q search answer

theorem Invariant.run (I : q.Invariant search closed) (R : q.Relaxed search closed) {fuel : Nat}
    (hfuel : q.remaining search closed < fuel) :
    q.Finishes search (q.run fuel search) ∧ q.Answers (q.run fuel search) := by
  induction fuel generalizing search closed with
  | zero => omega
  | succ fuel ih =>
      have hlook := I.look R
      rw [PathQuery.run]
      cases heq : q.look search with
      | found path =>
          rw [heq] at hlook
          exact ⟨.found heq, hlook⟩
      | exhausted =>
          rw [heq] at hlook
          exact ⟨.exhausted heq, hlook⟩
      | continues next =>
          rw [heq] at hlook
          obtain ⟨closed', I', R', hless⟩ := hlook
          obtain ⟨hends, hanswers⟩ := ih I' R' (by omega)
          exact ⟨.continues heq hends, hanswers⟩

theorem remaining_begin_lt (q : PathQuery) : q.remaining q.begin ∅ < q.lookLimit := by
  have hcard := card_states_le q
  have hsize : q.begin.waiting.size ≤ 1 := by
    rw [begin]
    exact TreeSet.size_insert_le.trans (by simp)
  simp only [remaining, lookLimit, Finset.sdiff_empty]
  omega

theorem find?_finishes (q : PathQuery) :
    q.Finishes q.begin q.find? ∧ q.Answers q.find? :=
  (invariant_begin q).run (fun s hs => absurd hs (Finset.notMem_empty s)) (remaining_begin_lt q)

/-- A path that is found is a valid route, also when the start is the goal. -/
theorem valid_of_find? {path : List Cell} (h : q.find? = some path) : q.Valid path := by
  obtain ⟨-, hanswers⟩ := find?_finishes q
  rw [h] at hanswers
  by_cases hgoal : q.start = q.goal
  · have hcost := hanswers.2 [q.start] (isPath_of_valid (valid_singleton hgoal))
    have hzero : q.cost path = 0 := by simpa [cost, costFrom] using hcost
    rw [eq_singleton_of_cost_eq_zero hanswers.1 hzero]
    exact valid_singleton hgoal
  · exact valid_of_isPath hanswers.1 hgoal

/-- The search ends; it gives no route only if there is none, and else a cheapest one. -/
theorem find?_cheapest (q : PathQuery) :
    q.Finishes q.begin q.find? ∧ (q.find? = none ↔ ∀ route, ¬ q.Valid route) ∧
      ∀ path ∈ q.find?, q.Valid path ∧ ∀ route, q.Valid route → q.price path ≤ q.price route := by
  obtain ⟨hends, hanswers⟩ := find?_finishes q
  refine ⟨hends, ⟨fun hnone route hvalid => ?_, fun hall => ?_⟩, fun path hpath => ?_⟩
  · rw [hnone] at hanswers
    have hnot := hanswers route
    rw [isPath_of_valid hvalid] at hnot
    cases hnot
  · cases hfind : q.find? with
    | none => rfl
    | some path => exact absurd (valid_of_find? hfind) (hall path)
  · rw [Option.mem_def] at hpath
    refine ⟨valid_of_find? hpath, fun route hroute => ?_⟩
    rw [hpath] at hanswers
    rw [price_eq_cost, price_eq_cost]
    exact hanswers.2 route (isPath_of_valid hroute)

end PathQuery
end Flow
end CellSketch
