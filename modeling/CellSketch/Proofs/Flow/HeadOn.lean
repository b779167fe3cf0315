import CellSketch.Proofs.Flow.Orthogonal
import CellSketch.Proofs.Path.TurningBack

/-!
# HeadOn — how the ends of a found way meet their boxes

A found path leaves its start away from the source and enters its goal toward the target, and the
border cells lie straight ahead of both.  The points of the edge keep these two directions, with one
exception: where the path steps back from its goal and in again, the merge takes the way there and
back for one straight run, and if the goal carries a head, nothing follows that would enter it.

* `mergeStraight_append` — merging splits at a corner;
* `Ends.way_of_find?` — a path is a way up to any cell before it goes back on itself;
* `Ends.runs_of_turnsBack` — what is left of a path that turns back;
* `route_headOn` — an edge meets its target head on unless it has a head there and turns back.
-/

namespace CellSketch
namespace Flow

open Connection Number Step

/-! ## Unit moves -/

namespace Step

theorem mem_moves {m : Step} (h : m = up ∨ m = down) : m ∈ moves := by
  rcases h with rfl | rfl <;> decide

theorem ne_reverse {m : Step} (h : m ∈ moves) : m ≠ m.reverse := by
  have hall : ∀ m ∈ moves, m ≠ m.reverse := by decide
  exact hall m h

end Step

/-! ## Merging and normalization up to a point -/

/-- What the merge keeps of a point depends on its two neighbours only. -/
theorem mergeStraight_go_cons (previous c next : Cell) (rest : List Cell) :
    mergeStraight.go previous (c :: next :: rest) =
      (if (previous.x = c.x ∧ c.x = next.x) ∨ (previous.y = c.y ∧ c.y = next.y) then [] else [c]) ++
        mergeStraight.go c (next :: rest) := by
  rw [mergeStraight.go]
  split <;> rfl

theorem mergeStraight_go_append {p c n : Cell} (previous : Cell) (front back : List Cell)
    (hcorner : ¬ ((p.x = c.x ∧ c.x = n.x) ∨ (p.y = c.y ∧ c.y = n.y))) :
    mergeStraight.go previous (front ++ p :: c :: n :: back) =
      mergeStraight.go previous (front ++ [p, c]) ++ mergeStraight.go c (n :: back) := by
  induction front generalizing previous with
  | nil =>
      rw [List.nil_append, List.nil_append, mergeStraight_go_cons, mergeStraight_go_cons p,
        mergeStraight_go_cons previous p c, if_neg hcorner, List.append_assoc, mergeStraight.go]
  | cons d front ih =>
      have hrest := ih d
      cases front with
      | nil =>
          simp only [List.cons_append, List.nil_append] at hrest ⊢
          rw [mergeStraight_go_cons, hrest, mergeStraight_go_cons previous d, List.append_assoc]
      | cons d' front =>
          simp only [List.cons_append] at hrest ⊢
          rw [mergeStraight_go_cons, hrest, mergeStraight_go_cons previous d, List.append_assoc]

/-- Merging splits at a corner. -/
theorem mergeStraight_append {p c n : Cell} (front back : List Cell)
    (hcorner : ¬ ((p.x = c.x ∧ c.x = n.x) ∨ (p.y = c.y ∧ c.y = n.y))) :
    mergeStraight (front ++ p :: c :: n :: back) =
      mergeStraight (front ++ [p, c]) ++ mergeStraight.go c (n :: back) := by
  cases front with
  | nil => simp [mergeStraight, mergeStraight.go, hcorner]
  | cons d front =>
      simp only [List.cons_append, mergeStraight, mergeStraight_go_append d front back hcorner]

theorem chainFrom_concat {last c : Cell} {points : List Cell}
    (h : (last :: points).IsChain Aligned) (hlast : (last :: points).getLast? = some c) :
    chainFrom last (points ++ [c]) = points := by
  induction points generalizing last with
  | nil =>
      have heq : last = c := by simpa using hlast
      rw [List.nil_append, chainFrom, if_pos heq]
      rfl
  | cons d rest ih =>
      obtain ⟨hd, hrest⟩ := List.isChain_cons_cons.1 h
      rw [List.getLast?_cons_cons] at hlast
      unfold Aligned at hd
      have hne : last ≠ d := by
        rintro rfl
        omega
      rw [List.cons_append, chainFrom, if_neg hne, if_neg (by omega), ih hrest hlast]

/-- A repeated last point is dropped. -/
theorem chain_concat {points : List Cell} {c : Cell} (h : points.IsChain Aligned)
    (hlast : points.getLast? = some c) : chain (points ++ [c]) = points := by
  cases points with
  | nil => cases hlast
  | cons d rest => rw [List.cons_append, chain, chainFrom_concat h hlast]

theorem headings_append_pair (l : List Cell) (a b : Cell) :
    headings (l ++ [a, b]) = headings (l ++ [a]) ++ [Heading.between a b] := by
  induction l with
  | nil => rfl
  | cons c l ih =>
      cases l with
      | nil => rfl
      | cons d l => simpa using ih

/-! ## Heads along the points -/

theorem exists_firstMove? {points : List Cell} {first : Heading}
    (h : (headings points).head? = some first) : ∃ a b, points.head? = some a ∧
      firstMove? points = some (a, b) ∧ Heading.between a b = first := by
  match points, h with
  | a :: b :: rest, h => exact ⟨a, b, rfl, rfl, by simpa using h⟩

theorem exists_lastMove? {points : List Cell} {last : Heading}
    (h : (headings points).getLast? = some last) : ∃ a b, points.getLast? = some b ∧
      lastMove? points = some (a, b) ∧ Heading.between a b = last := by
  induction points with
  | nil => cases h
  | cons c rest ih =>
      match rest, ih, h with
      | [], _, h => cases h
      | [d], _, h => exact ⟨c, d, rfl, rfl, by simpa using h⟩
      | d :: d' :: rest, ih, h =>
          obtain ⟨a, b, hb, hmove, hheading⟩ := ih (by simpa using h)
          exact ⟨a, b, by rwa [List.getLast?_cons_cons], hmove, hheading⟩

namespace Ends

/-- Points that lead from one end to the other, out of the first one with heading `first` and into
the second one with heading `last`.  A head at the first end is turned against its piece, a head at
the second end along its piece. -/
structure Runs (e : Ends) (arrow : Arrow) (first last : Heading) (points : List Cell) : Prop where
  starts : points.head? = some (if arrow.atStart then e.start else e.leaving)
  ends : points.getLast? = some (if arrow.atEnd then e.goal else e.arriving)
  leaves : (headings points).head? = some first
  enters : (headings points).getLast? = some last
  heads : ∀ round, (planChain points arrow round : Plan Measure).heads =
    (if arrow.atStart then [⟨e.start, first.degrees - 90⟩] else []) ++
      (if arrow.atEnd then [⟨e.goal, last.degrees + 90⟩] else [])

variable {e : Ends}

/-- The heads follow from the directions. -/
theorem runs_of_headings {arrow : Arrow} {first last : Heading} {points : List Cell}
    (hstarts : points.head? = some (if arrow.atStart then e.start else e.leaving))
    (hends : points.getLast? = some (if arrow.atEnd then e.goal else e.arriving))
    (hleaves : (headings points).head? = some first)
    (henters : (headings points).getLast? = some last) : e.Runs arrow first last points := by
  refine ⟨hstarts, hends, hleaves, henters, fun round => ?_⟩
  obtain ⟨a, b, ha, hfirst, rfl⟩ := exists_firstMove? hleaves
  obtain ⟨c, d, hd, hlast, rfl⟩ := exists_lastMove? henters
  rw [ha, Option.some.injEq] at hstarts
  rw [hd, Option.some.injEq] at hends
  have hstart : (startMove points arrow).map startHead =
      if arrow.atStart then [⟨e.start, (Heading.between a b).degrees - 90⟩] else [] := by
    rw [startMove]
    split
    · rename_i hs
      rw [if_pos hs] at hstarts
      rw [hfirst, ← hstarts]
      rfl
    · rfl
  have hend : (endMove points arrow).map endHead =
      if arrow.atEnd then [⟨e.goal, (Heading.between c d).degrees + 90⟩] else [] := by
    rw [endMove]
    split
    · rename_i he
      rw [if_pos he] at hends
      rw [hlast, ← hends]
      rfl
    · rfl
  match points, hfirst, hstart, hend with
  | x :: y :: rest, _, hstart, hend => exact congrArg₂ (· ++ ·) hstart hend

/-! ## Ways along a path -/

/-- The same ends, but with a cell of the path as the goal, entered from the cell before it. -/
def upTo (e : Ends) (p c : Cell) : Ends :=
  { e with arriving := (Step.between p c).ahead c, arrive := Step.between p c }

theorem goal_upTo (e : Ends) (p c : Cell) : (e.upTo p c).goal = c := by
  simp only [goal, upTo, behind, ahead, Int.add_sub_cancel]

/-- The border of the target lies ahead of the goal. -/
theorem ahead_goal (e : Ends) : e.arrive.ahead e.goal = e.arriving := by
  simp only [goal, ahead, behind, Int.sub_add_cancel]

theorem upTo_eq_self {e : Ends} {p : Cell} (h : Step.between p e.goal = e.arrive) :
    e.upTo p e.goal = e := by
  rw [upTo, h, ahead_goal]

section Found

variable {blocked : Cell → Bool} {width height : Int} {path : List Cell}

/-- A path is a way up to any of its cells before which it does not go back on itself. -/
theorem way_of_find? (h : (e.query blocked width height).find? = some path)
    {front : List Cell} {p c : Cell} (hfront : front ++ [p, c] <+: path)
    (hchain : (along (front ++ [p, c])).IsChain fun m n => n ≠ m.reverse) :
    (e.upTo p c).Way e.start c (front ++ [p, c]) := by
  obtain ⟨back, hpath⟩ := hfront
  have hvalid := PathQuery.valid_of_find? h
  have hstarts : path.head? = some e.start := hvalid.starts
  have hunit := hvalid.unit
  have hleaves : path.IsChain fun a b => a = e.start → Step.between a b = e.leave := hvalid.leaves
  rw [← hpath] at hstarts hunit hleaves
  refine ⟨⟨hunit.left_of_append, hchain⟩, ?_, by simp, ?_, ?_⟩
  · rw [← hstarts]
    cases front <;> rfl
  · have hleaves := hleaves.left_of_append
    obtain ⟨a, b, rest, hab⟩ : ∃ a b rest, front ++ [p, c] = a :: b :: rest := by
      rcases front with _ | ⟨a, _ | ⟨b, front⟩⟩
      · exact ⟨p, c, [], rfl⟩
      · exact ⟨a, p, [c], rfl⟩
      · exact ⟨a, b, front ++ [p, c], rfl⟩
    rw [hab] at hstarts hleaves ⊢
    rw [along_cons_cons, List.head?_cons]
    exact congrArg some ((List.isChain_cons_cons.1 hleaves).1 (by simpa using hstarts))
  · rw [along_append_pair, List.getLast?_concat]
    rfl

/-- A path that does not turn back gives an edge that meets its target head on. -/
theorem runs_of_not_turnsBack (hleave : e.leave = Step.up ∨ e.leave = Step.down)
    (harrive : e.arrive = Step.up ∨ e.arrive = Step.down)
    (h : (e.query blocked width height).find? = some path) (hne : e.start ≠ e.goal)
    (hnot : ¬ (e.query blocked width height).TurnsBack path) (arrow : Arrow) :
    normalize (rawPoints (mergeStraight (e.complete arrow path))) =
        .ok (mergeStraight (e.complete arrow path)) ∧
      e.Runs arrow e.leave.heading e.arrive.heading (mergeStraight (e.complete arrow path)) := by
  have hvalid := PathQuery.valid_of_find? h
  have hends : path.getLast? = some e.goal := hvalid.ends
  have hstarts : path.head? = some e.start := hvalid.starts
  have hchain := (PathQuery.isChain_iff_not_turnsBack h).2 hnot
  -- the last move of the path is the one into the goal
  obtain ⟨front, p, hpath⟩ : ∃ front p, path = front ++ [p, e.goal] := by
    obtain ⟨init, rfl⟩ := List.getLast?_eq_some_iff.1 hends
    rcases List.eq_nil_or_concat init with rfl | ⟨front, p, rfl⟩
    · exact absurd (by simpa using hstarts) hne.symm
    · exact ⟨front, p, by simp⟩
  have hmove : Step.between p e.goal = e.arrive := by
    refine hvalid.arrives _ ?_
    rw [hpath, along_append_pair, List.getLast?_concat]
    exact rfl
  have hway : e.Way e.start e.goal path := by
    have hupTo := way_of_find? h (hpath ▸ List.prefix_refl _) (hpath ▸ hchain)
    rwa [upTo_eq_self hmove, ← hpath] at hupTo
  have hcomplete := way_complete arrow ⟨mem_moves hleave, ne_reverse (mem_moves hleave)⟩
    ⟨mem_moves harrive, ne_reverse (mem_moves harrive)⟩ hway
  obtain ⟨hturning, hhead, hlast, hfirst, hfinal, -⟩ := hcomplete.mergeStraight
  exact ⟨normalize_rawPoints hturning.aligned, runs_of_headings hhead hlast hfirst hfinal⟩

/-- The merge takes the way back from the goal and in again for one straight run with what
follows. -/
theorem mergeStraight_turnsBack (harrive : e.arrive = Step.up ∨ e.arrive = Step.down)
    {front : List Cell} {p : Cell} (hside : p.x ≠ e.goal.x) (arrow : Arrow) :
    mergeStraight (e.complete arrow (front ++ [p, e.goal] ++ [e.arrive.behind e.goal, e.goal])) =
      mergeStraight (e.complete ⟨arrow.atStart, true⟩ (front ++ [p, e.goal])) ++
        [if arrow.atEnd then e.goal else e.arriving] := by
  have hthreshold : e.goal.x = (e.arrive.behind e.goal).x ∧
      e.goal.y ≠ (e.arrive.behind e.goal).y := by
    rcases harrive with h | h
    all_goals
      simp only [h, behind, Step.up, Step.down]
      omega
  have hborder : e.goal.x = e.arriving.x := by
    rcases harrive with h | h <;> simp [goal, h, behind, Step.up, Step.down]
  have hcorner : ¬ ((p.x = e.goal.x ∧ e.goal.x = (e.arrive.behind e.goal).x) ∨
      (p.y = e.goal.y ∧ e.goal.y = (e.arrive.behind e.goal).y)) := by
    rintro (⟨hx, -⟩ | ⟨-, hy⟩)
    · exact hside hx
    · exact hthreshold.2 hy
  generalize e.arrive.behind e.goal = c at hthreshold hcorner ⊢
  -- of the cells behind the corner only the last one is kept
  have hrest : mergeStraight.go e.goal (c :: e.goal ::
      (if arrow.atEnd then [] else [e.arriving])) =
        [if arrow.atEnd then e.goal else e.arriving] := by
    rw [mergeStraight_go_cons, if_pos (Or.inl ⟨hthreshold.1, hthreshold.1.symm⟩), List.nil_append]
    cases arrow.atEnd with
    | true => rfl
    | false =>
        have hlast := mergeStraight_go_cons c e.goal e.arriving []
        rw [if_pos (Or.inl ⟨hthreshold.1.symm, hborder⟩)] at hlast
        exact hlast
  rw [← hrest]
  simp only [complete, if_true, List.append_nil, List.append_assoc, List.cons_append,
    List.nil_append]
  rw [← List.append_assoc, ← List.append_assoc, mergeStraight_append _ _ hcorner]

/-- The points of a path up to its goal, which is entered from any side. -/
theorem merged_upTo (hleave : e.leave = Step.up ∨ e.leave = Step.down) {front : List Cell}
    {p : Cell} (hmove : Step.between p e.goal ∈ moves)
    (hway : (e.upTo p e.goal).Way e.start e.goal (front ++ [p, e.goal])) (arrow : Arrow) :
    ∃ points, mergeStraight (e.complete ⟨arrow.atStart, true⟩ (front ++ [p, e.goal])) = points ∧
      points.IsChain Aligned ∧
      points.head? = some (if arrow.atStart then e.start else e.leaving) ∧
      points.getLast? = some e.goal ∧ (headings points).head? = some e.leave.heading ∧
      (headings points).getLast? = some (Step.between p e.goal).heading := by
  have hends : (e.upTo p e.goal).Way e.start (e.upTo p e.goal).goal (front ++ [p, e.goal]) := by
    rw [goal_upTo]
    exact hway
  have hcomplete := way_complete (e := e.upTo p e.goal) ⟨arrow.atStart, true⟩
    ⟨mem_moves hleave, ne_reverse (mem_moves hleave)⟩ ⟨hmove, ne_reverse hmove⟩ hends
  obtain ⟨hturning, hhead, hlast, hfirst, hfinal, -⟩ := hcomplete.mergeStraight
  rw [if_pos rfl, goal_upTo] at hlast
  exact ⟨_, rfl, hturning.aligned, hhead, hlast, hfirst, hfinal⟩

/-- A head at the goal hides that it is repeated. -/
theorem runs_of_repeated {arrow : Arrow} {first last : Heading} {points : List Cell}
    (haligned : points.IsChain Aligned)
    (hhead : points.head? = some (if arrow.atStart then e.start else e.leaving))
    (hlast : points.getLast? = some e.goal) (hfirst : (headings points).head? = some first)
    (hfinal : (headings points).getLast? = some last) (harrow : arrow.atEnd = true) :
    normalize (rawPoints (points ++ [e.goal])) = .ok points ∧ e.Runs arrow first last points := by
  constructor
  · refine (normalize_pointsThrough Halves.doubles _).trans (congrArg Except.ok ?_)
    exact chain_concat haligned hlast
  · exact runs_of_headings hhead (by rw [hlast, harrow]; rfl) hfirst hfinal

/-- Without a head the border of the target follows straight ahead. -/
theorem runs_of_border (harrive : e.arrive = Step.up ∨ e.arrive = Step.down) {arrow : Arrow}
    {first : Heading} {points : List Cell} (haligned : points.IsChain Aligned)
    (hhead : points.head? = some (if arrow.atStart then e.start else e.leaving))
    (hlast : points.getLast? = some e.goal) (hfirst : (headings points).head? = some first)
    (harrow : arrow.atEnd = false) :
    normalize (rawPoints (points ++ [e.arriving])) = .ok (points ++ [e.arriving]) ∧
      e.Runs arrow first e.arrive.heading (points ++ [e.arriving]) := by
  have hbetween : Step.between e.goal e.arriving = e.arrive := by
    rw [← ahead_goal, between_ahead]
  obtain ⟨hheading, hnext⟩ := heading_between (hbetween ▸ mem_moves harrive)
  rw [hbetween] at hheading
  have hchain : (points ++ [e.arriving]).IsChain Aligned := by
    rw [List.isChain_append]
    refine ⟨haligned, List.isChain_singleton _, fun a ha b hb => ?_⟩
    rw [hlast, Option.mem_some_iff] at ha
    rw [List.head?_singleton, Option.mem_some_iff] at hb
    exact ha ▸ hb ▸ hnext
  obtain ⟨init, rfl⟩ := List.getLast?_eq_some_iff.1 hlast
  have hheadings : headings (init ++ [e.goal] ++ [e.arriving]) =
      headings (init ++ [e.goal]) ++ [e.arrive.heading] := by
    rw [List.append_assoc, List.singleton_append, headings_append_pair, hheading]
  refine ⟨normalize_rawPoints hchain, runs_of_headings ?_ ?_ ?_ ?_⟩
  · rw [List.head?_append, hhead, Option.some_or]
  · rw [List.getLast?_concat, harrow]
    rfl
  · rw [hheadings, List.head?_append, hfirst, Option.some_or]
  · rw [hheadings, List.getLast?_concat]

/-- A path that turns back comes to its goal from the side.  The way there and back is merged into
one point, so the edge goes on to the border of the target from the side, or ends in the goal. -/
theorem runs_of_turnsBack (hleave : e.leave = Step.up ∨ e.leave = Step.down)
    (harrive : e.arrive = Step.up ∨ e.arrive = Step.down)
    (h : (e.query blocked width height).find? = some path) (hne : e.start ≠ e.goal)
    (hback : (e.query blocked width height).TurnsBack path) (hstart : e.start ≠ e.arriving)
    (hborder : blocked e.arriving = true) (arrow : Arrow) :
    ∃ points last, normalize (rawPoints (mergeStraight (e.complete arrow path))) = .ok points ∧
      e.Runs arrow e.leave.heading last points ∧
      (last = e.arrive.heading ↔ arrow.atEnd = false) := by
  have hvertical : e.arrive.dx = 0 := by
    rcases harrive with h | h <;> rw [h] <;> rfl
  have hagainst : ¬ (e.query blocked width height).Inside (e.arrive.ahead e.goal) := by
    rintro ⟨-, -, hfree⟩
    rw [ahead_goal] at hfree
    exact absurd (hborder.symm.trans hfree) (by decide)
  obtain ⟨front, p, hpath, hchain, hside⟩ : ∃ front p,
      path = front ++ [p, e.goal] ++ [e.arrive.behind e.goal, e.goal] ∧
        ((along (front ++ [p, e.goal])).IsChain fun m n => n ≠ m.reverse) ∧
        (Step.between p e.goal).dy = 0 :=
    hback.exists_front h hne hvertical (mem_moves harrive) (e.ahead_goal ▸ hstart) hagainst
  have hmove : Step.between p e.goal ∈ moves := by
    have hunit := (PathQuery.valid_of_find? h).unit
    rw [hpath] at hunit
    exact List.isChain_pair.1 hunit.left_of_append.right_of_append
  have hcolumn : p.x ≠ e.goal.x := by
    intro heq
    rw [mem_moves_iff] at hmove
    simp only [Step.between] at hmove hside
    omega
  obtain ⟨points, hpoints, haligned, hhead, hlast, hfirst, hfinal⟩ :=
    merged_upTo hleave hmove (way_of_find? h (hpath ▸ List.prefix_append _ _) hchain) arrow
  rw [hpath, mergeStraight_turnsBack harrive hcolumn, hpoints]
  cases harrow : arrow.atEnd with
  | true =>
      obtain ⟨hnormal, hruns⟩ := runs_of_repeated haligned hhead hlast hfirst hfinal harrow
      refine ⟨points, _, hnormal, hruns, iff_of_false (fun heq => ?_) (by decide)⟩
      have hdx := congrArg Heading.dx heq
      simp only [heading, hvertical, Step.between] at hdx
      omega
  | false =>
      obtain ⟨hnormal, hruns⟩ := runs_of_border harrive haligned hhead hlast hfirst harrow
      exact ⟨_, _, hnormal, hruns, iff_of_true rfl rfl⟩

end Found

end Ends

/-! ## Boxes that share no cell -/

theorem Box.centre_bounds_of_wide {b : Box} (h : 3 ≤ b.width) :
    b.x ≤ b.centre ∧ b.centre < b.x + b.width := by
  rw [Box.centre, Int.fdiv_eq_ediv_of_nonneg _ (by decide)]
  omega

namespace Scattered

variable {boxes : List Box} {source target : Box}

theorem height_eq (h : Scattered boxes) {b : Box} (hb : b ∈ boxes) : b.height = 3 := h.high b hb

/-- The column at which edges are attached belongs to a box in all of its rows. -/
theorem contains_centre (h : Scattered boxes) {b : Box} (hb : b ∈ boxes) {y : Int}
    (hy : b.y ≤ y ∧ y ≤ b.bottom) : b.contains ⟨b.centre, y⟩ = true := by
  have hcentre := Box.centre_bounds_of_wide (h.wide b hb)
  rw [Box.contains_iff]
  simp only [Box.bottom] at hy
  dsimp only
  omega

theorem occupied_centre (h : Scattered boxes) {b : Box} (hb : b ∈ boxes) {y : Int}
    (hy : b.y ≤ y ∧ y ≤ b.bottom) : occupied boxes ⟨b.centre, y⟩ = true :=
  InLayers.occupied_of_contains hb (h.contains_centre hb hy)

theorem occupied_arriving (h : Scattered boxes) (ht : target ∈ boxes) :
    occupied boxes (Ends.between source target).arriving = true := by
  have hheight := h.height_eq ht
  apply h.occupied_centre ht
  simp only [Box.bottom]
  split <;> omega

/-- An edge does not start in the border of its target, unless its goal lies in a box. -/
theorem start_ne_arriving (h : Scattered boxes) (hs : source ∈ boxes) (ht : target ∈ boxes)
    (hgoal : occupied boxes (Ends.between source target).goal = false) :
    (Ends.between source target).start ≠ (Ends.between source target).arriving := by
  intro heq
  have hsh := h.height_eq hs
  have hth := h.height_eq ht
  have hx := congrArg Cell.x heq
  have hy := congrArg Cell.y heq
  have hfree {y : Int} (hrow : source.y ≤ y ∧ y ≤ source.bottom) :
      (Ends.between source target).goal ≠ ⟨source.centre, y⟩ := by
    intro h'
    rw [h', h.occupied_centre hs hrow] at hgoal
    cases hgoal
  by_cases hup : target.y < source.y
  · -- the goal lies in the upper border of the source
    have hbelow : ¬ source.y + source.height ≤ target.y := by omega
    simp only [Ends.between, Ends.start, Ends.goal, ahead, behind, hup, hbelow, decide_true,
      decide_false, if_true, Bool.false_eq_true, if_false, Step.up, Box.bottom] at hx hy hfree
    apply hfree (y := source.y) (by omega)
    rw [Cell.mk.injEq]
    omega
  by_cases hbelow : source.y + source.height ≤ target.y
  · -- the goal lies in the lower border of the source
    simp only [Ends.between, Ends.start, Ends.goal, ahead, behind, hup, hbelow, decide_true,
      decide_false, if_true, Bool.false_eq_true, if_false, Step.down, Box.bottom] at hx hy hfree
    apply hfree (y := source.y + source.height - 1) (by omega)
    rw [Cell.mk.injEq]
    omega
  · -- the boxes lie in one column a row apart, and share the cells in between
    simp only [Ends.between, Ends.start, ahead, hup, hbelow, decide_false, Bool.false_eq_true,
      if_false, Step.down, Step.up, Box.bottom] at hx hy
    have hne : source ≠ target := by
      rintro rfl
      omega
    apply h.apart.forall hs ht hne ⟨source.centre, target.y⟩
    constructor
    · apply h.contains_centre hs
      simp only [Box.bottom]
      omega
    · rw [show source.centre = target.centre by omega]
      apply h.contains_centre ht
      simp only [Box.bottom]
      omega

end Scattered

/-! ## A pocket in front of the target -/

/-- A target above a source, with two boxes in between that leave only a dead end below it. -/
def alcove : List Box :=
  [⟨['s'], ['s'], 4, 7, 11, 3⟩, ⟨['t'], ['t'], 4, 0, 3, 3⟩, ⟨['l'], ['l'], 2, 4, 3, 3⟩,
    ⟨['r'], ['r'], 6, 4, 3, 3⟩]

theorem scattered_alcove : Scattered alcove where
  high := by decide
  wide := by decide
  origin := by decide
  apart := List.Pairwise.imp Box.disjoint_of_beside (by decide)

/-- The path from the source to the target of the alcove. -/
def alcoveQuery : PathQuery :=
  (Ends.between alcove[0] alcove[1]).query (occupied alcove) (boxesWidth alcove)
    (boxesHeight alcove)

theorem pocket_alcove : alcoveQuery.Pocket fun c => c.x = 5 ∧ 4 ≤ c.y ∧ c.y ≤ 6 where
  arrive := by decide
  threshold := by decide
  start := by decide
  goal := by decide
  entered := by
    rintro ⟨x, y⟩ ⟨dx, dy⟩ hc hout hm hin
    have hgoal : alcoveQuery.goal = ⟨5, 3⟩ := by decide
    have hthreshold : PathQuery.threshold alcoveQuery = ⟨5, 4⟩ := by decide
    have hfree : (∀ b ∈ alcove, ¬ b.contains ⟨x, y⟩ = true) ∨ (x = 9 ∧ y = 6) := by
      rcases hc with hc | hc
      · exact Or.inl (List.any_eq_false.1 hc.2.2)
      · exact Or.inr ((Cell.mk.injEq ..).mp hc)
    -- the cells beside and below the pocket belong to boxes
    rw [hgoal, hthreshold]
    rw [mem_moves_iff] at hm
    simp only [alcove, List.forall_mem_cons, Box.contains_iff] at hfree
    simp only [ahead, Cell.mk.injEq] at hout hm hin ⊢
    omega

theorem exists_find?_alcove : ∃ path, alcoveQuery.find? = some path := by
  have hpath : alcoveQuery.isPath [⟨9, 6⟩, ⟨9, 5⟩, ⟨9, 4⟩, ⟨9, 3⟩, ⟨8, 3⟩, ⟨7, 3⟩, ⟨6, 3⟩, ⟨5, 3⟩,
      ⟨5, 4⟩, ⟨5, 3⟩] = true := by decide
  exact PathQuery.exists_find?_of_valid (PathQuery.valid_of_isPath hpath (by decide))

/-! ## Edges along found paths -/

theorem route_of_find? {source target : Box} {blocked : Cell → Bool} {width height : Int}
    {path : List Cell} (arrow : Arrow)
    (h : ((Ends.between source target).query blocked width height).find? = some path) :
    (route source target arrow blocked width height).1 =
      mergeStraight ((Ends.between source target).complete arrow path) := by
  simp only [route, h]

/-- Where a path is found, the edge leaves its source head on.  It meets its target head on just if
the path does not turn back at a goal that carries a head; the heads follow these directions. -/
theorem route_headOn {boxes : List Box} (h : Scattered boxes) {source target : Box}
    (hs : source ∈ boxes) (ht : target ∈ boxes) (arrow : Arrow) {path : List Cell}
    (hfind : ((Ends.between source target).query (occupied boxes) (boxesWidth boxes)
      (boxesHeight boxes)).find? = some path)
    (hne : (Ends.between source target).start ≠ (Ends.between source target).goal) :
    let e := Ends.between source target
    ∃ points last, normalize (rawPoints (route source target arrow (occupied boxes)
        (boxesWidth boxes) (boxesHeight boxes)).1) = .ok points ∧
      e.Runs arrow e.leave.heading last points ∧
      (last = e.arrive.heading ↔ ¬ (arrow.atEnd = true ∧
        (e.query (occupied boxes) (boxesWidth boxes) (boxesHeight boxes)).TurnsBack path)) := by
  intro e
  obtain ⟨hleave, harrive⟩ := Ends.vertical_between source target
  rw [route_of_find? arrow hfind]
  by_cases hback : (e.query (occupied boxes) (boxesWidth boxes) (boxesHeight boxes)).TurnsBack path
  · have hgoal : occupied boxes e.goal = false :=
      (PathQuery.inside_goal_of_find? hfind hne).2.2
    obtain ⟨points, last, hnormal, hruns, hlast⟩ := Ends.runs_of_turnsBack hleave harrive hfind hne
      hback (h.start_ne_arriving hs ht hgoal) (h.occupied_arriving ht) arrow
    refine ⟨points, last, hnormal, hruns, hlast.trans ?_⟩
    simp [hback]
  · obtain ⟨hnormal, hruns⟩ := Ends.runs_of_not_turnsBack hleave harrive hfind hne hback arrow
    exact ⟨_, _, hnormal, hruns, iff_of_true rfl fun hboth => hback hboth.2⟩

/-- Out of the alcove the path that is found turns back, so the head comes to its goal from the
side. -/
theorem route_alcove_sideways :
    let e := Ends.between alcove[0] alcove[1]
    ∃ path, alcoveQuery.find? = some path ∧ alcoveQuery.TurnsBack path ∧
      ∃ points last, normalize (rawPoints (route alcove[0] alcove[1] .forward (occupied alcove)
          (boxesWidth alcove) (boxesHeight alcove)).1) = .ok points ∧
        e.Runs .forward e.leave.heading last points ∧ last ≠ e.arrive.heading := by
  intro e
  obtain ⟨path, hpath⟩ := exists_find?_alcove
  have hback : alcoveQuery.TurnsBack path := pocket_alcove.turnsBack (by decide) hpath
  obtain ⟨points, last, hnormal, hruns, hlast⟩ :=
    route_headOn scattered_alcove (by decide) (by decide) .forward hpath (by decide)
  exact ⟨path, hpath, hback, points, last, hnormal, hruns, fun heq => hlast.1 heq ⟨rfl, hback⟩⟩

/-- So the way of an edge does not always meet its target head on. -/
theorem not_forall_route_headOn : ¬ ∀ boxes, Scattered boxes → ∀ source ∈ boxes,
    ∀ target ∈ boxes, ∀ arrow path,
      ((Ends.between source target).query (occupied boxes) (boxesWidth boxes)
        (boxesHeight boxes)).find? = some path →
      (Ends.between source target).start ≠ (Ends.between source target).goal →
      ∃ points, normalize (rawPoints (route source target arrow (occupied boxes)
          (boxesWidth boxes) (boxesHeight boxes)).1) = .ok points ∧
        (headings points).head? = some (Ends.between source target).leave.heading ∧
        (headings points).getLast? = some (Ends.between source target).arrive.heading := by
  intro h
  obtain ⟨path, hpath⟩ := exists_find?_alcove
  have hback : alcoveQuery.TurnsBack path := pocket_alcove.turnsBack (by decide) hpath
  obtain ⟨points, hpoints, -, henters⟩ :=
    h alcove scattered_alcove alcove[0] (by decide) alcove[1] (by decide) .forward path hpath
      (by decide)
  obtain ⟨hleave, harrive⟩ := Ends.vertical_between alcove[0] alcove[1]
  obtain ⟨points', last, hpoints', hruns, hlast⟩ := Ends.runs_of_turnsBack hleave harrive hpath
    (by decide) hback (by decide) (by decide) .forward
  rw [route_of_find? .forward hpath, hpoints'] at hpoints
  cases hpoints
  have heq : last = (Ends.between alcove[0] alcove[1]).arrive.heading :=
    Option.some.inj (hruns.enters.symm.trans henters)
  exact absurd (hlast.1 heq) (by decide)

end Flow
end CellSketch
