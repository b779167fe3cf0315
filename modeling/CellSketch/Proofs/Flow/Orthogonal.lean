import Mathlib.Data.List.Destutter
import CellSketch.Proofs.Connection.Planned
import CellSketch.Proofs.Flow.Extents

/-!
# Orthogonal — which edges keep to columns and rows

The way of an edge is merged from a list of cells, each in line with the next one.  Merging keeps
it so where the cells are all different, also where a path turns back.  The way across may hold its
goal twice, though, and then both copies count as points of a straight run.

* `isChain_mergeStraight` — merging keeps neighbours in line, if no two of them were equal;
* `isChain_complete` — the cells of a path that is found differ from their neighbours;
* `CutShort` — when the way across loses its goal;
* `route_orthogonal` — just then the points of an edge are not in line, and normalization splices
  one in.
-/

namespace CellSketch
namespace Flow

open Connection Step

/-! ## Points in line -/

/-- Two points of one column or of one row, which may be the same. -/
def InLine (a b : Cell) : Prop := a.x = b.x ∨ a.y = b.y

instance (a b : Cell) : Decidable (InLine a b) :=
  inferInstanceAs (Decidable (a.x = b.x ∨ a.y = b.y))

/-- The loop of the merge: the last point that was kept lies on the line on which `c` is reached. -/
theorem isChain_mergeStraight_go {kept previous c : Cell} {rest : List Cell}
    (h : (previous :: c :: rest).IsChain Aligned) (hx : previous.x = c.x → kept.x = c.x)
    (hy : previous.y = c.y → kept.y = c.y) :
    (kept :: mergeStraight.go previous (c :: rest)).IsChain InLine := by
  induction rest generalizing kept previous c with
  | nil =>
      obtain ⟨hpc, -⟩ := List.isChain_cons_cons.1 h
      rw [mergeStraight.go, List.isChain_cons_cons]
      refine ⟨?_, List.isChain_singleton c⟩
      unfold Aligned at hpc
      unfold InLine
      omega
  | cons next rest ih =>
      obtain ⟨hpc, hrest⟩ := List.isChain_cons_cons.1 h
      obtain ⟨hcn, -⟩ := List.isChain_cons_cons.1 hrest
      unfold Aligned at hpc hcn
      rw [mergeStraight.go]
      split
      · -- `c` is skipped, and `next` lies on the same line
        apply ih hrest <;> omega
      · rw [List.isChain_cons_cons]
        refine ⟨?_, ih hrest id id⟩
        unfold InLine
        omega

/-- Merging keeps neighbours in line, also where the points turn back. -/
theorem isChain_mergeStraight {points : List Cell} (h : points.IsChain Aligned) :
    (mergeStraight points).IsChain InLine := by
  match points, h with
  | [], _ => exact List.isChain_nil
  | [a], _ => exact List.isChain_singleton a
  | a :: b :: rest, h => exact isChain_mergeStraight_go h id id

/-! ## Normalization of points in line -/

theorem chainFrom_of_inLine {last : Cell} {points : List Cell}
    (h : (last :: points).IsChain InLine) :
    last :: chainFrom last points = points.destutter' (· ≠ ·) last := by
  induction points generalizing last with
  | nil => rfl
  | cons c rest ih =>
      obtain ⟨hc, hrest⟩ := List.isChain_cons_cons.1 h
      rw [chainFrom]
      by_cases heq : last = c
      · subst heq
        rw [if_pos rfl, List.destutter'_cons_neg rest (not_not.2 rfl)]
        exact ih hrest
      · unfold InLine at hc
        rw [if_neg heq, if_neg (by omega), List.destutter'_cons_pos rest heq, ih hrest]

/-- Where neighbours are in line, normalization only drops repeated points. -/
theorem normalize_of_inLine {points : List Cell} (h : points.IsChain InLine) :
    normalize (rawPoints points) = .ok (points.destutter (· ≠ ·)) := by
  refine (normalize_pointsThrough Halves.doubles points).trans (congrArg Except.ok ?_)
  cases points with
  | nil => rfl
  | cons c rest => exact chainFrom_of_inLine h

/-! ## Paths with their borders -/

namespace Ends

variable {e : Ends}

theorem vertical_between (source target : Box) :
    ((between source target).leave = Step.up ∨ (between source target).leave = Step.down) ∧
      ((between source target).arrive = Step.up ∨ (between source target).arrive = Step.down) := by
  constructor
  · rw [between]
    dsimp only
    split
    · exact Or.inl rfl
    · exact Or.inr rfl
  · rw [between]
    dsimp only
    split
    · exact Or.inr rfl
    · exact Or.inl rfl

/-- The cells of a path that is found, and of the borders next to it, differ from their
neighbours. -/
theorem isChain_complete (hleave : e.leave = Step.up ∨ e.leave = Step.down)
    (harrive : e.arrive = Step.up ∨ e.arrive = Step.down) {blocked : Cell → Bool}
    {width height : Int} {path : List Cell} (h : (e.query blocked width height).find? = some path)
    (arrow : Arrow) : (e.complete arrow path).IsChain Aligned := by
  have hvalid := PathQuery.valid_of_find? h
  have hpath : path.IsChain Aligned := hvalid.unit.imp fun _ _ hab => (heading_between hab).2
  have hstart : Aligned e.leaving e.start := by
    unfold Aligned
    rcases hleave with h | h <;> simp [start, h, ahead, Step.up, Step.down]
  have hgoal : Aligned e.goal e.arriving := by
    unfold Aligned
    rcases harrive with h | h <;> simp [goal, h, behind, Step.up, Step.down]
  have hhead : path.head? = some e.start := hvalid.starts
  have hlast : path.getLast? = some e.goal := hvalid.ends
  -- a border cell is joined at either end
  have hfront : ((if arrow.atStart then [] else [e.leaving]) ++ path).IsChain Aligned := by
    split
    · exact hpath
    · rw [List.singleton_append, List.isChain_cons, hhead]
      exact ⟨fun c hc => Option.some.inj hc ▸ hstart, hpath⟩
  have hback : ((if arrow.atStart then [] else [e.leaving]) ++ path).getLast? = some e.goal := by
    rw [List.getLast?_append, hlast, Option.some_or]
  rw [complete]
  generalize (if arrow.atStart then [] else [e.leaving]) ++ path = front at hfront hback ⊢
  split
  · rwa [List.append_nil]
  · rw [List.isChain_append]
    refine ⟨hfront, List.isChain_singleton _, ?_⟩
    intro c hc d hd
    rw [hback, Option.mem_some_iff] at hc
    rw [List.head?_singleton, Option.mem_some_iff] at hd
    rwa [← hc, ← hd]

/-- The cells around both ends: a border and the cell outside it lie in one column. -/
theorem border_ne (hleave : e.leave = Step.up ∨ e.leave = Step.down)
    (harrive : e.arrive = Step.up ∨ e.arrive = Step.down) :
    (e.leaving.x = e.start.x ∧ e.leaving.y ≠ e.start.y) ∧
      e.arriving.x = e.goal.x ∧ e.arriving.y ≠ e.goal.y := by
  constructor
  · rcases hleave with h | h <;> simp [start, h, ahead, Step.up, Step.down]
  · rcases harrive with h | h <;> simp only [goal, h, behind, Step.up, Step.down] <;> omega

/-- Along a row the way across holds its goal twice, and the cell after it is on a line with both
copies. -/
theorem mergeStraight_across (hleave : e.leave = Step.up ∨ e.leave = Step.down)
    (harrive : e.arrive = Step.up ∨ e.arrive = Step.down) (hlevel : e.start.y = e.goal.y)
    (hapart : e.start.x ≠ e.goal.x) (arrow : Arrow) :
    mergeStraight (e.complete arrow e.across) =
      (if arrow.atStart then [] else [e.leaving]) ++
        [e.start, if arrow.atEnd then e.goal else e.arriving] := by
  obtain ⟨⟨hx, hy⟩, hx', hy'⟩ := border_ne hleave harrive
  have hcorner : (⟨e.goal.x, e.start.y⟩ : Cell) = e.goal := by rw [hlevel]
  -- the start is a corner after the border of the source, and neither copy of the goal is one
  have hrow : e.leaving.y ≠ e.goal.y := hlevel ▸ hy
  rw [complete, across, hcorner]
  cases arrow.atStart <;> cases arrow.atEnd <;>
    simp [mergeStraight, mergeStraight.go, hlevel, hx, hx', hapart, hrow]

/-- The way across stays in line in all other cases. -/
theorem isChain_mergeStraight_across (hleave : e.leave = Step.up ∨ e.leave = Step.down)
    (harrive : e.arrive = Step.up ∨ e.arrive = Step.down) {arrow : Arrow}
    (h : arrow.atEnd = true ∨ e.start.y ≠ e.goal.y ∨ e.start.x = e.goal.x) :
    (mergeStraight (e.complete arrow e.across)).IsChain InLine := by
  obtain ⟨⟨hx, hy⟩, hx', hy'⟩ := border_ne hleave harrive
  by_cases hcolumn : e.start.x = e.goal.x
  · -- all points lie in one column
    have hall : ∀ c ∈ e.complete arrow e.across, c.x = e.goal.x := by
      intro c hc
      rcases mem_complete hc with hc | ⟨-, rfl⟩ | ⟨-, rfl⟩
      · simp only [across, List.mem_cons, List.not_mem_nil, or_false] at hc
        rcases hc with rfl | rfl | rfl
        · exact hcolumn
        · rfl
        · rfl
      · exact hx.trans hcolumn
      · exact hx'
    refine List.Pairwise.isChain (List.pairwise_of_forall_mem_list ?_)
    intro a ha b hb
    have hsame := hall a (mergeStraight_subset _ ha)
    exact Or.inl (hsame.trans (hall b (mergeStraight_subset _ hb)).symm)
  by_cases hlevel : e.start.y = e.goal.y
  · -- along a row, with a head at the end
    have hend : arrow.atEnd = true := by
      rcases h with h | h | h
      · exact h
      · exact absurd hlevel h
      · exact absurd h hcolumn
    rw [mergeStraight_across hleave harrive hlevel hcolumn, hend]
    cases arrow.atStart <;> simp [InLine, hx, hlevel]
  · -- around a corner, where all points differ from their neighbours
    apply isChain_mergeStraight
    rw [complete, across]
    cases arrow.atStart <;> cases arrow.atEnd <;> simp [Aligned] <;> omega

end Ends

/-! ## Routes -/

/-- The way across loses its goal: there is no free path, it runs along a row, and it goes on to the
border of the target. -/
structure CutShort (source target : Box) (arrow : Arrow) (blocked : Cell → Bool)
    (width height : Int) : Prop where
  blocked : ∀ path, ¬ ((Ends.between source target).query blocked width height).Valid path
  headless : arrow.atEnd = false
  level : (Ends.between source target).start.y = (Ends.between source target).goal.y
  apart : (Ends.between source target).start.x ≠ (Ends.between source target).goal.x

section Route

variable (source target : Box) (arrow : Arrow) (blocked : Cell → Bool) (width height : Int)

theorem route_of_cutShort (h : CutShort source target arrow blocked width height) :
    (route source target arrow blocked width height).1 =
      (if arrow.atStart then [] else [(Ends.between source target).leaving]) ++
        [(Ends.between source target).start, (Ends.between source target).arriving] := by
  obtain ⟨hleave, harrive⟩ := Ends.vertical_between source target
  have hacross := Ends.mergeStraight_across hleave harrive h.level h.apart arrow
  have hnone := (PathQuery.find?_cheapest _).2.1.2 h.blocked
  rw [h.headless] at hacross
  simp only [route, hnone]
  exact hacross

/-- Then its last piece leads from one row and column to another ones. -/
theorem not_inLine_of_cutShort (h : CutShort source target arrow blocked width height) :
    ¬ InLine (Ends.between source target).start (Ends.between source target).arriving := by
  obtain ⟨hleave, harrive⟩ := Ends.vertical_between source target
  obtain ⟨-, hx, hy⟩ := Ends.border_ne hleave harrive
  rintro (hcolumn | hrow)
  · exact h.apart (hcolumn.trans hx)
  · exact hy (hrow.symm.trans h.level)

theorem normalize_of_cutShort (h : CutShort source target arrow blocked width height) :
    let e := Ends.between source target
    normalize (rawPoints (route source target arrow blocked width height).1) =
      .ok ((if arrow.atStart then [] else [e.leaving]) ++
        [e.start, ⟨e.start.x, e.arriving.y⟩, e.arriving]) := by
  intro e
  obtain ⟨hleave, harrive⟩ := Ends.vertical_between source target
  obtain ⟨⟨hx, hy⟩, -⟩ := Ends.border_ne hleave harrive
  have hnot : ¬ InLine e.start e.arriving := not_inLine_of_cutShort _ _ _ _ _ _ h
  have hborder : e.leaving ≠ e.start := fun heq => hy (congrArg Cell.y heq)
  -- the jump at the end gets a corner, the step before it stays
  have hlast : chainFrom e.start [e.arriving] = [⟨e.start.x, e.arriving.y⟩, e.arriving] := by
    rw [chainFrom, if_neg (fun heq => hnot (Or.inl (congrArg Cell.x heq))),
      if_pos (not_or.1 hnot)]
    rfl
  refine (normalize_pointsThrough Halves.doubles _).trans (congrArg Except.ok ?_)
  rw [route_of_cutShort _ _ _ _ _ _ h]
  split
  · exact congrArg (e.start :: ·) hlast
  · rw [List.singleton_append, List.singleton_append, chain, chainFrom, if_neg hborder,
      if_neg (fun hboth => hboth.1 hx), hlast]

/-- In all other cases the points are in line. -/
theorem inLine_of_not_cutShort (h : ¬ CutShort source target arrow blocked width height) :
    (route source target arrow blocked width height).1.IsChain InLine := by
  obtain ⟨hleave, harrive⟩ := Ends.vertical_between source target
  cases hfind : ((Ends.between source target).query blocked width height).find? with
  | some path =>
      simp only [route, hfind]
      exact isChain_mergeStraight (Ends.isChain_complete hleave harrive hfind arrow)
  | none =>
      simp only [route, hfind]
      apply Ends.isChain_mergeStraight_across hleave harrive
      by_contra hnot
      simp only [not_or, Bool.not_eq_true, ne_eq, Decidable.not_not] at hnot
      exact h ⟨(PathQuery.find?_cheapest _).2.1.1 hfind, hnot.1, hnot.2.1, hnot.2.2⟩

end Route

/-! ## Boxes that share no cell -/

/-- Two boxes that share no cell. -/
def Box.Disjoint (a b : Box) : Prop := ∀ c, ¬ (a.contains c = true ∧ b.contains c = true)

instance : Std.Symm Box.Disjoint := ⟨fun _ _ h c hc => h c hc.symm⟩

/-- Boxes in different columns or rows share no cell. -/
theorem Box.disjoint_of_beside {a b : Box}
    (h : (a.x + a.width ≤ b.x ∨ b.x + b.width ≤ a.x) ∨
      a.y + a.height ≤ b.y ∨ b.y + b.height ≤ a.y) : a.Disjoint b := by
  rintro c ⟨ha, hb⟩
  rw [Box.contains_iff] at ha hb
  omega

/-- Boxes of the usual height, three columns wide or more, of which no two share a cell and none
lies to the left of or above the first cell. -/
structure Scattered (boxes : List Box) : Prop where
  high : ∀ b ∈ boxes, b.height = boxHeight
  wide : ∀ b ∈ boxes, 3 ≤ b.width
  origin : ∀ b ∈ boxes, 0 ≤ b.x ∧ 0 ≤ b.y
  apart : boxes.Pairwise Box.Disjoint

/-- Two boxes in the first rows. -/
def pair : List Box := [⟨['a'], ['a'], 0, 0, 3, 3⟩, ⟨['b'], ['b'], 5, 0, 3, 3⟩]

theorem scattered_pair : Scattered pair where
  high := by decide
  wide := by decide
  origin := by decide
  apart := List.Pairwise.imp Box.disjoint_of_beside (by decide)

/-- Between the two boxes there is no way below them, for the grid ends there. -/
theorem cutShort_pair : CutShort pair[0] pair[1] .headless (occupied pair) (boxesWidth pair)
    (boxesHeight pair) where
  blocked := (PathQuery.find?_cheapest _).2.1.1 (by cbv)
  headless := rfl
  level := rfl
  apart := by decide

/-! ## Edges in line -/

/-- The points of an edge are in line, and normalization splices in no point, unless the edge is
cut short.  Then its last piece runs across columns and rows. -/
theorem route_orthogonal (source target : Box) (arrow : Arrow) (blocked : Cell → Bool)
    (width height : Int) :
    let e := Ends.between source target
    let points := (route source target arrow blocked width height).1
    (points.IsChain InLine ↔ ¬ CutShort source target arrow blocked width height) ∧
      (points.IsChain InLine → normalize (rawPoints points) = .ok (points.destutter (· ≠ ·))) ∧
      (CutShort source target arrow blocked width height →
        points = (if arrow.atStart then [] else [e.leaving]) ++ [e.start, e.arriving] ∧
        normalize (rawPoints points) = .ok ((if arrow.atStart then [] else [e.leaving]) ++
          [e.start, ⟨e.start.x, e.arriving.y⟩, e.arriving])) := by
  intro e points
  have hcut (h : CutShort source target arrow blocked width height) :
      points = (if arrow.atStart then [] else [e.leaving]) ++ [e.start, e.arriving] :=
    route_of_cutShort _ _ _ _ _ _ h
  refine ⟨⟨?_, inLine_of_not_cutShort _ _ _ _ _ _⟩, normalize_of_inLine,
    fun h => ⟨hcut h, normalize_of_cutShort _ _ _ _ _ _ h⟩⟩
  intro hline h
  rw [hcut h, List.isChain_append] at hline
  exact not_inLine_of_cutShort _ _ _ _ _ _ h (List.isChain_cons_cons.1 hline.2.1).1

/-- Between the boxes of the pair the edge jumps from one row to another, and is drawn around a
corner that it does not have. -/
theorem route_pair_spliced :
    let points := (route pair[0] pair[1] .headless (occupied pair) (boxesWidth pair)
      (boxesHeight pair)).1
    points = [⟨1, 2⟩, ⟨1, 3⟩, ⟨6, 2⟩] ∧
      normalize (rawPoints points) = .ok [⟨1, 2⟩, ⟨1, 3⟩, ⟨1, 2⟩, ⟨6, 2⟩] :=
  (route_orthogonal pair[0] pair[1] .headless (occupied pair) (boxesWidth pair)
    (boxesHeight pair)).2.2 cutShort_pair

/-- So an edge between boxes that share no cell need not keep to columns and rows. -/
theorem not_forall_route_inLine : ¬ ∀ boxes, Scattered boxes → ∀ source ∈ boxes,
    ∀ target ∈ boxes, ∀ arrow, (route source target arrow (occupied boxes) (boxesWidth boxes)
      (boxesHeight boxes)).1.IsChain InLine := by
  intro h
  have hline := h pair scattered_pair pair[0] (by decide) pair[1] (by decide) .headless
  rw [route_of_cutShort _ _ _ _ _ _ cutShort_pair] at hline
  revert hline
  decide

end Flow
end CellSketch
