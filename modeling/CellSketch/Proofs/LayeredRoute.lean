import CellSketch.Drawing
import CellSketch.Proofs.Path.Corridor
import CellSketch.Proofs.Polyline

/-!
# LayeredRoute — edges between boxes in layers

Boxes of one height whose tops lie in rows a layer apart leave three free rows below each layer and
a free column to the right.  An edge between two layers therefore always finds its way:

* `InLayers.corridor` — what the way of an edge meets there is a corridor;
* `route_between_layers` — the edge is routed without cutting across, and its way is clean.
-/

namespace CellSketch
namespace Flow

open Connection Step

/-! ## Smooth chains of unit moves -/

namespace Step

/-- A unit move as a heading. -/
def heading (s : Step) : Heading := ⟨s.dx, s.dy⟩

theorem heading_between {a b : Cell} (h : between a b ∈ moves) :
    Heading.between a b = (between a b).heading ∧ Aligned a b := by
  rw [mem_moves_iff] at h
  simp only [between] at h
  have haligned : Aligned a b := by
    unfold Aligned
    omega
  refine ⟨?_, haligned⟩
  rcases h with ⟨hx, hy | hy⟩ | ⟨hy, hx | hx⟩ <;>
    simp [Heading.between, heading, between, hx, hy]

end Step

/-- Unit moves of which none reverses the one before it. -/
structure Smooth (cells : List Cell) : Prop where
  unit : cells.IsChain fun a b => between a b ∈ moves
  forward : (along cells).IsChain fun m n => n ≠ m.reverse

theorem headings_eq_of_unit {cells : List Cell}
    (h : cells.IsChain fun a b => between a b ∈ moves) :
    headings cells = (along cells).map heading := by
  induction cells with
  | nil => rfl
  | cons a rest ih =>
      cases rest with
      | nil => rfl
      | cons b rest =>
          obtain ⟨hab, hrest⟩ := List.isChain_cons_cons.1 h
          rw [headings_cons_cons, along_cons_cons, List.map_cons, (heading_between hab).1, ih hrest]

theorem Smooth.toForward {cells : List Cell} (h : Smooth cells) : Forward cells where
  aligned := h.unit.imp fun _ _ hab => (heading_between hab).2
  forward := by
    rw [headings_eq_of_unit h.unit, List.isChain_map]
    refine h.forward.imp fun m n hne heq => hne ?_
    cases m
    cases n
    simpa [heading, Heading.reverse, Step.reverse] using heq

/-- A chain of unit moves covers only its own cells. -/
theorem mem_of_covers {cells : List Cell} (h : cells.IsChain fun a b => between a b ∈ moves)
    {c : Cell} (hc : Covers cells c) : c ∈ cells := by
  induction cells with
  | nil => exact hc.elim
  | cons a rest ih =>
      cases rest with
      | nil => exact hc.elim
      | cons b rest =>
          obtain ⟨hab, hrest⟩ := List.isChain_cons_cons.1 h
          rcases hc with hc | hc
          · -- the piece between two neighbours has no cells but them
            have hends : c = a ∨ c = b := by
              obtain ⟨x, y⟩ := a
              obtain ⟨x', y'⟩ := b
              obtain ⟨x'', y''⟩ := c
              rw [mem_moves_iff] at hab
              simp only [between] at hab
              simp only [OnPiece] at hc
              simp only [Cell.mk.injEq]
              omega
            rcases hends with rfl | rfl <;> simp
          · exact List.mem_cons_of_mem a (ih hrest hc)

theorem Smooth.cons {a : Cell} {cells : List Cell} {m : Step} (h : Smooth cells) (hm : m ∈ moves)
    (hm' : m ≠ m.reverse) (hhead : cells.head? = some (m.ahead a))
    (hfirst : (along cells).head? = some m) :
    Smooth (a :: cells) ∧ along (a :: cells) = m :: along cells := by
  cases cells with
  | nil => simp at hhead
  | cons b rest =>
      rw [List.head?_cons, Option.some.injEq] at hhead
      subst hhead
      refine ⟨⟨List.isChain_cons_cons.2 ⟨by simpa using hm, h.unit⟩, ?_⟩, by simp⟩
      rw [along_cons_cons, between_ahead, List.isChain_cons]
      refine ⟨fun n hn => ?_, h.forward⟩
      have hnm : m = n := Option.some.inj (hfirst.symm.trans hn)
      exact hnm ▸ hm'

theorem Smooth.concat {a : Cell} {cells : List Cell} {m : Step} (h : Smooth cells)
    (hm : m ∈ moves) (hm' : m ≠ m.reverse) (hlast : cells.getLast? = some (m.behind a))
    (hfinal : (along cells).getLast? = some m) :
    Smooth (cells ++ [a]) ∧ along (cells ++ [a]) = along cells ++ [m] := by
  obtain ⟨l, rfl⟩ := List.getLast?_eq_some_iff.1 hlast
  have hmove : between (m.behind a) a = m := by
    cases m
    simp only [between, behind, mk.injEq]
    omega
  have halong : along (l ++ [m.behind a] ++ [a]) = along (l ++ [m.behind a]) ++ [m] := by
    rw [List.append_assoc, List.singleton_append, along_append_pair, hmove]
  refine ⟨⟨?_, ?_⟩, halong⟩
  · refine h.unit.append (by simp) ?_
    intro x hx y hy
    rw [hlast, Option.mem_some_iff] at hx
    rw [List.head?_singleton, Option.mem_some_iff] at hy
    subst hx hy
    rwa [hmove]
  · rw [halong]
    refine h.forward.append (by simp) ?_
    intro x hx y hy
    rw [hfinal, Option.mem_some_iff] at hx
    rw [List.head?_singleton, Option.mem_some_iff] at hy
    subst hx hy
    exact hm'

/-! ## Ways with their border cells -/

namespace Ends

/-- What is known of a way between two borders, from its moves. -/
structure Way (e : Ends) (first last : Cell) (cells : List Cell) : Prop where
  smooth : Smooth cells
  head : cells.head? = some first
  last : cells.getLast? = some last
  leaves : (along cells).head? = some e.leave
  enters : (along cells).getLast? = some e.arrive

/-- A path without reversals stays a way when the border cells are added. -/
theorem way_complete {e : Ends} {path : List Cell} (arrow : Arrow)
    (hleave : e.leave ∈ moves ∧ e.leave ≠ e.leave.reverse)
    (harrive : e.arrive ∈ moves ∧ e.arrive ≠ e.arrive.reverse)
    (h : e.Way e.start e.goal path) :
    e.Way (if arrow.atStart then e.start else e.leaving)
      (if arrow.atEnd then e.goal else e.arriving) (e.complete arrow path) := by
  -- first the border of the source in front
  have hfront : e.Way (if arrow.atStart then e.start else e.leaving) e.goal
      ((if arrow.atStart then [] else [e.leaving]) ++ path) := by
    cases arrow.atStart with
    | true => exact h
    | false =>
        obtain ⟨hsmooth, halong⟩ := h.smooth.cons hleave.1 hleave.2 h.head h.leaves
        refine ⟨hsmooth, rfl, ?_, ?_, ?_⟩
        · simp [List.getLast?_cons, h.last]
        · simp [halong]
        · simp [halong, List.getLast?_cons, h.enters]
  -- then the border of the target behind
  rw [complete]
  generalize (if arrow.atStart then [] else [e.leaving]) ++ path = cells at hfront ⊢
  cases arrow.atEnd with
  | true => simpa using hfront
  | false =>
      obtain ⟨hsmooth, halong⟩ :=
        hfront.smooth.concat harrive.1 harrive.2 hfront.last hfront.enters
      refine ⟨hsmooth, ?_, by simp, ?_, by simp [halong]⟩
      · simp [List.head?_append, hfront.head]
      · simp [halong, List.head?_append, hfront.leaves]

end Ends

/-! ## Boxes in layers -/

theorem Box.contains_iff {b : Box} {c : Cell} : b.contains c = true ↔
    (b.x ≤ c.x ∧ c.x < b.x + b.width) ∧ b.y ≤ c.y ∧ c.y < b.y + b.height := by
  simp only [Box.contains, Bool.and_eq_true, decide_eq_true_eq, and_assoc]

theorem le_extent {x : Int} {xs : List Int} (h : x ∈ xs) : x ≤ extent xs := by
  -- a bound of the fold is a bound of its first value and of all elements
  suffices hfold : ∀ (ys : List Int) (a : Int), a ≤ ys.foldl max a ∧
      ∀ y ∈ ys, y ≤ ys.foldl max a from (hfold xs 0).2 x h
  intro ys
  induction ys with
  | nil => simp
  | cons y ys ih =>
      intro a
      obtain ⟨ha, hys⟩ := ih (max a y)
      rw [List.foldl_cons]
      refine ⟨by omega, fun z hz => ?_⟩
      rcases List.mem_cons.1 hz with rfl | hz
      · omega
      · exact hys z hz

/-- Boxes of one height, at least a column wide and right of the left edge, with their tops in rows
that are a layer apart. -/
structure InLayers (boxes : List Box) : Prop where
  high : ∀ b ∈ boxes, b.height = boxHeight
  wide : ∀ b ∈ boxes, 1 ≤ b.width
  left : ∀ b ∈ boxes, 0 ≤ b.x
  layer : ∀ b ∈ boxes, ∃ k : Nat, b.y = k * (boxHeight + layerSpacing : Nat)

namespace InLayers

variable {boxes : List Box}

theorem layer_six (h : InLayers boxes) {b : Box} (hb : b ∈ boxes) :
    b.height = 3 ∧ ∃ k : Nat, b.y = 6 * k := by
  obtain ⟨k, hk⟩ := h.layer b hb
  refine ⟨h.high b hb, k, ?_⟩
  rw [hk, boxHeight, layerSpacing]
  push_cast
  ring

theorem right_le {b : Box} (hb : b ∈ boxes) : b.x + b.width ≤ boxesWidth boxes :=
  le_extent (List.mem_map_of_mem hb)

theorem bottom_le {b : Box} (hb : b ∈ boxes) : b.y + b.height ≤ boxesHeight boxes :=
  le_extent (List.mem_map_of_mem hb)

/-- The rows between two layers and the last column are free. -/
theorem occupied_eq_false (h : InLayers boxes) {c : Cell}
    (hc : 3 ≤ c.y % 6 ∨ boxesWidth boxes ≤ c.x) : occupied boxes c = false := by
  rw [occupied, List.any_eq_false]
  intro b hb hcontains
  obtain ⟨hheight, k, hk⟩ := h.layer_six hb
  have hright := right_le hb
  rw [Box.contains_iff] at hcontains
  omega

theorem occupied_of_contains {b : Box} (hb : b ∈ boxes) {c : Cell} (hc : b.contains c = true) :
    occupied boxes c = true :=
  List.any_eq_true.2 ⟨b, hb, hc⟩

end InLayers

/-! ## Borders that face each other -/

namespace Box

/-- The top and the bottom row of a box. -/
def OnBorder (b : Box) (c : Cell) : Prop := b.contains c = true ∧ (c.y = b.y ∨ c.y = b.bottom)

/-- The cell at which edges are attached, at the bottom of the box or, for a negative `d`, at its
top. -/
def port (b : Box) (d : Int) : Cell := ⟨b.centre, if d < 0 then b.y else b.bottom⟩

theorem onBorder_port {b : Box} (hheight : b.height = 3) (hwide : 1 ≤ b.width) (d : Int) :
    b.OnBorder (b.port d) := by
  have hcentre : b.x ≤ b.centre ∧ b.centre < b.x + b.width := by
    rw [centre, Int.fdiv_eq_ediv_of_nonneg _ (by decide)]
    omega
  rw [OnBorder, contains_iff]
  simp only [port, bottom]
  split <;> omega

end Box

/-- The vertical direction from one box to another. -/
def facing (source target : Box) : Step := if target.y < source.y then Step.up else Step.down

/-- The ends of an edge that leaves its source and enters its target in the direction `d`. -/
def Ends.vertical (source target : Box) (d : Int) : Ends where
  leaving := source.port d
  leave := ⟨0, d⟩
  arriving := target.port (-d)
  arrive := ⟨0, d⟩

theorem Ends.start_vertical (source target : Box) (d : Int) :
    (Ends.vertical source target d).start = ⟨source.centre, (source.port d).y + d⟩ := by
  simp [Ends.vertical, Ends.start, Step.ahead, Box.port]

theorem Ends.goal_vertical (source target : Box) (d : Int) :
    (Ends.vertical source target d).goal = ⟨target.centre, (target.port (-d)).y - d⟩ := by
  simp [Ends.vertical, Ends.goal, Step.behind, Box.port]

/-- The rows of two boxes of different layers, in the direction from the one to the other. -/
inductive Rows (d sourceRow targetRow : Int) : Prop where
  | downward (i j : Nat) (hd : d = 1) (hij : i < j) (hs : sourceRow = 6 * i + 2)
      (ht : targetRow = 6 * j)
  | upward (i j : Nat) (hd : d = -1) (hij : j < i) (hs : sourceRow = 6 * i)
      (ht : targetRow = 6 * j + 2)

namespace InLayers

variable {boxes : List Box}

/-- Two boxes of different layers face each other with the borders between their layers. -/
theorem exists_direction (h : InLayers boxes) {source target : Box} (hs : source ∈ boxes)
    (ht : target ∈ boxes) (hne : source.y ≠ target.y) :
    ∃ d : Int, Rows d (source.port d).y (target.port (-d)).y ∧ facing source target = ⟨0, d⟩ ∧
      Ends.between source target = Ends.vertical source target d := by
  obtain ⟨hsh, i, hi⟩ := h.layer_six hs
  obtain ⟨hth, j, hj⟩ := h.layer_six ht
  rcases Int.lt_or_gt_of_ne hne with hlt | hlt
  · have hbelow : source.y + source.height ≤ target.y := by omega
    refine ⟨1, Rows.downward i j rfl (by omega) ?_ ?_, ?_, ?_⟩
    · simp [Box.port, Box.bottom]
      omega
    · simp [Box.port, hj]
    · rw [facing, if_neg (by omega)]
      rfl
    · simp [Ends.between, Ends.vertical, Box.port, Int.not_lt.2 (Int.le_of_lt hlt), hbelow,
        Step.down]
  · have hbelow : ¬ source.y + source.height ≤ target.y := by omega
    refine ⟨-1, Rows.upward i j rfl (by omega) ?_ ?_, ?_, ?_⟩
    · simp [Box.port, hi]
    · simp [Box.port, Box.bottom]
      omega
    · rw [facing, if_pos (by omega)]
      rfl
    · simp [Ends.between, Ends.vertical, Box.port, hlt, hbelow, Step.up]

/-- What an edge between two layers meets is a corridor. -/
theorem corridor (h : InLayers boxes) {source target : Box} (hs : source ∈ boxes)
    (ht : target ∈ boxes) {d : Int} (hrows : Rows d (source.port d).y (target.port (-d)).y) :
    ((Ends.vertical source target d).query (occupied boxes) (boxesWidth boxes)
      (boxesHeight boxes)).Corridor d := by
  have hsport := (Box.onBorder_port (h.layer_six hs).1 (h.wide _ hs) d).1
  have htport := (Box.onBorder_port (h.layer_six ht).1 (h.wide _ ht) (-d)).1
  have hblocked := occupied_of_contains ht htport
  rw [Box.contains_iff] at hsport htport
  have hsx := h.left _ hs
  have htx := h.left _ ht
  have hsright := right_le hs
  have htright := right_le ht
  have hsbottom := bottom_le hs
  have htbottom := bottom_le ht
  have hfree (c : Cell) (hx : 0 ≤ c.x ∧ c.x ≤ boxesWidth boxes)
      (hy : 0 ≤ c.y ∧ c.y ≤ boxesHeight boxes) (hc : 3 ≤ c.y % 6 ∨ boxesWidth boxes ≤ c.x) :
      ((Ends.vertical source target d).query (occupied boxes) (boxesWidth boxes)
        (boxesHeight boxes)).Inside c := ⟨hx, hy, h.occupied_eq_false hc⟩
  -- only the rows of the two ports matter from here on
  have hstart := Ends.start_vertical source target d
  have hgoal := Ends.goal_vertical source target d
  have hsx' : (source.port d).x = source.centre := rfl
  have htx' : (target.port (-d)).x = target.centre := rfl
  have hborder : target.port (-d) = ⟨target.centre, (target.port (-d)).y⟩ := rfl
  rw [hborder] at hblocked
  rw [hsx'] at hsport
  rw [htx'] at htport
  generalize (source.port d).y = p at hrows hsport hstart
  generalize (target.port (-d)).y = r at hrows htport hgoal hblocked
  refine { unit := ?unit, leave := rfl, arrive := rfl, between := ?between, start := ?start,
           goal := ?goal, firstRow := ?firstRow, lastRow := ?lastRow, column := ?column,
           border := ?border }
  all_goals
    simp only [Ends.query, hstart, hgoal] at hfree ⊢
  case unit => cases hrows <;> omega
  case between => cases hrows <;> subst_vars <;> omega
  case start =>
    refine hfree _ ⟨?_, ?_⟩ ⟨?_, ?_⟩ (Or.inl ?_)
    all_goals cases hrows <;> subst_vars <;> dsimp only <;> omega
  case goal =>
    refine hfree _ ⟨?_, ?_⟩ ⟨?_, ?_⟩ (Or.inl ?_)
    all_goals cases hrows <;> subst_vars <;> dsimp only <;> omega
  case firstRow =>
    intro x hx hx'
    refine hfree _ ⟨hx, hx'⟩ ⟨?_, ?_⟩ (Or.inl ?_)
    all_goals cases hrows <;> subst_vars <;> dsimp only <;> omega
  case lastRow =>
    intro x hx hx'
    refine hfree _ ⟨hx, hx'⟩ ⟨?_, ?_⟩ (Or.inl ?_)
    all_goals cases hrows <;> subst_vars <;> dsimp only <;> omega
  case column =>
    intro y hy hy'
    refine hfree _ ⟨?_, Int.le_refl _⟩ ⟨?_, ?_⟩ (Or.inr (Int.le_refl _))
    all_goals cases hrows <;> subst_vars <;> dsimp only at hy hy' ⊢ <;> omega
  case border =>
    rintro ⟨-, -, hfree⟩
    rw [Int.sub_add_cancel] at hfree
    exact absurd (hblocked.symm.trans hfree) (by decide)

end InLayers

/-! ## Clean ways -/

/-- Points of aligned neighbours are their own normal form. -/
theorem normalize_rawPoints {points : List Cell} (h : points.IsChain Aligned) :
    Connection.normalize (rawPoints points) = .ok points := by
  have hcells : cells (rawPoints points) = .ok points := by
    clear h
    induction points with
    | nil => rfl
    | cons c rest ih =>
        have hcell : RawPoint.cell? (some [some (Number.Measure.whole c.x),
            some (Number.Measure.whole c.y)]) = .ok (some c) := rfl
        rw [rawPoints, List.map_cons, cells, hcell]
        rw [rawPoints] at ih
        rw [ih]
        rfl
  rw [Connection.normalize, hcells]
  exact congrArg Except.ok (chain_eq_self h)

/-- What is expected of the way of an edge between boxes. -/
structure CleanWay (boxes : List Box) (source target : Box) (arrow : Arrow)
    (points : List Cell) : Prop where
  aligned : points.IsChain Aligned
  forward : (headings points).IsChain fun h k => k ≠ h.reverse
  normal : Connection.normalize (rawPoints points) = .ok points
  within : ∀ c, Covers points c →
    (0 ≤ c.x ∧ c.x ≤ boxesWidth boxes) ∧ 0 ≤ c.y ∧ c.y ≤ boxesHeight boxes
  leaves : (headings points).head? = some (facing source target).heading
  enters : (headings points).getLast? = some (facing source target).heading
  /-- It starts on the border of the source, or next to it where it carries a head. -/
  starts : ∃ border, source.OnBorder border ∧ points.head? =
    some (if arrow.atStart then (facing source target).ahead border else border)
  /-- It ends on the border of the target, or next to it where it carries a head. -/
  ends : ∃ border, target.OnBorder border ∧ points.getLast? =
    some (if arrow.atEnd then (facing source target).behind border else border)
  /-- The only cells of boxes on it are those of its headless ends. -/
  clear : ∀ c, Covers points c → occupied boxes c = true →
    (arrow.atStart = false ∧ points.head? = some c) ∨
      (arrow.atEnd = false ∧ points.getLast? = some c)

theorem Ends.mem_complete {e : Ends} {arrow : Arrow} {path : List Cell} {c : Cell}
    (h : c ∈ e.complete arrow path) : c ∈ path ∨ (arrow.atStart = false ∧ c = e.leaving) ∨
      (arrow.atEnd = false ∧ c = e.arriving) := by
  obtain ⟨atStart, atEnd⟩ := arrow
  cases atStart <;> cases atEnd <;> simp [Ends.complete] at h ⊢ <;> tauto

/-- Merging keeps what is known of a way. -/
theorem Ends.Way.mergeStraight {e : Ends} {first last : Cell} {way : List Cell}
    (h : e.Way first last way) :
    Turning (mergeStraight way) ∧ (mergeStraight way).head? = some first ∧
      (mergeStraight way).getLast? = some last ∧
      (headings (mergeStraight way)).head? = some e.leave.heading ∧
      (headings (mergeStraight way)).getLast? = some e.arrive.heading ∧
      ∀ c, Covers (mergeStraight way) c → c ∈ way := by
  have hheadings := headings_eq_of_unit h.smooth.unit
  have hcovers := fun c => mem_of_covers h.smooth.unit (c := c)
  have hleaves := h.leaves
  rcases way with _ | ⟨a, _ | ⟨b, rest⟩⟩
  · simp [along] at hleaves
  · simp at hleaves
  · obtain ⟨hturning, hhead, hlast, hleave, harrive, hsub⟩ :=
      mergeStraight_spec h.smooth.toForward
    have hfirst := h.head
    rw [List.head?_cons, Option.some.injEq] at hfirst
    rw [along_cons_cons, List.head?_cons, Option.some.injEq] at hleaves
    refine ⟨hturning, ?_, ?_, ?_, ?_, fun c hc => hcovers c (hsub c hc)⟩
    · rw [hhead, hfirst]
    · rw [hlast, h.last]
    · rw [hleave, (heading_between (List.isChain_cons_cons.1 h.smooth.unit).1).1, hleaves]
    · rw [harrive, hheadings, List.getLast?_map, h.enters]
      rfl

/-- Merged, a way over the cells of a free path and the borders at its ends is clean. -/
theorem InLayers.cleanWay {boxes : List Box} (h : InLayers boxes) {source target : Box}
    (hs : source ∈ boxes) (ht : target ∈ boxes) (arrow : Arrow) {d : Int} (hd : d = 1 ∨ d = -1)
    (hfacing : facing source target = ⟨0, d⟩) {path : List Cell}
    (hway : (Ends.vertical source target d).Way (Ends.vertical source target d).start
      (Ends.vertical source target d).goal path)
    (hinside : ∀ c ∈ path, ((Ends.vertical source target d).query (occupied boxes)
      (boxesWidth boxes) (boxesHeight boxes)).Inside c) :
    CleanWay boxes source target arrow
      (mergeStraight ((Ends.vertical source target d).complete arrow path)) := by
  have hmove : (⟨0, d⟩ : Step) ∈ moves ∧ (⟨0, d⟩ : Step) ≠ (⟨0, d⟩ : Step).reverse := by
    rcases hd with rfl | rfl <;> decide
  have hcomplete := Ends.way_complete arrow (e := Ends.vertical source target d) hmove hmove hway
  obtain ⟨hturning, hhead, hlast, hleave, harrive, hcovers⟩ := hcomplete.mergeStraight
  have hsport := Box.onBorder_port (h.layer_six hs).1 (h.wide _ hs) d
  have htport := Box.onBorder_port (h.layer_six ht).1 (h.wide _ ht) (-d)
  have hbox {b : Box} (hb : b ∈ boxes) {c : Cell} (hc : b.contains c = true) :
      (0 ≤ c.x ∧ c.x ≤ boxesWidth boxes) ∧ 0 ≤ c.y ∧ c.y ≤ boxesHeight boxes := by
    rw [Box.contains_iff] at hc
    obtain ⟨-, k, hk⟩ := h.layer_six hb
    have hleft := h.left b hb
    have hright := right_le hb
    have hbottom := bottom_le hb
    omega
  refine { aligned := hturning.aligned, forward := hturning.forward.forward,
           normal := normalize_rawPoints hturning.aligned, within := ?within, leaves := ?leaves,
           enters := ?enters, starts := ⟨_, hsport, ?starts⟩, ends := ⟨_, htport, ?ends⟩,
           clear := ?clear }
  case within =>
    intro c hc
    rcases Ends.mem_complete (hcovers c hc) with hc | ⟨-, rfl⟩ | ⟨-, rfl⟩
    · exact ⟨(hinside c hc).1, (hinside c hc).2.1⟩
    · exact hbox hs hsport.1
    · exact hbox ht htport.1
  case leaves =>
    rw [hleave, hfacing]
    rfl
  case enters =>
    rw [harrive, hfacing]
    rfl
  case starts =>
    rw [hhead, hfacing]
    rfl
  case ends =>
    rw [hlast, hfacing]
    rfl
  case clear =>
    intro c hc hoccupied
    rcases Ends.mem_complete (hcovers c hc) with hc | ⟨hnone, rfl⟩ | ⟨hnone, rfl⟩
    · -- the cells of the path itself are free
      exact absurd ((hinside c hc).2.2.symm.trans hoccupied) (by decide)
    · refine Or.inl ⟨hnone, ?_⟩
      rw [hhead, hnone]
      rfl
    · refine Or.inr ⟨hnone, ?_⟩
      rw [hlast, hnone]
      rfl

/-- An edge between two layers is routed over free cells, and its way is clean. -/
theorem route_between_layers {boxes : List Box} (h : InLayers boxes) {source target : Box}
    (hs : source ∈ boxes) (ht : target ∈ boxes) (hne : source.y ≠ target.y) (arrow : Arrow) :
    ∃ path, ((Ends.between source target).query (occupied boxes) (boxesWidth boxes)
        (boxesHeight boxes)).find? = some path ∧
      ∃ points, route source target arrow (occupied boxes) (boxesWidth boxes)
          (boxesHeight boxes) = (points, []) ∧
        CleanWay boxes source target arrow points := by
  obtain ⟨d, hrows, hfacing, hends⟩ := h.exists_direction hs ht hne
  have hcorridor := h.corridor hs ht hrows
  obtain ⟨path, hfind, hvalid, hchain⟩ := hcorridor.exists_find?
  have hstart := hvalid.starts
  rcases path with _ | ⟨a, _ | ⟨b, rest⟩⟩
  · simp at hstart
  · -- a path of one cell would start at the goal
    have hgoal := hvalid.ends
    rw [List.head?_cons] at hstart
    rw [List.getLast?_singleton, hstart, Option.some.injEq] at hgoal
    exact absurd hgoal hcorridor.start_ne_goal
  rw [List.head?_cons, Option.some.injEq] at hstart
  have hway : (Ends.vertical source target d).Way (Ends.vertical source target d).start
      (Ends.vertical source target d).goal (a :: b :: rest) := by
    refine ⟨⟨hvalid.unit, hchain⟩, hvalid.starts, hvalid.ends, ?_, ?_⟩
    · rw [along_cons_cons, List.head?_cons]
      exact congrArg some ((List.isChain_cons_cons.1 hvalid.leaves).1 hstart)
    · have hsome : ((along (a :: b :: rest)).getLast?).isSome := by simp
      obtain ⟨m, hm⟩ := Option.isSome_iff_exists.1 hsome
      rw [hm, hvalid.arrives m hm]
      rfl
  have hinside : ∀ c ∈ a :: b :: rest, ((Ends.vertical source target d).query (occupied boxes)
      (boxesWidth boxes) (boxesHeight boxes)).Inside c := by
    intro c hc
    rcases List.mem_cons.1 hc with rfl | hc
    · exact hstart ▸ hcorridor.start
    · exact hvalid.inside c hc
  rw [hends]
  refine ⟨_, hfind, _, ?_, h.cleanWay hs ht arrow hcorridor.unit hfacing hway hinside⟩
  simp only [route, hends, hfind]

/-- Three boxes below each other. -/
def tower : List Box :=
  [⟨['a'], ['a'], 0, 0, 5, 3⟩, ⟨['b'], ['b'], 0, 6, 5, 3⟩, ⟨['c'], ['c'], 0, 12, 5, 3⟩]

theorem inLayers_tower : InLayers tower where
  high := by decide
  wide := by decide
  left := by decide
  layer b hb := by
    simp only [tower, List.mem_cons, List.not_mem_nil, or_false] at hb
    rcases hb with rfl | rfl | rfl
    · exact ⟨0, rfl⟩
    · exact ⟨1, rfl⟩
    · exact ⟨2, rfl⟩

/-- From the bottom of the tower to its top, around the box in the middle. -/
theorem route_up_the_tower :
    ∃ path, ((Ends.between tower[2] tower[0]).query (occupied tower) (boxesWidth tower)
        (boxesHeight tower)).find? = some path ∧
      ∃ points, route tower[2] tower[0] Arrow.forward (occupied tower) (boxesWidth tower)
          (boxesHeight tower) = (points, []) ∧
        CleanWay tower tower[2] tower[0] Arrow.forward points :=
  route_between_layers inLayers_tower (by decide) (by decide) (by decide) Arrow.forward

end Flow
end CellSketch
