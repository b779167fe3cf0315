import Mathlib.Algebra.Polynomial.AlgebraMap
import CellSketch.Proofs.Canvas.Exact
import CellSketch.Proofs.Canvas.Faultless
import CellSketch.Proofs.Canvas.Inked
import CellSketch.Proofs.Canvas.Reach
import CellSketch.Proofs.Spline.Arms

/-!
# Bulge — how far a spline leaves the room that is measured for it

Room for a spline is reserved up to the farthest of its points, though its pieces may swing out of
the range of these points, to either side.  They stay within three quarters of their arms of their
ends, which lie in the centres of cells.  Nothing is therefore drawn outside of the measured room as
long as no two neighbouring points are more than one cell apart in a row or a column; else a spline
leaves it by at most half of what its longest step has more than a cell.

* `Shape.traced` — the points of a shape, those of a curve too;
* `Spline.aeval_bezier_between` — a piece stays within three quarters of its arms of its ends;
* `Primitive.inBulge_spline` — a spline stays in the room of its points up to its bulge;
* `drawn_spline_room` — which is the room measured for it.
-/

namespace CellSketch

open Number Polynomial

/-! ## Curves -/

namespace Shape

/-- The points of a shape, those of a curve too. -/
def traced : Shape Rat → Set (Point ℝ)
  | curve a b c d =>
      {q | ∃ t : ℝ, 0 ≤ t ∧ t ≤ 1 ∧ q = ⟨aeval t (Spline.bezier a.x b.x c.x d.x),
        aeval t (Spline.bezier a.y b.y c.y d.y)⟩}
  | s => s.points

/-- All points of a shape or a curve lie between two corners. -/
def TracedBetween (s : Shape Rat) (low high : Point Rat) : Prop :=
  ∀ q ∈ s.traced, ((low.x : ℝ) ≤ q.x ∧ q.x ≤ high.x) ∧ (low.y : ℝ) ≤ q.y ∧ q.y ≤ high.y

end Shape

namespace Spline

theorem aeval_bezier (a b c d : Rat) (t : ℝ) : aeval t (bezier a b c d) =
    a * (1 - t) ^ 3 + 3 * b * (t * (1 - t) ^ 2) + 3 * c * (t ^ 2 * (1 - t)) + d * t ^ 3 := by
  simp [bezier]

/-- A piece goes no farther out of the range of its ends than by three quarters of its arms. -/
theorem aeval_bezier_between {a b c d low high arm : Rat} {t : ℝ} (ha : low ≤ a ∧ a ≤ high)
    (hd : low ≤ d ∧ d ≤ high) (hb : |b - a| ≤ arm) (hc : |d - c| ≤ arm) (h₀ : 0 ≤ t)
    (h₁ : t ≤ 1) :
    ((low - 3 / 4 * arm : Rat) : ℝ) ≤ aeval t (bezier a b c d) ∧
      aeval t (bezier a b c d) ≤ ((high + 3 / 4 * arm : Rat) : ℝ) := by
  have hu : 0 ≤ 1 - t := by linarith
  -- without arms, a piece is on the way from one end to the other
  have hway : (low : ℝ) ≤ a + t ^ 2 * (3 - 2 * t) * (d - a) ∧
      a + t ^ 2 * (3 - 2 * t) * (d - a) ≤ (high : ℝ) := by
    refine Shape.onTheWay (by exact_mod_cast ha) (by exact_mod_cast hd) ?_ ?_
    · exact mul_nonneg (sq_nonneg t) (by linarith)
    · nlinarith [mul_nonneg (sq_nonneg (1 - t)) (by linarith : 0 ≤ 1 + 2 * t)]
  have hlean : |(1 - t) * (b - a) - t * (d - c)| ≤ (arm : ℝ) := by
    have hbehind : -(arm : ℝ) ≤ b - a ∧ (b - a : ℝ) ≤ arm := by exact_mod_cast abs_le.1 hb
    have hbefore : -(arm : ℝ) ≤ c - d ∧ (c - d : ℝ) ≤ arm := by
      rw [abs_sub_comm] at hc
      exact_mod_cast abs_le.1 hc
    have hbetween := Shape.onTheWay hbehind hbefore h₀ h₁
    rw [abs_le]
    constructor <;> linarith
  have hswing : |3 * (t * (1 - t)) * ((1 - t) * (b - a) - t * (d - c))| ≤ 3 / 4 * (arm : ℝ) := by
    have hpos : 0 ≤ 3 * (t * (1 - t)) := by positivity
    have hquarter : 3 * (t * (1 - t)) ≤ 3 / 4 := by nlinarith [sq_nonneg (t - 1 / 2)]
    rw [abs_mul, abs_of_nonneg hpos]
    exact mul_le_mul hquarter hlean (abs_nonneg _) (by norm_num)
  have hvalue : aeval t (bezier a b c d) = a + t ^ 2 * (3 - 2 * t) * (d - a) +
      3 * (t * (1 - t)) * ((1 - t) * (b - a) - t * (d - c)) := by
    rw [aeval_bezier]
    ring
  have hswing := abs_le.1 hswing
  rw [hvalue]
  push_cast
  constructor <;> linarith

/-- How far a spline may leave the room for its points, in cells: half of what its longest step has
more than a cell. -/
def bulge (numbers : List Int) : Rat := (stride numbers - 1) / 2

section Coordinate

variable {numbers : List Int} {side : Rat} {room : Int} (hside : 0 ≤ side)
include hside

/-- The centre of a cell lies half a cell inside of the room. -/
theorem centre_between {n : Int} (hn : 0 ≤ n ∧ n < room) :
    side / 2 ≤ n * side + side / 2 ∧ n * side + side / 2 ≤ room * side - side / 2 := by
  have hlow : 0 ≤ n * side := mul_nonneg (by exact_mod_cast hn.1) hside
  have hhigh : (n + 1 : Rat) * side ≤ room * side :=
    mul_le_mul_of_nonneg_right (by exact_mod_cast hn.2) hside
  constructor <;> linarith

/-- A bulge inward is one of half a cell at most. -/
theorem centre_between_bulge (numbers : List Int) {n : Int} (hn : 0 ≤ n ∧ n < room) :
    -bulge numbers * side ≤ n * side + side / 2 ∧
      n * side + side / 2 ≤ (room + bulge numbers) * side := by
  have hstride : (0 : Rat) ≤ stride numbers * side :=
    mul_nonneg (by exact_mod_cast stride_nonneg numbers) hside
  obtain ⟨hlow, hhigh⟩ := centre_between hside hn
  rw [bulge]
  constructor <;> linarith

/-- One coordinate of a piece of a spline through the centres of cells. -/
theorem piece_between (hnumbers : ∀ n ∈ numbers, 0 ≤ n ∧ n < room) {first second : List Rat}
    (h : NaturalAlong (numbers.map Int.cast) first second) {i : Nat} (hi : i + 1 < numbers.length)
    (hfirst : i < first.length) (hsecond : i < second.length) {t : ℝ} (h₀ : 0 ≤ t) (h₁ : t ≤ 1) :
    let value := aeval t (bezier (numbers[i] * side + side / 2) (first[i] * side + side / 2)
      (second[i] * side + side / 2) (numbers[i + 1] * side + side / 2))
    ((-bulge numbers * side : Rat) : ℝ) ≤ value ∧
      value ≤ (((room + bulge numbers) * side : Rat) : ℝ) := by
  have hsteps (k : Nat) (hk : k + 1 < (numbers.map (Int.cast : Int → Rat)).length) :
      |(numbers.map (Int.cast : Int → Rat))[k + 1] - (numbers.map Int.cast)[k]| ≤
        stride numbers := by
    rw [List.length_map] at hk
    simp only [List.getElem_map]
    exact_mod_cast abs_step_le_stride hk
  have harms := h.arms_le hsteps (by simpa using hi) hfirst hsecond
  simp only [List.getElem_map] at harms
  have hscale {x y : Rat} (hxy : |x - y| ≤ 2 / 3 * stride numbers) :
      |x * side + side / 2 - (y * side + side / 2)| ≤ 2 / 3 * stride numbers * side := by
    have hdifference : x * side + side / 2 - (y * side + side / 2) = (x - y) * side := by ring
    rw [hdifference, abs_mul, abs_of_nonneg hside]
    exact mul_le_mul_of_nonneg_right hxy hside
  have hbetween := aeval_bezier_between
    (centre_between hside (hnumbers _ (List.getElem_mem (Nat.lt_of_succ_lt hi))))
    (centre_between hside (hnumbers _ (List.getElem_mem hi)))
    (hscale harms.1) (hscale harms.2) h₀ h₁
  -- half of a cell and three quarters of the arms
  have hlow : side / 2 - 3 / 4 * (2 / 3 * stride numbers * side) = -bulge numbers * side := by
    rw [bulge]
    ring
  have hhigh : room * side - side / 2 + 3 / 4 * (2 / 3 * stride numbers * side) =
      (room + bulge numbers) * side := by
    rw [bulge]
    ring
  rwa [hlow, hhigh] at hbetween

end Coordinate

end Spline

/-! ## Splines -/

/-- A shape in the room of so many columns and rows, up to the bulge of a spline through points. -/
def Shape.InBulge (size : CellSize Rat) (points : List Cell) (columns rows : Int) (s : Shape Rat) :
    Prop :=
  s.TracedBetween
    ⟨-Spline.bulge (points.map (·.x)) * size.width, -Spline.bulge (points.map (·.y)) * size.height⟩
    ⟨(columns + Spline.bulge (points.map (·.x))) * size.width,
      (rows + Spline.bulge (points.map (·.y))) * size.height⟩

/-- Steps of one cell bulge inward, if at all. -/
theorem Shape.InBulge.tracedBetween {width height : Rat} (hwidth : 0 ≤ width) (hheight : 0 ≤ height)
    {points : List Cell} {columns rows : Int} {s : Shape Rat}
    (h : s.InBulge (.of width height) points columns rows)
    (hx : Spline.stride (points.map (·.x)) ≤ 1) (hy : Spline.stride (points.map (·.y)) ≤ 1) :
    s.TracedBetween ⟨0, 0⟩ ⟨columns * width, rows * height⟩ := by
  have hinward {numbers : List Int} {side : Rat} (hside : 0 ≤ side)
      (hstride : Spline.stride numbers ≤ 1) (room : Int) :
      ((0 : Rat) : ℝ) ≤ ((-Spline.bulge numbers * side : Rat) : ℝ) ∧
        (((room + Spline.bulge numbers) * side : Rat) : ℝ) ≤ ((room * side : Rat) : ℝ) := by
    have hle : (Spline.stride numbers : Rat) * side ≤ 1 * side :=
      mul_le_mul_of_nonneg_right (by exact_mod_cast hstride) hside
    rw [Rat.cast_le, Rat.cast_le, Spline.bulge]
    constructor <;> linarith
  intro q hq
  obtain ⟨⟨hleft, hright⟩, htop, hbottom⟩ := h q hq
  exact ⟨⟨(hinward hwidth hx columns).1.trans hleft, hright.trans (hinward hwidth hx columns).2⟩,
    (hinward hheight hy rows).1.trans htop, hbottom.trans (hinward hheight hy rows).2⟩

namespace Primitive

variable {width height : Rat}

/-- A piece has its ends and its control points at the same place of their lists. -/
theorem exists_of_mem_pieces {size : CellSize Rat} {points first second : List (Point Rat)}
    {s : Shape Rat} (h : s ∈ pieces size points first second) :
    ∃ i, ∃ (hi : i + 1 < points.length) (hfirst : i < first.length) (hsecond : i < second.length),
      s = .curve (size.centre points[i]) (size.centre first[i]) (size.centre second[i])
        (size.centre points[i + 1]) := by
  fun_induction pieces size points first second with
  | case1 a b points c first d second ih =>
      rcases List.mem_cons.1 h with rfl | h
      · exact ⟨0, by simp, by simp, by simp, rfl⟩
      · obtain ⟨i, hi, hfirst, hsecond, rfl⟩ := ih h
        exact ⟨i + 1, Nat.succ_lt_succ hi, Nat.succ_lt_succ hfirst, Nat.succ_lt_succ hsecond, rfl⟩
  | case2 => cases h

theorem length_pieces {size : CellSize Rat} {points first second : List (Point Rat)}
    (hfirst : first.length + 1 = points.length) (hsecond : second.length + 1 = points.length) :
    (pieces size points first second).length + 1 = points.length := by
  induction points generalizing first second with
  | nil => cases hfirst
  | cons a rest ih =>
      cases rest with
      | nil => rfl
      | cons b rest =>
          obtain ⟨c, first, rfl⟩ :=
            List.exists_cons_of_length_eq_add_one (Nat.succ.inj hfirst)
          obtain ⟨d, second, rfl⟩ :=
            List.exists_cons_of_length_eq_add_one (Nat.succ.inj hsecond)
          rw [pieces, List.length_cons, ih (Nat.succ.inj hfirst) (Nat.succ.inj hsecond)]
          rfl

theorem farthest_le_iff {a : Point Rat} {rest : List (Point Rat)} {m : Rat} :
    ((a.farthest rest).x ≤ m ↔ ∀ p ∈ a :: rest, p.x ≤ m) ∧
      ((a.farthest rest).y ≤ m ↔ ∀ p ∈ a :: rest, p.y ≤ m) := by
  induction rest generalizing a with
  | nil => simp [Point.farthest]
  | cons b rest ih =>
      have hstep : a.farthest (b :: rest) = (a.farthest [b]).farthest rest := rfl
      obtain ⟨hx, hy⟩ := ih (a := a.farthest [b])
      rw [hstep, hx, hy, Point.farthest_pair]
      simp only [List.forall_mem_cons, max_le_iff, and_assoc, and_self]

/-- A spline through two cells and more asks for room exactly as far as they reach. -/
theorem reserves_spline {points : List Cell} (htwo : 2 ≤ points.length) :
    Reserves (spline (points.map (position (α := Rat)))) points := by
  match points, htwo with
  | a :: b :: rest, _ =>
      let last : Point Rat := (position a).farthest ((b :: rest).map position)
      obtain ⟨p, hp, hreach⟩ : ∃ p, spline ((a :: b :: rest).map (position (α := Rat))) = [p] ∧
          p.reach = some last := by
        cases rest <;> exact ⟨_, rfl, rfl⟩
      rw [hp]
      refine ⟨[⟨last.x.ceil, last.y.ceil⟩], .cons ⟨last, hreach, rfl, rfl⟩ .nil, fun axis m => ?_⟩
      rw [List.forall_mem_singleton]
      cases axis <;> simp only [Axis.position]
      · rw [Rat.ceil_le_iff, farthest_le_iff.1, ← List.map_cons, List.forall_mem_map]
        simp only [position, whole_rat, Int.cast_le]
      · rw [Rat.ceil_le_iff, farthest_le_iff.2, ← List.map_cons, List.forall_mem_map]
        simp only [position, whole_rat, Int.cast_le]

/-- A spline has a shape for each two neighbours. -/
theorem length_shapes_spline (points : List (Point Rat)) (size : CellSize Rat)
    (style : Style Rat) :
    ((spline points).flatMap (shapes size style)).length = points.length - 1 := by
  match points with
  | [] | [_] | [_, _] => rfl
  | a :: b :: c :: rest =>
      have hnatural := (Spline.controlPoints_natural (a :: b :: c :: rest) (by simp)).1.columns
      have hfirst := hnatural.length_first
      have hsecond := hnatural.length_second
      rw [List.length_map, List.length_map] at hfirst hsecond
      rw [spline, List.flatMap_singleton, shapes, ← length_pieces hfirst hsecond]
      rfl

section Drawn

variable {points : List Cell} {columns rows : Int} (hwidth : 0 ≤ width) (hheight : 0 ≤ height)
  (hpoints : ∀ c ∈ points, (0 ≤ c.x ∧ c.x < columns) ∧ 0 ≤ c.y ∧ c.y < rows)
include hwidth hheight hpoints

theorem inBulge_pieces (htwo : 2 ≤ points.length) :
    let controls := Spline.controlPoints (points.map (position (α := Rat)))
    ∀ s ∈ pieces (.of width height) (points.map position) controls.1 controls.2,
      s.InBulge (.of width height) points columns rows := by
  intro controls s hs
  obtain ⟨⟨hcolumns, hrows⟩, -⟩ := Spline.controlPoints_natural (points.map (position (α := Rat)))
    (by simpa using htwo)
  obtain ⟨i, hi, hfirst, hsecond, rfl⟩ := exists_of_mem_pieces hs
  have hx : (points.map (position (α := Rat))).map (·.x) = (points.map (·.x)).map Int.cast := by
    simp [Function.comp_def, position]
  have hy : (points.map (position (α := Rat))).map (·.y) = (points.map (·.y)).map Int.cast := by
    simp [Function.comp_def, position]
  rw [hx] at hcolumns
  rw [hy] at hrows
  rintro q ⟨t, h₀, h₁, rfl⟩
  have hacross := Spline.piece_between hwidth
    (List.forall_mem_map.2 fun c hc => (hpoints c hc).1) hcolumns (i := i) (by simpa using hi)
    (by simpa using hfirst) (by simpa using hsecond) h₀ h₁
  have hdown := Spline.piece_between hheight
    (List.forall_mem_map.2 fun c hc => (hpoints c hc).2) hrows (i := i) (by simpa using hi)
    (by simpa using hfirst) (by simpa using hsecond) h₀ h₁
  simp only [List.getElem_map] at hacross hdown ⊢
  exact ⟨hacross, hdown⟩

/-- A spline lies in the room of its points, up to its bulge. -/
theorem inBulge_spline (style : Style Rat) :
    ∀ p ∈ spline (points.map position), ∀ s ∈ p.shapes (.of width height) style,
      s.InBulge (.of width height) points columns rows := by
  intro p hp s hs
  match points with
  | [] | [_] => cases hp
  | [a, b] =>
      rw [List.mem_singleton.1 hp] at hs
      rw [List.mem_singleton.1 hs]
      obtain ⟨hax, hay⟩ := hpoints a (by simp)
      obtain ⟨hbx, hby⟩ := hpoints b (by simp)
      exact Shape.between_line (Spline.centre_between_bulge hwidth _ hax)
        (Spline.centre_between_bulge hheight _ hay) (Spline.centre_between_bulge hwidth _ hbx)
        (Spline.centre_between_bulge hheight _ hby)
  | a :: b :: c :: rest =>
      rw [List.mem_singleton.1 hp] at hs
      exact inBulge_pieces hwidth hheight hpoints (by simp) s hs

end Drawn

end Primitive

/-! ## Canvases -/

/-- A spline through cells that is drawn on a fresh context lies in the room that is measured for it
up to its bulge.  It lies in this room if no two neighbouring points are more than a cell apart in
a row or a column. -/
theorem drawn_spline_room {width height : Rat} (hwidth : 0 < width) (hheight : 0 < height)
    {c : Canvas Rat} {i : Nat} {context : Context Rat} (hcontext : c.context? i = some context)
    (hfresh : context.Fresh) (hcell : context.cell = .of width height) {points : List Cell}
    (hpoints : ∀ p ∈ points, 0 ≤ p.x ∧ 0 ≤ p.y) :
    ∃ drawn after shapes,
      c.drawAll i (Primitive.spline (points.map Primitive.position)) = ⟨drawn, none⟩ ∧
      drawn.context? i = some after ∧
      after.items = context.items ++ (context.figures shapes).toArray ∧
      shapes.length = points.length - 1 ∧
      ∀ s ∈ shapes,
        s.InBulge (.of width height) points (drawn.sizeAlong i .horizontal)
          (drawn.sizeAlong i .vertical) ∧
        (Spline.stride (points.map (·.x)) ≤ 1 → Spline.stride (points.map (·.y)) ≤ 1 →
          s.TracedBetween ⟨0, 0⟩
            ⟨drawn.sizeAlong i .horizontal * width, drawn.sizeAlong i .vertical * height⟩) := by
  obtain ⟨drawn, columns, rows, hdrawn, hafter⟩ :=
    Canvas.drawAll_exact hcontext (Primitive.spline (points.map Primitive.position))
  refine ⟨drawn, _, _, hdrawn, hafter, rfl, ?_, fun s hs => ?_⟩
  · rw [Primitive.length_shapes_spline, List.length_map]
  · obtain ⟨p, hp, hs⟩ := List.mem_flatMap.1 hs
    have htwo : 2 ≤ points.length := by
      match points, hp with
      | _ :: _ :: _, _ => simp
    have hsize := Canvas.sizeAlong_drawAll hcontext hfresh (Primitive.reserves_spline htwo) hdrawn
    have hroom : ∀ d ∈ points, (0 ≤ d.x ∧ d.x < drawn.sizeAlong i .horizontal) ∧
        0 ≤ d.y ∧ d.y < drawn.sizeAlong i .vertical := by
      intro d hd
      have hcolumn := ((hsize .horizontal _).1 le_rfl).2 d hd
      have hrow := ((hsize .vertical _).1 le_rfl).2 d hd
      obtain ⟨hx, hy⟩ := hpoints d hd
      exact ⟨⟨hx, hcolumn⟩, hy, hrow⟩
    rw [hcell] at hs
    have hbulge := Primitive.inBulge_spline hwidth.le hheight.le hroom context.style p hp s hs
    exact ⟨hbulge, hbulge.tracedBetween hwidth.le hheight.le⟩

/-- A fresh context with cells of ten by fifteen pixels. -/
def blankPage : Context Rat where
  cell := .of 10 15
  styling := .perShape
  style := .ofColors "white" "black" "white"

theorem fresh_blankPage : blankPage.Fresh := ⟨rfl, rfl, rfl, rfl⟩

/-- Four cells, none of which is more than one cell away from the next one. -/
def staircase : List Cell := [⟨0, 0⟩, ⟨1, 1⟩, ⟨2, 1⟩, ⟨2, 2⟩]

theorem staircase_room :
    ((0 : Rat) < 10 ∧ (0 : Rat) < 15) ∧ (Canvas.ofRoot blankPage).context? 0 = some blankPage ∧
    blankPage.Fresh ∧ blankPage.cell = .of 10 15 ∧ (∀ p ∈ staircase, 0 ≤ p.x ∧ 0 ≤ p.y) ∧
    ∃ drawn after shapes,
      (Canvas.ofRoot blankPage).drawAll 0 (Primitive.spline (staircase.map Primitive.position)) =
        ⟨drawn, none⟩ ∧
      drawn.context? 0 = some after ∧ after.items = (blankPage.figures shapes).toArray ∧
      shapes.length = 3 ∧ drawn.sizeInCells 0 = (3, 3) ∧
      ∀ s ∈ shapes, s.TracedBetween ⟨0, 0⟩ ⟨30, 45⟩ := by
  have hwidth : (0 : Rat) < 10 := by norm_num
  have hheight : (0 : Rat) < 15 := by norm_num
  have hpoints : ∀ p ∈ staircase, 0 ≤ p.x ∧ 0 ≤ p.y := by decide
  have hsize : (((Canvas.ofRoot blankPage).drawAll 0
      (Primitive.spline (staircase.map Primitive.position))).state).sizeInCells 0 = (3, 3) := by
    decide +kernel
  have hroot : (Canvas.ofRoot blankPage).context? 0 = some blankPage := rfl
  obtain ⟨drawn, after, shapes, hdrawn, hafter, hitems, hlength, hroom⟩ :=
    drawn_spline_room hwidth hheight hroot fresh_blankPage rfl hpoints
  rw [hdrawn] at hsize
  refine ⟨⟨hwidth, hheight⟩, hroot, fresh_blankPage, rfl, hpoints, drawn, after, shapes, hdrawn,
    hafter, ?_, hlength, hsize, fun s hs => ?_⟩
  · simpa [blankPage] using hitems
  · have hbetween := (hroom s hs).2 (by decide) (by decide)
    simp only [Canvas.sizeAlong, hsize, Axis.position] at hbetween
    norm_num at hbetween
    exact hbetween

/-- Three cells, the last two of which are ten columns away from the first one. -/
def sharpBend : List Cell := [⟨0, 0⟩, ⟨10, 1⟩, ⟨10, 2⟩]

/-- Longer steps lead out of the room: behind the second of these cells, the spline is farther to
the right than the room is wide. -/
theorem not_forall_spline_room : ¬ ∀ (width height : Rat) (c : Canvas Rat) (i : Nat)
    (context : Context Rat) (points : List Cell), 0 < width → 0 < height →
    c.context? i = some context → context.Fresh → context.items = #[] →
    context.cell = .of width height → (∀ p ∈ points, 0 ≤ p.x ∧ 0 ≤ p.y) →
    ∀ drawn after, c.drawAll i (Primitive.spline (points.map Primitive.position)) =
      ⟨drawn, none⟩ → drawn.context? i = some after →
    ∀ f, Item.figure f ∈ after.items → f.shape.TracedBetween ⟨0, 0⟩
      ⟨drawn.sizeAlong i .horizontal * width, drawn.sizeAlong i .vertical * height⟩ := by
  intro h
  let strokes := Primitive.spline (sharpBend.map (Primitive.position (α := Rat)))
  let drawn := ((Canvas.ofRoot blankPage).drawAll 0 strokes).state
  let piece : Shape Rat := .curve ⟨105, 45 / 2⟩ ⟨365 / 3, 55 / 2⟩ ⟨340 / 3, 65 / 2⟩ ⟨105, 75 / 2⟩
  have hsize : drawn.sizeInCells 0 = (11, 3) := by decide +kernel
  have hpiece : Item.figure ⟨piece, blankPage.style.look blankPage.cell.height⟩ ∈
      (blankPage.drawAll strokes).state.items := by
    decide +kernel
  have hright := (h 10 15 (.ofRoot blankPage) 0 blankPage sharpBend (by norm_num) (by norm_num) rfl
    fresh_blankPage rfl rfl (by decide) drawn _ rfl rfl _ hpiece _
    ⟨1 / 2, by norm_num, by norm_num, rfl⟩).1.2
  rw [Canvas.sizeAlong, hsize, Spline.aeval_bezier] at hright
  norm_num [Axis.position] at hright

end CellSketch
