import Mathlib.Data.Rat.Cast.Order
import Mathlib.Tactic.Linarith
import CellSketch.Proofs.Flow.Engines
import CellSketch.Proofs.LayeredRoute

/-!
# BoxesApart — boxes keep clear of each other

An engine answers with rational centres for the boxes of a component; the boxes are snapped to
cells, and the components are moved side by side.  Each of two boxes moves by half a cell at most
when it is snapped, so of the room between them one column or one row is lost.

* `roundRat_gap` — rounding takes one from a distance at most;
* `Engine.Spaces.corners_apart` — boxes of one component keep clear when they are snapped;
* `placeComponents_apart` — components side by side keep clear of each other;
* `layoutWith_keepsClear` — all boxes of a layout keep clear, and touch the first row and column.
-/

namespace CellSketch

/-! ## Rounding -/

namespace Number

theorem roundRat_bounds (x : Rat) : x - 1 / 2 ≤ roundRat x ∧ (roundRat x : Rat) ≤ x + 1 / 2 := by
  have hden : (0 : Rat) < x.den := by exact_mod_cast x.den_pos
  obtain ⟨hlow, hhigh⟩ := nearestEven_bounds x.num.natAbs x.den x.den_pos
  rw [roundRat]
  generalize nearestEven x.num.natAbs x.den = n at hlow hhigh ⊢
  have hlow' : 2 * (x.num.natAbs : Rat) ≤ (2 * n + 1) * x.den := by exact_mod_cast hlow
  have hhigh' : 2 * ((n : Rat) * x.den) ≤ 2 * (x.num.natAbs : Rat) + x.den := by
    exact_mod_cast hhigh
  have habs : (x.num.natAbs : Rat) = |(x.num : Rat)| := by rw [Nat.cast_natAbs, Int.cast_abs]
  have hmul : x * x.den = x.num := Rat.mul_den_eq_num x
  have hcancel {a b : Rat} (h : a * x.den ≤ b * x.den) : a ≤ b := le_of_mul_le_mul_right h hden
  split
  · rename_i hneg
    rw [habs, abs_of_neg (by exact_mod_cast hneg), ← hmul] at hlow' hhigh'
    push_cast
    constructor <;> apply hcancel <;> linarith
  · rename_i hpos
    rw [habs, abs_of_nonneg (by exact_mod_cast not_lt.1 hpos), ← hmul] at hlow' hhigh'
    push_cast
    constructor <;> apply hcancel <;> linarith

/-- Rounding takes one from a distance at most. -/
theorem roundRat_gap {x y : Rat} {gap : Nat} (h : x + (gap + 1 : Nat) ≤ y) :
    roundRat x + gap ≤ roundRat y := by
  have hx := (roundRat_bounds x).2
  have hy := (roundRat_bounds y).1
  have hgap : (roundRat x : Rat) + gap ≤ roundRat y := by
    push_cast at h
    linarith
  exact_mod_cast hgap

end Number

namespace Flow

open Number

/-! ## Room between boxes -/

namespace Box

/-- One of two boxes is left of the other, with free columns between them. -/
def ColumnsApart (gap : Nat) (a b : Box) : Prop :=
  a.x + a.width + gap ≤ b.x ∨ b.x + b.width + gap ≤ a.x

/-- One of two boxes is above the other, with free rows between them. -/
def RowsApart (gap : Nat) (a b : Box) : Prop :=
  a.y + a.height + gap ≤ b.y ∨ b.y + b.height + gap ≤ a.y

/-- A box as far as its place matters. -/
def standing (corner : Cell) (width : Nat) : Box :=
  ⟨[], [], corner.x, corner.y, width, boxHeight⟩

end Box

/-- The room that two boxes of one component have between them. -/
def Apart (a b : Box) : Prop :=
  a.ColumnsApart (nodeSpacing - 1) b ∨ a.RowsApart (layerSpacing - 1) b

/-- Two boxes, by their centres and widths, lie far from each other along the rows or along the
columns. -/
def FarApart (a b : Point Rat × Nat) : Prop :=
  ((layerSpacing + boxHeight : Nat) : Rat) ≤ |a.1.y - b.1.y| ∨
    (nodeSpacing : Rat) + ((a.2 : Rat) + b.2) / 2 ≤ |a.1.x - b.1.x|

theorem FarApart.symm {a b : Point Rat × Nat} (h : FarApart a b) : FarApart b a := by
  unfold FarApart at *
  rwa [abs_sub_comm b.1.y, abs_sub_comm b.1.x, add_comm (b.2 : Rat)]

/-- Centres for boxes of the given widths, any two of them far from each other. -/
def Spaced (widths : List Nat) (centre : Nat → Point Rat) : Prop :=
  (widths.zipIdx.map fun (w, v) => (centre v, w)).Pairwise FarApart

theorem Spaced.of_ne {widths : List Nat} {centre : Nat → Point Rat} (h : Spaced widths centre)
    {i j v w : Nat} (hij : i ≠ j) (hv : widths[i]? = some v) (hw : widths[j]? = some w) :
    FarApart (centre i, v) (centre j, w) := by
  have hpairwise := List.pairwise_iff_getElem.1 h
  simp only [List.length_map, List.length_zipIdx, List.getElem_map, List.getElem_zipIdx,
    Nat.zero_add] at hpairwise
  obtain ⟨hi, rfl⟩ := List.getElem?_eq_some_iff.1 hv
  obtain ⟨hj, rfl⟩ := List.getElem?_eq_some_iff.1 hw
  rcases Nat.lt_or_gt_of_ne hij with hlt | hgt
  · exact hpairwise i j hi hj hlt
  · exact (hpairwise j i hj hi hgt).symm

/-! ## Snapping -/

/-- The cell nearest to the corner of a box around a rational point. -/
def nearestCorner (p : Point Rat) (w : Nat) : Cell :=
  ⟨roundRat (p.x - (w : Rat) / 2), roundRat (p.y - (boxHeight : Rat) / 2)⟩

theorem snap_eq (p : Point Rat) (w : Nat) : snap p w = .ok (nearestCorner p w) := by
  change Except.ok (Cell.mk (roundRat (p.x - ((w : Int) : Rat) / ((2 : Int) : Rat)))
    (roundRat (p.y - ((boxHeight : Int) : Rat) / ((2 : Int) : Rat)))) = _
  rw [Int.cast_natCast, Int.cast_natCast, Int.cast_ofNat, nearestCorner]

theorem nearestCorner_columns {p q : Point Rat} {v w : Nat}
    (h : (nodeSpacing : Rat) + ((v : Rat) + w) / 2 ≤ q.x - p.x) :
    (nearestCorner p v).x + v + (nodeSpacing - 1 : Nat) ≤ (nearestCorner q w).x := by
  have hgap : p.x - (v : Rat) / 2 + ((v + (nodeSpacing - 1) : Nat) + 1 : Nat) ≤
      q.x - (w : Rat) / 2 := by
    simp only [nodeSpacing] at h ⊢
    push_cast at h ⊢
    linarith
  have hround := roundRat_gap hgap
  push_cast at hround
  simp only [nearestCorner]
  omega

theorem nearestCorner_rows {p q : Point Rat} {v w : Nat}
    (h : ((layerSpacing + boxHeight : Nat) : Rat) ≤ q.y - p.y) :
    (nearestCorner p v).y + boxHeight + (layerSpacing - 1 : Nat) ≤ (nearestCorner q w).y := by
  have hgap : p.y - (boxHeight : Rat) / 2 + ((boxHeight + (layerSpacing - 1) : Nat) + 1 : Nat) ≤
      q.y - (boxHeight : Rat) / 2 := by
    simp only [layerSpacing, boxHeight] at h ⊢
    push_cast at h ⊢
    linarith
  have hround := roundRat_gap hgap
  push_cast at hround
  simp only [nearestCorner]
  omega

/-- Boxes that are far from each other keep clear when they are snapped. -/
theorem FarApart.snap {p q : Point Rat} {v w : Nat} (h : FarApart (p, v) (q, w)) :
    Apart (.standing (nearestCorner p v) v) (.standing (nearestCorner q w) w) := by
  rcases h with h | h <;> rcases le_abs.1 h with h | h
  · exact Or.inr (Or.inr (nearestCorner_rows (v := w) (w := v) h))
  · exact Or.inr (Or.inl (nearestCorner_rows (v := v) (w := w) (by linarith)))
  · exact Or.inl (Or.inr (nearestCorner_columns (by linarith)))
  · exact Or.inl (Or.inl (nearestCorner_columns (by linarith)))

section Corners

variable {engine : Engine Rat} {n : Network} {cells : List Cell}

/-- The engine answers with centres that keep their distance, if the network has more than one
box. -/
def Engine.Spaces (engine : Engine Rat) (n : Network) : Prop :=
  n.size ≠ 1 → ∃ centre, engine.centres n = .ok centre ∧ Spaced n.widths.toList centre

theorem Engine.Spaces.exists_corners (h : engine.Spaces n) :
    ∃ cells, engine.corners n = .ok cells := by
  have hcentres : ∃ centre, engine.centresOf n = .ok centre := by
    by_cases hsize : n.size = 1
    · obtain ⟨w, hw⟩ := List.length_eq_one_iff.1 hsize
      exact ⟨_, by rw [Engine.centresOf, hw]⟩
    · obtain ⟨centre, hcentre, -⟩ := h hsize
      exact ⟨centre, by rw [Engine.centresOf_of_ne hsize, mapError_eq_ok_iff, hcentre]⟩
  obtain ⟨centre, hcentre⟩ := hcentres
  obtain ⟨cells, hcells⟩ := exists_mapM (f := fun entry => snap (centre entry.2) entry.1)
    n.widths.toList.zipIdx fun entry _ => ⟨_, snap_eq _ _⟩
  exact ⟨cells, Engine.corners_eq_ok_iff.2 ⟨centre, hcentre, mapM_eq_ok_iff.1 hcells⟩⟩

/-- Boxes of one component keep clear of each other when they are snapped. -/
theorem Engine.Spaces.corners_apart (h : engine.Spaces n) (hcells : engine.corners n = .ok cells)
    {i j : Nat} {a b : Cell} {v w : Nat} (hij : i ≠ j) (ha : cells[i]? = some a)
    (hb : cells[j]? = some b) (hv : n.widths.toList[i]? = some v)
    (hw : n.widths.toList[j]? = some w) : Apart (.standing a v) (.standing b w) := by
  have hsize : n.size ≠ 1 := by
    intro hsize
    have hi := (List.getElem?_eq_some_iff.1 hv).1
    have hj := (List.getElem?_eq_some_iff.1 hw).1
    rw [Array.length_toList] at hi hj
    rw [Network.size] at hsize
    omega
  obtain ⟨centre, hcentre, hspaced⟩ := h hsize
  obtain ⟨centre', hcentre', hsnapped⟩ := Engine.corners_eq_ok_iff.1 hcells
  rw [Engine.centresOf_of_ne hsize, mapError_eq_ok_iff, hcentre] at hcentre'
  obtain rfl := Except.ok.inj hcentre'
  have hget {k : Nat} {c : Cell} {u : Nat} (hc : cells[k]? = some c)
      (hu : n.widths.toList[k]? = some u) : c = nearestCorner (centre k) u :=
    (Except.ok.inj ((snap_eq _ _).symm.trans (Engine.snap_of_getElem? hsnapped hu hc))).symm
  rw [hget ha hv, hget hb hw]
  exact (hspaced.of_ne hij hv hw).snap

end Corners

/-! ## Components side by side -/

theorem least_le {x : Int} {xs : List Int} (h : x ∈ xs) : least xs ≤ x := by
  rw [least]
  cases hmin : xs.min? with
  | none => rw [List.min?_eq_none_iff.1 hmin] at h; cases h
  | some m => exact (List.min?_eq_some_iff.1 hmin).2 x h

theorem least_mem (xs : List Int) (h : xs ≠ []) : least xs ∈ xs := by
  rw [least]
  cases hmin : xs.min? with
  | none => exact absurd (List.min?_eq_none_iff.1 hmin) h
  | some m => exact (List.min?_eq_some_iff.1 hmin).1

theorem extent_nonneg (xs : List Int) : 0 ≤ extent xs := by
  have h : 0 ≤ extent (0 :: xs) := le_extent List.mem_cons_self
  rwa [extent, List.foldl_cons, max_self] at h

theorem extent_eq_zero_or_mem (xs : List Int) : extent xs = 0 ∨ extent xs ∈ xs := by
  refine List.foldlRecOn xs max (motive := fun m => m = 0 ∨ m ∈ xs) (.inl rfl) fun m hm x hx => ?_
  rcases max_choice m x with h | h <;> rw [h]
  · exact hm
  · exact .inr hx

section Shift

variable {left : Int} {cells : List Cell}

/-- All boxes of a component move by the same way. -/
theorem exists_shift (left : Int) (cells : List Cell) : ∃ dx dy : Int, ∀ (k : Nat) (p : Cell),
    (shiftTo left cells)[k]? = some p → ∃ c, cells[k]? = some c ∧ p = ⟨c.x + dx, c.y + dy⟩ := by
  refine ⟨left - least (cells.map (·.x)), -least (cells.map (·.y)), fun k p hp => ?_⟩
  rw [shiftTo, List.getElem?_map] at hp
  obtain ⟨c, hc, rfl⟩ := Option.map_eq_some_iff.1 hp
  refine ⟨c, hc, ?_⟩
  rw [Cell.mk.injEq]
  omega

theorem length_shiftTo : (shiftTo left cells).length = cells.length := List.length_map _

theorem le_of_mem_shiftTo {p : Cell} (h : p ∈ shiftTo left cells) : left ≤ p.x ∧ 0 ≤ p.y := by
  obtain ⟨c, hc, rfl⟩ := List.mem_map.1 h
  have hx := least_le (List.mem_map_of_mem (f := (·.x)) hc)
  have hy := least_le (List.mem_map_of_mem (f := (·.y)) hc)
  dsimp only
  omega

/-- A component touches its first column and the first row. -/
theorem exists_mem_shiftTo (left : Int) (h : cells ≠ []) :
    (∃ p ∈ shiftTo left cells, p.x = left) ∧ ∃ p ∈ shiftTo left cells, p.y = 0 := by
  constructor
  · obtain ⟨c, hc, hx⟩ := List.mem_map.1 (least_mem (cells.map (·.x)) (by simpa using h))
    exact ⟨_, List.mem_map_of_mem hc, by simp [hx]⟩
  · obtain ⟨c, hc, hy⟩ := List.mem_map.1 (least_mem (cells.map (·.y)) (by simpa using h))
    exact ⟨_, List.mem_map_of_mem hc, by simp [hy]⟩

end Shift

theorem Apart.shift {a b : Cell} {v w : Nat} (dx dy : Int)
    (h : Apart (.standing a v) (.standing b w)) :
    Apart (.standing ⟨a.x + dx, a.y + dy⟩ v) (.standing ⟨b.x + dx, b.y + dy⟩ w) := by
  unfold Apart Box.ColumnsApart Box.RowsApart Box.standing at *
  dsimp only at *
  omega

section Place

/-- The columns that a component takes up, counted from its first one. -/
def columnsOf (left : Int) (corners : List Cell) (widths : List Nat) : Int :=
  extent (((shiftTo left corners).zip widths).map fun (p, w) => p.x - left + w)

variable {widths : Component → List Nat} {ds : List (Component × List Cell)} {left : Int}

theorem placeComponents_cons (d : Component × List Cell) (rest : List (Component × List Cell)) :
    placeComponents widths left (d :: rest) = d.1.zip (shiftTo left d.2) ++
      placeComponents widths (left + columnsOf left d.2 (widths d.1) + componentSpacing) rest := rfl

/-- A box stands in the share of its component. -/
theorem exists_of_mem_placeComponents {i : Nat} {p : Cell}
    (h : (i, p) ∈ placeComponents widths left ds) : ∃ d ∈ ds, i ∈ d.1 ∧ left ≤ p.x ∧ 0 ≤ p.y := by
  induction ds generalizing left with
  | nil => cases h
  | cons d rest ih =>
      rw [placeComponents_cons, List.mem_append] at h
      rcases h with h | h
      · obtain ⟨hi, hp⟩ := List.of_mem_zip h
        exact ⟨d, List.mem_cons_self, hi, le_of_mem_shiftTo hp⟩
      · obtain ⟨e, he, hi, hx, hy⟩ := ih h
        have hcolumns : 0 ≤ columnsOf left d.2 (widths d.1) := extent_nonneg _
        exact ⟨e, List.mem_cons_of_mem d he, hi, by omega, hy⟩

/-- Every vertex gets a box. -/
theorem exists_mem_placeComponents (hlength : ∀ d ∈ ds, d.2.length = d.1.length)
    {d : Component × List Cell} (hd : d ∈ ds) {i : Nat} (hi : i ∈ d.1) :
    ∃ p, (i, p) ∈ placeComponents widths left ds := by
  induction ds generalizing left with
  | nil => cases hd
  | cons e rest ih =>
      simp only [placeComponents_cons, List.mem_append]
      rcases List.mem_cons.1 hd with rfl | hd
      · obtain ⟨k, hk, rfl⟩ := List.getElem_of_mem hi
        have hk' : k < (shiftTo left d.2).length := by
          rwa [length_shiftTo, hlength d List.mem_cons_self]
        refine ⟨(shiftTo left d.2)[k], Or.inl ?_⟩
        exact List.mem_of_getElem? (i := k)
          (List.getElem?_zip_eq_some.2 ⟨List.getElem?_eq_getElem hk, List.getElem?_eq_getElem hk'⟩)
      · obtain ⟨p, hp⟩ := ih (fun f hf => hlength f (List.mem_cons_of_mem e hf)) hd
        exact ⟨p, Or.inr hp⟩

/-- Boxes stand in one component, or there are free columns between them. -/
theorem placeComponents_apart {width : Nat → Nat} (hwidths : ∀ d ∈ ds, widths d.1 = d.1.map width)
    {i j : Nat} {p q : Cell} (hp : (i, p) ∈ placeComponents widths left ds)
    (hq : (j, q) ∈ placeComponents widths left ds) :
    (∃ d ∈ ds, ∃ (l : Int) (k m : Nat), d.1[k]? = some i ∧ d.1[m]? = some j ∧
      (shiftTo l d.2)[k]? = some p ∧ (shiftTo l d.2)[m]? = some q) ∨
      (Box.standing p (width i)).ColumnsApart componentSpacing (.standing q (width j)) := by
  induction ds generalizing left with
  | nil => cases hp
  | cons d rest ih =>
      -- a box of this component ends before those of the next ones start
      have hfirst {i j : Nat} {p q : Cell} (hp : (i, p) ∈ d.1.zip (shiftTo left d.2))
          (hq : (j, q) ∈ placeComponents widths
            (left + columnsOf left d.2 (widths d.1) + componentSpacing) rest) :
          p.x + width i + componentSpacing ≤ q.x := by
        obtain ⟨k, hk⟩ := List.mem_iff_getElem?.1 hp
        obtain ⟨hki, hkp⟩ := List.getElem?_zip_eq_some.1 hk
        have hzip : (p, width i) ∈ (shiftTo left d.2).zip (widths d.1) := by
          refine List.mem_of_getElem? (i := k) (List.getElem?_zip_eq_some.2 ⟨hkp, ?_⟩)
          rw [hwidths d List.mem_cons_self, List.getElem?_map, hki, Option.map_some]
        have hcolumns : p.x - left + width i ≤ columnsOf left d.2 (widths d.1) :=
          le_extent (List.mem_map_of_mem (f := fun (p, w) => p.x - left + w) hzip)
        obtain ⟨-, -, -, hleft, -⟩ := exists_of_mem_placeComponents hq
        omega
      rw [placeComponents_cons, List.mem_append] at hp hq
      rcases hp with hp | hp <;> rcases hq with hq | hq
      · obtain ⟨k, hk⟩ := List.mem_iff_getElem?.1 hp
        obtain ⟨m, hm⟩ := List.mem_iff_getElem?.1 hq
        obtain ⟨hki, hkp⟩ := List.getElem?_zip_eq_some.1 hk
        obtain ⟨hmj, hmq⟩ := List.getElem?_zip_eq_some.1 hm
        exact Or.inl ⟨d, List.mem_cons_self, left, k, m, hki, hmj, hkp, hmq⟩
      · exact Or.inr (Or.inl (hfirst hp hq))
      · exact Or.inr (Or.inr (hfirst hq hp))
      · rcases ih (fun e he => hwidths e (List.mem_cons_of_mem d he)) hp hq with h | h
        · obtain ⟨e, he, h⟩ := h
          exact Or.inl ⟨e, List.mem_cons_of_mem d he, h⟩
        · exact Or.inr h

/-- The first component touches the first column and the first row. -/
theorem placeComponents_touches {d : Component × List Cell} (hlength : d.2.length = d.1.length)
    (hne : d.1 ≠ []) :
    (∃ i ∈ d.1, ∃ p, (i, p) ∈ placeComponents widths left (d :: ds) ∧ p.x = left) ∧
      ∃ i ∈ d.1, ∃ p, (i, p) ∈ placeComponents widths left (d :: ds) ∧ p.y = 0 := by
  have hcorners : d.2 ≠ [] := by
    rw [← List.length_pos_iff, hlength]
    exact List.length_pos_iff.2 hne
  have hzip {p : Cell} (hp : p ∈ shiftTo left d.2) :
      ∃ i ∈ d.1, (i, p) ∈ placeComponents widths left (d :: ds) := by
    obtain ⟨k, hk, rfl⟩ := List.getElem_of_mem hp
    have hk' : k < d.1.length := by rwa [length_shiftTo, hlength] at hk
    refine ⟨d.1.get ⟨k, hk'⟩, List.get_mem d.1 _, ?_⟩
    rw [placeComponents_cons, List.mem_append]
    exact Or.inl (List.mem_of_getElem? (i := k)
      (List.getElem?_zip_eq_some.2 ⟨List.getElem?_eq_getElem hk', List.getElem?_eq_getElem hk⟩))
  obtain ⟨⟨p, hp, hx⟩, q, hq, hy⟩ := exists_mem_shiftTo left hcorners
  obtain ⟨i, hi, hip⟩ := hzip hp
  obtain ⟨j, hj, hjq⟩ := hzip hq
  exact ⟨⟨i, hi, p, hip, hx⟩, j, hj, q, hjq, hy⟩

/-- A vertex is placed once. -/
theorem placeComponents_unique (hnodup : (ds.map (·.1)).flatten.Nodup) {i : Nat} {p q : Cell}
    (hp : (i, p) ∈ placeComponents widths left ds)
    (hq : (i, q) ∈ placeComponents widths left ds) : p = q := by
  induction ds generalizing left with
  | nil => cases hp
  | cons d rest ih =>
      rw [List.map_cons, List.flatten_cons, List.nodup_append'] at hnodup
      obtain ⟨hd, hrest, hdisjoint⟩ := hnodup
      have hother {p q : Cell} (hp : (i, p) ∈ d.1.zip (shiftTo left d.2))
          (hq : (i, q) ∈ placeComponents widths
            (left + columnsOf left d.2 (widths d.1) + componentSpacing) rest) : False := by
        obtain ⟨e, he, hie, -⟩ := exists_of_mem_placeComponents hq
        exact hdisjoint (List.of_mem_zip hp).1
          (List.mem_flatten_of_mem (List.mem_map_of_mem he) hie)
      rw [placeComponents_cons, List.mem_append] at hp hq
      rcases hp with hp | hp <;> rcases hq with hq | hq
      · obtain ⟨k, hk⟩ := List.mem_iff_getElem?.1 hp
        obtain ⟨m, hm⟩ := List.mem_iff_getElem?.1 hq
        obtain ⟨hki, hkp⟩ := List.getElem?_zip_eq_some.1 hk
        obtain ⟨hmi, hmq⟩ := List.getElem?_zip_eq_some.1 hm
        obtain rfl : k = m :=
          (List.getElem?_inj (List.getElem?_eq_some_iff.1 hki).1 hd).1 (hki.trans hmi.symm)
        exact Option.some.inj (hkp.symm.trans hmq)
      · exact (hother hp hq).elim
      · exact (hother hq hp).elim
      · exact ih hrest hp hq

end Place

/-! ## Boxes of a graph -/

namespace Graph

/-- The corners of all boxes by the indexes of their nodes. -/
def placed (g : Graph) (drawn : List (Component × List Cell)) : List (Nat × Cell) :=
  placeComponents (fun c => (g.network c).widths.toList) 0 drawn

variable {g : Graph} {drawn : List (Component × List Cell)}

namespace Drawn

theorem lt_of_mem (D : g.Drawn drawn) {d : Component × List Cell} (hd : d ∈ drawn) {v : Nat}
    (hv : v ∈ d.1) : v < g.nodes.length :=
  D.shared.lt_of_mem (List.mem_map_of_mem hd) hv

theorem widths_eq (D : g.Drawn drawn) {d : Component × List Cell} (hd : d ∈ drawn) :
    (g.network d.1).widths.toList = d.1.map g.widthAt :=
  widths_network fun _ hv => D.lt_of_mem hd hv

theorem lt_of_mem_placed (D : g.Drawn drawn) {i : Nat} {p : Cell} (hp : (i, p) ∈ g.placed drawn) :
    i < g.nodes.length := by
  obtain ⟨d, hd, hi, -⟩ := exists_of_mem_placeComponents hp
  exact D.lt_of_mem hd hi

/-- Every node is placed. -/
theorem exists_mem_placed (D : g.Drawn drawn) {i : Nat} (hi : i < g.nodes.length) :
    ∃ p, (i, p) ∈ g.placed drawn := by
  obtain ⟨c, hc, hmem⟩ := D.shared.exists_mem hi
  obtain ⟨d, hd, rfl⟩ := List.mem_map.1 hc
  exact exists_mem_placeComponents D.length_eq hd hmem

end Drawn

/-- The box of a node. -/
def boxAt (node : Node) (p : Cell) : Box := ⟨node.id, node.label, p.x, p.y, node.width, boxHeight⟩

/-- The boxes of all nodes, given where they stand. -/
def boxesAt (spot : Nat → Cell) (g : Graph) : List Box :=
  g.nodes.zipIdx.map fun (node, i) => boxAt node (spot i)

theorem getElem?_boxesAt {spot : Nat → Cell} {i : Nat} {b : Box}
    (h : (g.boxesAt spot)[i]? = some b) :
    i < g.nodes.length ∧ b.x = (spot i).x ∧ b.y = (spot i).y ∧ b.width = g.widthAt i ∧
      b.height = boxHeight := by
  rw [boxesAt, List.getElem?_map, List.getElem?_zipIdx] at h
  obtain ⟨_, hentry, rfl⟩ := Option.map_eq_some_iff.1 h
  obtain ⟨node, hnode, rfl⟩ := Option.map_eq_some_iff.1 hentry
  rw [Nat.zero_add]
  exact ⟨(List.getElem?_eq_some_iff.1 hnode).1, rfl, rfl, by simp [boxAt, widthAt, hnode], rfl⟩

theorem getElem?_boxesAt_of_lt (spot : Nat → Cell) {i : Nat} (h : i < g.nodes.length) :
    (g.boxesAt spot)[i]? = some (boxAt g.nodes[i] (spot i)) := by
  simp [boxesAt, h]

theorem map_boxesAt (spot : Nat → Cell) :
    (g.boxesAt spot).map (fun b => (b.id, b.label, b.width, b.height)) =
      g.nodes.map fun n => (n.id, n.label, (n.width : Int), (boxHeight : Int)) := by
  have hfst : g.nodes = g.nodes.zipIdx.map Prod.fst := by simp
  rw [boxesAt, List.map_map]
  nth_rewrite 2 [hfst]
  rw [List.map_map]
  rfl

/-- Every node has a box where its corner was placed. -/
theorem Drawn.exists_boxesOf_eq (D : g.Drawn drawn) : ∃ spot : Nat → Cell,
    (∀ i < g.nodes.length, (i, spot i) ∈ g.placed drawn) ∧ g.boxesOf drawn = g.boxesAt spot := by
  have hfound : ∀ i < g.nodes.length, ∃ p, (g.placed drawn).find? (·.1 == i) = some (i, p) := by
    intro i hi
    cases hfind : (g.placed drawn).find? (·.1 == i) with
    | none =>
        obtain ⟨p, hp⟩ := D.exists_mem_placed hi
        exact absurd (List.find?_eq_none.1 hfind _ hp) (by simp)
    | some entry =>
        obtain ⟨j, p⟩ := entry
        obtain rfl : j = i := by simpa using List.find?_some hfind
        exact ⟨p, rfl⟩
  refine ⟨fun i => (((g.placed drawn).find? (·.1 == i)).map (·.2)).getD ⟨0, 0⟩, ?_, ?_⟩
  · intro i hi
    obtain ⟨p, hp⟩ := hfound i hi
    dsimp only
    rw [hp]
    exact List.mem_of_find?_eq_some hp
  · rw [boxesOf, boxesAt, List.filterMap_eq_map_iff_forall_eq_some]
    rintro ⟨node, i⟩ hmem
    obtain ⟨p, hp⟩ := hfound i (List.getElem?_eq_some_iff.1 (List.mem_zipIdx_iff_getElem?.1 hmem)).1
    rw [placed] at hp
    simp only [placed, hp, Option.map_some, Option.getD_some, boxAt]

end Graph

/-! ## Layouts -/

/-- The boxes of a graph, where they keep clear of each other. -/
structure KeepsClear (engine : Engine Rat) (g : Graph) (boxes : List Box) : Prop where
  /-- Every node has its box, with room for its label. -/
  nodes : boxes.map (fun b => (b.id, b.label, b.width, b.height)) =
    g.nodes.map fun n => (n.id, n.label, (n.width : Int), (boxHeight : Int))
  /-- The components of the graph are its linked nodes. -/
  components : ∀ i < g.nodes.length, ∀ j < g.nodes.length,
    (∃ c ∈ g.components engine, i ∈ c ∧ j ∈ c) ↔ g.Linked i j
  /-- Boxes of one component have free columns or free rows between them. -/
  linked : ∀ (i j : Nat) (a b : Box), i ≠ j → boxes[i]? = some a → boxes[j]? = some b →
    g.Linked i j → a.ColumnsApart (nodeSpacing - 1) b ∨ a.RowsApart (layerSpacing - 1) b
  /-- Boxes of different components have more free columns between them. -/
  unlinked : ∀ (i j : Nat) (a b : Box), boxes[i]? = some a → boxes[j]? = some b →
    ¬ g.Linked i j → a.ColumnsApart componentSpacing b
  /-- No two boxes share a cell. -/
  disjoint : ∀ (i j : Nat) (a b : Box), i ≠ j → boxes[i]? = some a → boxes[j]? = some b →
    ∀ cell, ¬ (a.contains cell = true ∧ b.contains cell = true)
  /-- No box reaches over the first column or the first row. -/
  nonneg : ∀ b ∈ boxes, 0 ≤ b.x ∧ 0 ≤ b.y
  /-- Some box touches the first column, and some box the first row. -/
  touches : boxes ≠ [] → (∃ b ∈ boxes, b.x = 0) ∧ ∃ b ∈ boxes, b.y = 0

theorem Apart.disjoint {a b : Box} (h : Apart a b) (cell : Cell) :
    ¬ (a.contains cell = true ∧ b.contains cell = true) := by
  rw [Box.contains_iff, Box.contains_iff]
  unfold Apart Box.ColumnsApart Box.RowsApart at h
  omega

/-- The room between components is more than enough inside one. -/
theorem Apart.of_columnsApart {a b : Box} (h : a.ColumnsApart componentSpacing b) : Apart a b := by
  refine Or.inl ?_
  unfold Box.ColumnsApart componentSpacing nodeSpacing at *
  omega

section Layout

variable {engine : Engine Rat} {g : Graph} {drawn : List (Component × List Cell)}

/-- In every component with more than one box the engine answers with centres that keep their
distance. -/
def CentresApart (engine : Engine Rat) (g : Graph) : Prop :=
  ∀ c ∈ g.components engine, c.length ≠ 1 → ∃ centre, engine.centres (g.network c) = .ok centre ∧
    Spaced (g.network c).widths.toList centre

theorem CentresApart.spaces (h : CentresApart engine g) {c : Component}
    (hc : c ∈ g.components engine) : engine.Spaces (g.network c) := by
  intro hsize
  rw [Graph.size_network fun v hv => (g.shared_components engine).lt_of_mem hc hv] at hsize
  exact h c hc hsize

/-- A graph is drawn if all of its centres keep their distance. -/
theorem CentresApart.exists_drawnBy (h : CentresApart engine g) :
    ∃ drawn, g.drawnBy engine = .ok drawn :=
  exists_mapM _ fun c hc => by
    obtain ⟨cells, hcells⟩ := (h.spaces hc).exists_corners
    exact ⟨(c, cells), by rw [hcells]; rfl⟩

/-- Two boxes stand in one component and keep clear there, or more columns are between them. -/
theorem CentresApart.placed_apart (h : CentresApart engine g) (hgroups : engine.Groups g)
    (hdrawn : g.drawnBy engine = .ok drawn) {i j : Nat} {p q : Cell} (hij : i ≠ j)
    (hp : (i, p) ∈ g.placed drawn) (hq : (j, q) ∈ g.placed drawn) :
    (g.Linked i j ∧ Apart (.standing p (g.widthAt i)) (.standing q (g.widthAt j))) ∨
      (Box.standing p (g.widthAt i)).ColumnsApart componentSpacing (.standing q (g.widthAt j)) := by
  have S : Splits _ _ (g.components engine) := hgroups
  have D := Graph.drawn_of_drawnBy hdrawn
  obtain ⟨hmap, hcorners⟩ := Graph.drawnBy_eq_ok_iff.1 hdrawn
  rcases placeComponents_apart (fun d hd => D.widths_eq hd) hp hq with
    ⟨d, hd, l, k, m, hki, hmj, hkp, hmq⟩ | hapart
  · have hc : d.1 ∈ g.components engine := hmap ▸ List.mem_map_of_mem hd
    refine Or.inl ⟨S.linked d.1 hc i (List.mem_of_getElem? hki) j (List.mem_of_getElem? hmj), ?_⟩
    obtain ⟨dx, dy, hshift⟩ := exists_shift l d.2
    obtain ⟨a, ha, rfl⟩ := hshift k p hkp
    obtain ⟨b, hb, rfl⟩ := hshift m q hmq
    have hkm : k ≠ m := by
      rintro rfl
      exact hij (Option.some.inj (hki.symm.trans hmj))
    refine ((h.spaces hc).corners_apart (hcorners d hd) hkm ha hb ?_ ?_).shift dx dy
    · rw [D.widths_eq hd, List.getElem?_map, hki, Option.map_some]
    · rw [D.widths_eq hd, List.getElem?_map, hmj, Option.map_some]
  · exact Or.inr hapart

section Spots

variable {spot : Nat → Cell} (hspot : ∀ i < g.nodes.length, (i, spot i) ∈ g.placed drawn)
include hspot

theorem CentresApart.boxes_apart (h : CentresApart engine g) (hgroups : engine.Groups g)
    (hdrawn : g.drawnBy engine = .ok drawn) {i j : Nat} {a b : Box} (hij : i ≠ j)
    (ha : (g.boxesAt spot)[i]? = some a) (hb : (g.boxesAt spot)[j]? = some b) :
    (g.Linked i j ∧ Apart a b) ∨ a.ColumnsApart componentSpacing b := by
  obtain ⟨hi, hax, hay, haw, hah⟩ := Graph.getElem?_boxesAt ha
  obtain ⟨hj, hbx, hby, hbw, hbh⟩ := Graph.getElem?_boxesAt hb
  have hplaced := h.placed_apart hgroups hdrawn hij (hspot i hi) (hspot j hj)
  unfold Apart Box.ColumnsApart Box.RowsApart at *
  rw [hax, hay, haw, hah, hbx, hby, hbw, hbh]
  exact hplaced

theorem nonneg_of_mem_boxesAt {b : Box} (hb : b ∈ g.boxesAt spot) : 0 ≤ b.x ∧ 0 ≤ b.y := by
  obtain ⟨i, hi⟩ := List.mem_iff_getElem?.1 hb
  obtain ⟨hi, hx, hy, -⟩ := Graph.getElem?_boxesAt hi
  obtain ⟨-, -, -, hleft, htop⟩ := exists_of_mem_placeComponents (hspot i hi)
  rw [hx, hy]
  exact ⟨hleft, htop⟩

/-- The first component touches the first column and the first row. -/
theorem Graph.Drawn.boxes_touch (D : g.Drawn drawn) (hne : g.boxesAt spot ≠ []) :
    (∃ b ∈ g.boxesAt spot, b.x = 0) ∧ ∃ b ∈ g.boxesAt spot, b.y = 0 := by
  cases hcomponents : drawn with
  | nil =>
      obtain ⟨b, hb⟩ := List.exists_mem_of_ne_nil _ hne
      obtain ⟨i, hi⟩ := List.mem_iff_getElem?.1 hb
      obtain ⟨c, hc, -⟩ := D.shared.exists_mem (Graph.getElem?_boxesAt hi).1
      rw [hcomponents] at hc
      cases hc
  | cons d rest =>
      have hd : d ∈ drawn := hcomponents ▸ List.mem_cons_self
      have hplaced {i : Nat} {p : Cell} (hi : i ∈ d.1) (hp : (i, p) ∈ g.placed drawn) :
          ∃ b ∈ g.boxesAt spot, b.x = p.x ∧ b.y = p.y := by
        have hlt := D.lt_of_mem hd hi
        obtain rfl := placeComponents_unique D.shared.nodup hp (hspot i hlt)
        exact ⟨_, List.mem_of_getElem? (Graph.getElem?_boxesAt_of_lt spot hlt), rfl, rfl⟩
      have htouches := @placeComponents_touches (fun c => (g.network c).widths.toList) rest 0 d
        (D.length_eq d hd) (D.shared.inhabited _ (List.mem_map_of_mem hd))
      rw [← hcomponents] at htouches
      obtain ⟨⟨i, hi, p, hp, hx⟩, j, hj, q, hq, hy⟩ := htouches
      obtain ⟨a, ha, hax, -⟩ := hplaced hi hp
      obtain ⟨b, hb, -, hby⟩ := hplaced hj hq
      exact ⟨⟨a, ha, hax.trans hx⟩, b, hb, hby.trans hy⟩

end Spots
end Layout

/-- Boxes whose centres keep their distance inside each component are laid out, and keep clear of
each other in the layout. -/
theorem layoutWith_keepsClear (engine : Engine Rat) (g : Graph) (hgroups : engine.Groups g)
    (h : CentresApart engine g) :
    ∃ l, (layoutWith engine g).result = .ok l ∧ KeepsClear engine g l.boxes := by
  obtain ⟨drawn, hdrawn⟩ := h.exists_drawnBy
  have D := Graph.drawn_of_drawnBy hdrawn
  obtain ⟨spot, hspot, hboxes⟩ := D.exists_boxesOf_eq
  refine ⟨(g.layoutOf drawn).1, result_of_drawnBy hdrawn, ?_⟩
  have hlayout : (g.layoutOf drawn).1.boxes = g.boxesAt spot := hboxes
  rw [hlayout]
  have hapart {i j : Nat} {a b : Box} (hij : i ≠ j) (ha : (g.boxesAt spot)[i]? = some a)
      (hb : (g.boxesAt spot)[j]? = some b) : Apart a b := by
    rcases h.boxes_apart hspot hgroups hdrawn hij ha hb with ⟨-, hapart⟩ | hcolumns
    · exact hapart
    · exact Apart.of_columnsApart hcolumns
  constructor
  case nodes => exact Graph.map_boxesAt spot
  case components => exact fun i hi j hj => hgroups.mem_component_iff_linked hi hj
  case linked => exact fun i j a b hij ha hb _ => hapart hij ha hb
  case unlinked =>
    intro i j a b ha hb hunlinked
    have hij : i ≠ j := by
      rintro rfl
      exact hunlinked (Relation.EqvGen.refl i)
    rcases h.boxes_apart hspot hgroups hdrawn hij ha hb with ⟨hlinked, -⟩ | hcolumns
    · exact absurd hlinked hunlinked
    · exact hcolumns
  case disjoint => exact fun i j a b hij ha hb => (hapart hij ha hb).disjoint
  case nonneg => exact fun b hb => nonneg_of_mem_boxesAt hspot hb
  case touches => exact D.boxes_touch hspot

/-- A box over two others, one by itself and a pair, with labels of odd and even widths. -/
def forkAndPair : Graph where
  nodes := [⟨['a'], ['a']⟩, ⟨['b'], ['b', 'c', 'd']⟩, ⟨['c'], ['w', 'x', 'y', 'z']⟩, ⟨['d'], ['d']⟩,
    ⟨['e'], ['e']⟩, ⟨['f'], ['f', 'g']⟩]
  edges := [⟨['a'], ['b'], .forward⟩, ⟨['a'], ['c'], .forward⟩, ⟨['e'], ['f'], .headless⟩]

/-- The centres of a box over two others and of a pair, drawn in layers. -/
def forkCentres (n : Network) (v : Nat) : Point Rat :=
  (if n.size = 3 then [⟨0, 3 / 2⟩, ⟨-19 / 4, 15 / 2⟩, ⟨19 / 4, 15 / 2⟩]
    else [⟨0, 3 / 2⟩, ⟨0, 15 / 2⟩]).getD v ⟨0, 0⟩

/-- An engine for such networks. -/
def forkEngine : Engine Rat where
  components := joined
  shared := shared_joined
  centres n := .ok (forkCentres n)

theorem fork_keepsClear : forkEngine.Groups forkAndPair ∧ CentresApart forkEngine forkAndPair ∧
    ∃ l, (layoutWith forkEngine forkAndPair).result = .ok l ∧
      KeepsClear forkEngine forkAndPair l.boxes ∧
      l.boxes.map (fun b => (b.x, b.y, b.width)) =
        [(5, 0, 3), (0, 6, 5), (9, 6, 6), (19, 0, 3), (26, 0, 3), (26, 6, 4)] := by
  have hgroups : forkEngine.Groups forkAndPair := .of_joined rfl
  have h : CentresApart forkEngine forkAndPair := by
    have hcomponents : forkAndPair.components forkEngine = [[0, 1, 2], [3], [4, 5]] := by decide
    intro c hc hsize
    rw [hcomponents] at hc
    simp only [List.mem_cons, List.not_mem_nil, or_false] at hc
    rcases hc with rfl | rfl | rfl
    · refine ⟨_, rfl, ?_⟩
      have hwidths : (forkAndPair.network [0, 1, 2]).widths.toList = [3, 5, 6] := rfl
      have hsize : (forkAndPair.network [0, 1, 2]).size = 3 := rfl
      norm_num [Spaced, hwidths, hsize, forkCentres, FarApart, layerSpacing, boxHeight, nodeSpacing]
    · exact absurd rfl hsize
    · refine ⟨_, rfl, ?_⟩
      have hwidths : (forkAndPair.network [4, 5]).widths.toList = [3, 4] := rfl
      have hsize : (forkAndPair.network [4, 5]).size = 2 := rfl
      norm_num [Spaced, hwidths, hsize, forkCentres, FarApart, layerSpacing, boxHeight, nodeSpacing]
  obtain ⟨l, hl, hclear⟩ := layoutWith_keepsClear forkEngine forkAndPair hgroups h
  have hboxes : (layoutWith forkEngine forkAndPair).result.toOption.map
      (fun l => l.boxes.map fun b => (b.x, b.y, b.width)) =
        some [(5, 0, 3), (0, 6, 5), (9, 6, 6), (19, 0, 3), (26, 0, 3), (26, 6, 4)] := by
    decide +kernel
  rw [hl] at hboxes
  exact ⟨hgroups, h, l, hl, hclear, Option.some.inj hboxes⟩

end Flow
end CellSketch
