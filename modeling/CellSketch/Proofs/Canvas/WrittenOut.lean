import CellSketch.Drawing
import CellSketch.Proofs.Canvas.Exact
import CellSketch.Proofs.Canvas.Fitting
import CellSketch.Proofs.Canvas.Inked
import CellSketch.Proofs.Canvas.Overlays
import CellSketch.Proofs.Number.Magnitude

/-!
# WrittenOut — drawings of moderate size are written out

As long as a drawing has fewer than `2 ^ 52` columns and rows, its cells may be almost as large as
doubles get: no position in pixels is infinite, so that the drawing has a size in whole pixels and
is written in every format, with its cells shown or not.

* `Context.Moderate` — a context of moderate size, in cells that are not too large;
* `Context.Moderate.drawAll` — what fits is drawn on it and leaves it moderate;
* `Sketch.Moderate.exists_document`, `exists_output` — a sketch of one such context is written;
* `Sketch.moderate_fresh` — new sketches are of moderate size.
-/

namespace CellSketch

open Number Doubles

/-! ## Overlays -/

section Overlays

variable {α : Type} [Scalar α] {limit : Int} {H : Halves α limit} {c : Context α} {size : Int × Int}

theorem Scalar.firstFault?_pair {x y : α} (hx : Scalar.fault? x = none)
    (hy : Scalar.fault? y = none) : Scalar.firstFault? [x, y] = none :=
  List.findSome?_eq_none_iff.2
    (List.forall_mem_cons.2 ⟨hx, List.forall_mem_singleton.2 hy⟩)

theorem Canvas.exists_overlay (U : c.cell.Usable H) (hwidth : 0 ≤ size.1 ∧ size.1 ≤ limit)
    (hheight : 0 ≤ size.2 ∧ size.2 ≤ limit) : ∃ overlay, Canvas.overlay c size = .ok overlay := by
  have hfaultless := Scalar.firstFault?_pair (H.fault_none (U.left hwidth.1 hwidth.2))
    (H.fault_none (U.top hheight.1 hheight.2))
  rw [CellSize.left, CellSize.top] at hfaultless
  unfold overlay
  dsimp only
  rw [hfaultless]
  exact ⟨_, rfl⟩

/-- The size in pixels of a canvas with one context. -/
theorem Canvas.sizeInPixels_ofRoot (hsize : (ofRoot c).sizeInCells 0 = (c.width, c.height))
    (hwidth : Scalar.fault? (Scalar.whole c.width * c.cell.width - Scalar.whole 1) = none)
    (hheight : Scalar.fault? (Scalar.whole c.height * c.cell.height - Scalar.whole 1) = none) :
    (ofRoot c).sizeInPixels 0 =
      .ok (Scalar.positivePart (Scalar.whole c.width * c.cell.width - Scalar.whole 1),
        Scalar.positivePart (Scalar.whole c.height * c.cell.height - Scalar.whole 1)) := by
  have hroot : (ofRoot c).context? 0 = some c := rfl
  rw [sizeInPixels, hroot]
  dsimp only
  rw [hsize, Scalar.firstFault?_pair hwidth hheight]

/-- An overlay of a context that can be drawn on is finished. -/
theorem Svg.fault_trace (R : c.Ready H) (hwidth : 0 ≤ size.1 ∧ size.1 ≤ limit)
    (hheight : 0 ≤ size.2 ∧ size.2 ≤ limit) : (trace c size).fault = none := by
  obtain ⟨overlay, hoverlay⟩ := Canvas.exists_overlay R.cell hwidth hheight
  unfold trace overlayFigures
  split
  · rfl
  · rw [hoverlay]
    refine List.findSome?_eq_none_iff.2 fun f hf => ?_
    -- the frame has a fill of its own, but no numbers of its own
    rcases List.mem_append.1 hf with hf | hf
    · obtain ⟨line, -, rfl⟩ := List.mem_map.1 hf
      exact R.look line
    · simp only [List.mem_cons, List.not_mem_nil, or_false] at hf
      rcases hf with rfl | rfl
      · exact R.look (.rectangle ⟨Scalar.whole 0, Scalar.whole 0⟩ overlay.width overlay.height none)
      · exact R.look overlay.label

end Overlays

/-! ## Contexts -/

/-- A context of fewer than `2 ^ 52` columns and rows with nothing inside it, in cells that are
smaller than `2 ^ 968` pixels. -/
structure Context.Moderate (c : Context Measure) : Prop where
  cell : ∃ wide high, c.cell = .of (.real wide) (.real high) ∧ Below 915 wide ∧ Below 915 high
  ready : c.Ready Halves.doubles
  origin : c.origin = ⟨0, 0⟩
  children : c.children = #[]
  room : ∀ axis, 0 ≤ c.room axis ∧ c.room axis < 2 ^ 52

namespace Context.Moderate

variable {c : Context Measure} {ps : List (Primitive Measure)}

/-- What fits is drawn on a context of moderate size, which keeps it. -/
theorem drawAll (M : c.Moderate) (h : Fitting Halves.doubles ps) :
    (c.drawAll ps).fault = none ∧ (c.drawAll ps).state.Moderate := by
  obtain ⟨ends, hplain, hbelow⟩ := h
  have hfault := M.ready.drawAll hplain
  have T := takes_drawAll (hplain.imp fun _ _ => Plain.reaches) hfault
  obtain ⟨width, height, hstate⟩ := state_drawAll hfault
  refine ⟨hfault, ?_, ?_, T.origin.trans M.origin, T.children.trans M.children, fun axis => ?_⟩
  · rw [hstate]
    exact M.cell
  · rw [hstate]
    exact ⟨M.ready.cell, M.ready.look⟩
  · have hzero : axis.position c.origin = 0 := by
      rw [M.origin]
      cases axis <;> rfl
    obtain ⟨hlow, hhigh⟩ := M.room axis
    refine ⟨hlow.trans ((T.room axis _).1 le_rfl).1, Int.lt_of_le_sub_one ?_⟩
    refine (T.room axis _).2 ⟨Int.le_sub_one_of_lt hhigh, fun e he => ?_⟩
    have hlast := hbelow e he axis
    omega

variable (M : c.Moderate)
include M

theorem sizeInCells_eq : (Canvas.ofRoot c).sizeInCells 0 = (c.width, c.height) := by
  have hsizes : Canvas.sizesFrom 0 [c] = [(c.width, c.height)] := by
    simp [Canvas.sizesFrom, M.children]
  rw [Canvas.sizeInCells]
  change ((Canvas.sizesFrom 0 [c])[0]?).getD (0, 0) = _
  rw [hsizes]
  rfl

theorem width_bounds : 0 ≤ c.width ∧ c.width ≤ 2 ^ 52 - 1 :=
  ⟨(M.room .horizontal).1, Int.le_sub_one_of_lt (M.room .horizontal).2⟩

theorem height_bounds : 0 ≤ c.height ∧ c.height ≤ 2 ^ 52 - 1 :=
  ⟨(M.room .vertical).1, Int.le_sub_one_of_lt (M.room .vertical).2⟩

/-- A context of moderate size takes a whole number of pixels. -/
theorem exists_pixels : ∃ w h, (Canvas.ofRoot c).sizeInPixels 0 = .ok (w, h) ∧
    (∃ width, w.ceil = .ok width) ∧ ∃ height, h.ceil = .ok height := by
  obtain ⟨wide, high, hcell, hwide, hhigh⟩ := M.cell
  have hcellwidth : c.cell.width = .real wide := by rw [hcell]; rfl
  have hcellheight : c.cell.height = .real high := by rw [hcell]; rfl
  obtain ⟨hwidthfault, hwidth⟩ :=
    Measure.exists_ceil_pixels (n := c.width) (M.room .horizontal) hwide (by decide) (by decide)
  obtain ⟨hheightfault, hheight⟩ :=
    Measure.exists_ceil_pixels (n := c.height) (M.room .vertical) hhigh (by decide) (by decide)
  rw [← hcellwidth] at hwidthfault hwidth
  rw [← hcellheight] at hheightfault hheight
  exact ⟨_, _, Canvas.sizeInPixels_ofRoot M.sizeInCells_eq hwidthfault hheightfault, hwidth,
    hheight⟩

/-- Its overlay is finished in both languages. -/
theorem fault_svg : Svg.fault? (Canvas.ofRoot c) = none := by
  have hnested : (Canvas.ofRoot c).nested = [0] := by
    rw [Canvas.nested]
    change ((Canvas.nestedFrom 0 [c]).head?).getD [] = _
    simp [Canvas.nestedFrom, M.children]
  have htrace : (Svg.traceAt (Canvas.ofRoot c) 0).fault = none := by
    change (Svg.trace c ((Canvas.ofRoot c).sizeInCells 0)).fault = none
    rw [M.sizeInCells_eq]
    exact Svg.fault_trace M.ready M.width_bounds M.height_bounds
  rw [Svg.fault?, Svg.stopped?_eq, hnested, List.findSome?_singleton, htrace]
  rfl

theorem exists_commands (foreground fill : String) :
    ∃ list, Mvg.document (Canvas.ofRoot c) foreground fill = .ok list := by
  have hsizes : Canvas.sizesFrom 0 [c] = [(c.width, c.height)] := by
    simp [Canvas.sizesFrom, M.children]
  obtain ⟨list, hlist⟩ : ∃ list, Mvg.ofContext 0 c (c.width, c.height) [] = .ok list :=
    Mvg.exists_ofContext (Canvas.exists_overlay M.ready.cell M.width_bounds M.height_bounds)
      (List.forall_mem_nil _)
  refine ⟨Mvg.withColors foreground fill list, ?_⟩
  have hcommands : Mvg.commands (Canvas.ofRoot c) 0 = .ok list := by
    rw [Mvg.commands]
    change ((Mvg.contextsFrom 0 [c] (Canvas.sizesFrom 0 [c]))[0]?).getD (.ok []) = _
    rw [hsizes]
    exact hlist
  rw [Mvg.document, hcommands]
  rfl

end Context.Moderate

/-! ## Sketches -/

/-- A sketch of one context, which is of moderate size. -/
def Sketch.Moderate (s : Sketch) : Prop :=
  ∃ root : Context Measure, s.canvas = .ofRoot root ∧ root.Moderate

namespace Sketch.Moderate

variable {s : Sketch} (M : s.Moderate)
include M

/-- What fits is drawn on a sketch of moderate size. -/
theorem exists_draw {ps : List (Primitive Measure)} (h : Fitting Halves.doubles ps) :
    ∃ drawn, s.draw 0 ps = .ok drawn ∧ drawn.Moderate := by
  obtain ⟨root, hroot, M⟩ := M
  obtain ⟨hfault, M'⟩ := M.drawAll h
  have hall : s.drawAll 0 ps =
      (root.drawAll ps).map fun c => { s with canvas := .ofRoot c } := by
    rw [drawAll, hroot]
    rfl
  refine ⟨{ s with canvas := .ofRoot (root.drawAll ps).state }, ?_, _, rfl, M'⟩
  rw [draw, hall]
  generalize root.drawAll ps = done at hfault ⊢
  obtain ⟨state, fault⟩ := done
  cases hfault
  rfl

theorem exists_size : ∃ size, s.size = .ok size := by
  obtain ⟨root, hroot, M⟩ := M
  obtain ⟨w, h, hpixels, ⟨width, hwidth⟩, height, hheight⟩ := M.exists_pixels
  refine ⟨(width, height), ?_⟩
  rw [size, hroot, hpixels, Except.bind]
  dsimp only
  rw [hwidth, hheight]
  rfl

/-- A sketch of moderate size is written in every format. -/
theorem exists_document : ∃ document, s.document = .ok document := by
  obtain ⟨size, hsize⟩ := M.exists_size
  obtain ⟨root, hroot, M⟩ := M
  obtain ⟨commands, hcommands⟩ := M.exists_commands s.colors.foreground s.colors.fill
  unfold document
  split
  · rw [hroot, M.fault_svg, hsize]
    exact ⟨_, rfl⟩
  · rw [hroot, hcommands]
    exact ⟨_, rfl⟩

theorem exists_output (name : String) (document : Document) (format : Option String) :
    ∃ output, s.output name document format = .ok output := by
  obtain ⟨size, hsize⟩ := M.exists_size
  unfold output command
  split
  · rw [hsize]
    exact ⟨_, rfl⟩
  · exact ⟨_, rfl⟩

end Sketch.Moderate

/-! ## Cell sizes -/

namespace Options

theorem moderate_default {k : Int} {x : Float} (hk : k.natAbs < 2 ^ 53) (hx : x = double k) :
    (Measure.real x).Moderate :=
  ⟨x, rfl, hx ▸ (below_double hk).mono (by decide)⟩

theorem exists_mem_of_nonzero {size : Option Measure} {m : Measure} (h : nonzero size = some m) :
    size = some m :=
  (Option.filter_eq_some_iff.1 h).1

/-- What cells are drawn in is moderate if what is asked for is. -/
theorem moderate_cellSize {o : Options} (hwidth : ∀ m, o.cellWidth = some m → m.Moderate)
    (hheight : ∀ m, o.cellHeight = some m → m.Moderate) :
    o.cellSize.1.Moderate ∧ o.cellSize.2.Moderate := by
  have hten : (10.0 : Float) = double 20 := Float.toBits_inj.1 (by decide +kernel)
  have hfifteen : (15.0 : Float) = double 30 := Float.toBits_inj.1 (by decide +kernel)
  unfold cellSize
  constructor
  · cases hw : nonzero o.cellWidth with
    | some m => exact hwidth m (exists_mem_of_nonzero hw)
    | none => exact moderate_default (by decide) hten
  · cases hh : nonzero o.cellHeight with
    | some m => exact hheight m (exists_mem_of_nonzero hh)
    | none =>
        cases hw : nonzero o.cellWidth with
        | some m => exact hwidth m (exists_mem_of_nonzero hw)
        | none => exact moderate_default (by decide) hfifteen

end Options

/-! ## New sketches -/

namespace Sketch

theorem moderate_fresh (format : Format) (colors : Colors) (scale : Option String)
    {wide high : Float} (hwide : Below 915 wide) (hhigh : Below 915 high) (shown : Bool) :
    (fresh format colors scale wide high shown).Moderate := by
  refine ⟨_, rfl, ⟨wide, high, rfl, hwide, hhigh⟩, ?_, rfl, rfl, fun axis => ?_⟩
  · exact Context.ready_of (by decide) ⟨wide, rfl⟩ ⟨high, rfl⟩ rfl rfl
  · cases axis <;> exact ⟨le_rfl, show (0 : Int) < 2 ^ 52 by decide⟩

/-- A cell size that has doubles is taken over. -/
theorem setCellSize_empty (format : Format) (colors : Colors) {width height : Measure}
    {wide high : Float} (hwide : width.toFloat? = some wide) (hhigh : height.toFloat? = some high) :
    (empty format colors).setCellSize width height =
      .ok (fresh format colors none wide high false) := by
  have hwidth : Scalar.measure width = Measure.real wide := Measure.measure_eq hwide
  have hheight : Scalar.measure height = Measure.real high := Measure.measure_eq hhigh
  have hset (c : Context Measure) : c.setCellSize width height =
      ⟨{ c with cell := .of (.real wide) (.real high) }, none⟩ := by
    rw [Context.setCellSize, hwidth, hheight]
    rfl
  have hattempt : (empty format colors).canvas.attempt 0 (·.setCellSize width height) =
      ⟨(fresh format colors none wide high false).canvas, none⟩ := by
    unfold Canvas.attempt
    change Attempt.map _ (Context.setCellSize _ width height) = _
    rw [hset]
    rfl
  rw [setCellSize, hattempt]
  rfl

/-- The sketch of options with a cell size that has doubles, if there is one. -/
theorem result_ofOptions {o : Options} {wide high : Float}
    (hwide : o.cellSize.1.toFloat? = some wide) (hhigh : o.cellSize.2.toFloat? = some high) :
    (ofOptions o).result =
      (Colors.resolve o.theme o.background o.foreground).bind fun colors =>
        ((fresh (.ofName o.format) colors none wide high false).setScale? o.scale).map
          (·.showCells o.debug) := by
  unfold ofOptions
  simp only [Report.bind_result]
  change ((Colors.resolve o.theme o.background o.foreground).bind fun colors =>
    ((empty (.ofName o.format) colors).setCellSize o.cellSize.1 o.cellSize.2).bind fun sized =>
      (sized.setScale? o.scale).bind fun scaled => .ok (scaled.showCells o.debug)) = _
  simp only [setCellSize_empty _ _ hwide hhigh, Except.bind, Except.map]

variable {s : Sketch}

/-- A scale that is given has to be one. -/
theorem Moderate.exists_setScale? (M : s.Moderate) {spec : Option String}
    (h : ∀ given, spec = some given → given = "" ∨ Spec.isScale given.toList) :
    ∃ scaled, s.setScale? spec = .ok scaled ∧ scaled.Moderate := by
  cases spec with
  | none => exact ⟨s, rfl, M⟩
  | some given =>
      unfold setScale? setScale
      dsimp only
      split
      · exact ⟨s, rfl, M⟩
      · rename_i hgiven
        rcases h given rfl with rfl | hscale
        · exact absurd rfl hgiven
        · rw [if_pos hscale]
          exact ⟨_, rfl, M⟩

theorem Moderate.showCells (M : s.Moderate) (shown : Bool) : (s.showCells shown).Moderate := by
  obtain ⟨root, hroot, M⟩ := M
  refine ⟨root.setDebug shown true, ?_, M.cell, ⟨M.ready.cell, M.ready.look⟩, M.origin,
    M.children, M.room⟩
  rw [Sketch.showCells, hroot]
  rfl

/-- Options with moderate cells describe a sketch of moderate size. -/
theorem exists_ofOptions {o : Options} {colors : Colors}
    (hcolors : Colors.resolve o.theme o.background o.foreground = .ok colors)
    (hscale : ∀ given, o.scale = some given → given = "" ∨ Spec.isScale given.toList)
    (hwidth : o.cellSize.1.Moderate) (hheight : o.cellSize.2.Moderate) :
    ∃ s, (ofOptions o).result = .ok s ∧ s.Moderate := by
  obtain ⟨wide, hwide, hwide'⟩ := hwidth
  obtain ⟨high, hhigh, hhigh'⟩ := hheight
  obtain ⟨scaled, hscaled, M⟩ :=
    (moderate_fresh (.ofName o.format) colors none hwide' hhigh' false).exists_setScale? hscale
  refine ⟨scaled.showCells o.debug, ?_, M.showCells o.debug⟩
  rw [result_ofOptions hwide hhigh, hcolors, Except.bind, hscaled]
  rfl

/-- What fits is drawn for a text on a sketch of moderate size. -/
theorem Moderate.exists_drawText (M : s.Moderate) {α : Type} [Scalar α] {engine : Flow.Engine α}
    {kind : Kind} {text : List Char} {round : Bool} {ps : List (Primitive Measure)}
    (hps : (kind.primitives engine text round).result = .ok ps) (h : Fitting Halves.doubles ps) :
    ∃ drawn, (s.drawText engine kind text round).result = .ok drawn ∧ drawn.Moderate := by
  obtain ⟨drawn, hdrawn, M'⟩ := M.exists_draw h
  refine ⟨drawn, ?_, M'⟩
  rw [drawText, Report.result_bind hps]
  exact hdrawn

end Sketch

end CellSketch
