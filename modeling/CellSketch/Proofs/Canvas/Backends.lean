import CellSketch.Proofs.Canvas.Ledger

/-!
# Backends — both documents show the same shapes in the same places

The commands and the groups of a program are read side by side.  In any arithmetic they show the
same shapes in the same order, at the same positions wherever going back by the origin of a context
undoes its translations.  In exact arithmetic that is always so, and the positions are those of the
ledger.

* `read_eq_walk` — two runs without faults have documents that are read alike;
* `backends_agree` — the same for every program in exact arithmetic, without any condition.
-/

namespace CellSketch

open Number

section Runs

variable {α : Type} [Scalar α]

omit [Scalar α] in
theorem Canvas.perShape_blank (cell : CellSize α) (style : Style α) :
    (Canvas.blank .perChange cell style).perShape = Canvas.blank .perShape cell style := by
  simp only [perShape, blank, ofRoot, List.map_toArray, List.map_cons, List.map_nil]
  rfl

/-- Two runs without faults end in the same contexts. -/
theorem Canvas.eq_perShape {cell : CellSize α} {style : Style α} {program : List (Op α)}
    {mvg svg : Canvas α} (hmvg : (Canvas.blank .perChange cell style).run program = ⟨mvg, none⟩)
    (hsvg : (Canvas.blank .perShape cell style).run program = ⟨svg, none⟩) :
    svg = mvg.perShape := by
  have hagree := Canvas.run_perShape (Canvas.blank .perChange cell style) program
  rw [Canvas.perShape_blank, hmvg, hsvg] at hagree
  exact hagree rfl rfl

/-- Operations never remove a context. -/
theorem Canvas.run_nonempty {c : Canvas α} (h : 0 < c.contexts.size) (program : List (Op α)) :
    0 < (c.run program).state.contexts.size := by
  refine @Attempt.each_preserves _ _ (fun c : Canvas α => 0 < c.contexts.size) _ ?_ _ h program
  intro c op hc
  cases op with
  | addContext i =>
      unfold perform addContext
      dsimp only
      cases c.context? i with
      | none => exact hc
      | some parent => simp
  | work i w =>
      unfold perform attempt
      dsimp only
      cases c.context? i with
      | none => exact hc
      | some context => simpa [Attempt.map] using hc

theorem Svg.exists_root {c : Canvas α} (h : 0 < c.contexts.size) (shift : Option (α × α)) :
    ∃ root, root? c shift = some root := by
  obtain ⟨contexts⟩ := c
  obtain ⟨contexts⟩ := contexts
  cases contexts with
  | nil => cases h
  | cons first rest => exact ⟨_, rfl⟩

/-- Every overlay of a canvas can be written. -/
def Svg.Traced (c : Canvas α) : Prop :=
  ∀ p ∈ c.contexts.toList.zip (Canvas.sizesFrom 0 c.contexts.toList), (trace p.1 p.2).fault = none

theorem Svg.Traced.finished {c : Canvas α} (h : Traced c) (htidy : c.Tidy) :
    ∀ p ∈ c.contexts.toList.zip (Canvas.sizesFrom 0 c.contexts.toList), Finished p.1 p.2 := by
  intro p hp
  have hcontext := htidy p.1 (Array.mem_toList_iff.1 (List.of_mem_zip hp).1)
  exact ⟨fun figures hmem => hcontext.items figures (Array.mem_toList_iff.1 hmem),
    hcontext.leftovers, h p hp⟩

/-- Two runs without faults have documents that are read alike. -/
theorem read_eq_walk {β : Type} {move : β → α → α → β} {cell : CellSize α} {style : Style α}
    {program : List (Op α)} {foreground fill : String} {commands : List (Mvg.Command α)}
    {mvg svg : Canvas α} (hmvg : (Canvas.blank .perChange cell style).run program = ⟨mvg, none⟩)
    (hsvg : (Canvas.blank .perShape cell style).run program = ⟨svg, none⟩)
    (hcommands : Mvg.document mvg foreground fill = .ok commands) (htraced : Svg.Traced svg)
    (hreturns : ∀ context ∈ mvg.contexts, context.debug ≠ .off → Context.Returns move context)
    (shift : Option (α × α)) :
    ∃ root, Svg.root? svg shift = some root ∧
      ∀ here, Mvg.read move commands (Svg.shifted move here shift) [] =
          some (root.walk move here) ∧
        root.walk move here = mvg.shown move (Svg.shifted move here shift) := by
  have hsame := Canvas.eq_perShape hmvg hsvg
  -- nothing on them is unfinished
  have htidy : svg.Tidy := by
    have h := (Canvas.tidy_blank .perShape cell style).run program
    rwa [hsvg] at h
  have hnonempty : 0 < svg.contexts.size := by
    have h := Canvas.run_nonempty (c := Canvas.blank .perShape cell style) Nat.one_pos program
    rwa [hsvg] at h
  obtain ⟨root, hroot⟩ := Svg.exists_root hnonempty shift
  refine ⟨root, hroot, fun here => ?_⟩
  have hwalk : root.walk move here = mvg.shown move (Svg.shifted move here shift) := by
    rw [Svg.walk_root hroot (htraced.finished htidy), hsame, Canvas.shown_perShape]
  exact ⟨(Mvg.read_document hcommands hreturns _).trans (congrArg some hwalk.symm), hwalk⟩

end Runs

/-! ## Exact runs -/

theorem Svg.traced_exact (c : Canvas Rat) : Svg.Traced c := fun p _ => Svg.trace_exact p.1 p.2

theorem Svg.fault?_exact (c : Canvas Rat) : Svg.fault? c = none := by
  have hstopped : stopped? c = none := by
    unfold stopped?
    refine List.findSome?_eq_none_iff.2 fun i _ => ?_
    split
    · dsimp only
      rw [Svg.trace_exact]
      rfl
    · rfl
  rw [fault?, hstopped]
  rfl

/-- Both documents of a program show the same shapes in the same places. -/
theorem backends_agree :
    (∀ {α β : Type} [Scalar α] (move : β → α → α → β) (cell : CellSize α) (style : Style α)
      (program : List (Op α)) (foreground fill : String) (commands : List (Mvg.Command α))
      (mvg svg : Canvas α),
      (Canvas.blank .perChange cell style).run program = ⟨mvg, none⟩ →
      (Canvas.blank .perShape cell style).run program = ⟨svg, none⟩ →
      Mvg.document mvg foreground fill = .ok commands → Svg.Traced svg →
      (∀ context ∈ mvg.contexts, context.debug ≠ .off → Context.Returns move context) →
      ∀ shift, ∃ root, Svg.root? svg shift = some root ∧
        ∀ here, Mvg.read move commands (Svg.shifted move here shift) [] =
          some (root.walk move here)) ∧
    (∀ (width height : Rat) (style : Style Rat) (program : List (Op Rat))
      (foreground fill : String) (shift : Option (Rat × Rat)),
      let cell : CellSize Rat := .of width height
      ∃ mvg svg commands root,
        (Canvas.blank .perChange cell style).run program = ⟨mvg, none⟩ ∧
        (Canvas.blank .perShape cell style).run program = ⟨svg, none⟩ ∧
        Mvg.document mvg foreground fill = .ok commands ∧ Svg.fault? svg = none ∧
        Svg.root? svg shift = some root ∧
        ∀ origin,
          Mvg.read moveBy commands (Svg.shifted moveBy origin shift) [] =
            some (root.walk moveBy origin) ∧
          root.walk moveBy origin =
            (Ledger.places (Ledger.ofProgram cell style program) mvg.overlays).map
              (cell.put (Svg.shifted moveBy origin shift))) := by
  constructor
  · intro α β _ move cell style program foreground fill commands mvg svg hmvg hsvg hcommands
      htraced hreturns shift
    obtain ⟨root, hroot, hread⟩ := read_eq_walk hmvg hsvg hcommands htraced hreturns shift
    exact ⟨root, hroot, fun here => (hread here).1⟩
  · intro width height style program foreground fill shift cell
    obtain ⟨mvg, hmvg, hfollows⟩ := (Canvas.Follows.blank .perChange style).run program
    obtain ⟨svg, hsvg, -⟩ := (Canvas.Follows.blank .perShape style).run program
    obtain ⟨commands, hcommands⟩ := Mvg.document_exact mvg foreground fill
    have hreturns : ∀ context ∈ mvg.contexts, Context.Returns moveBy context := by
      intro context hcontext
      obtain ⟨page, T⟩ := hfollows.exists_page hcontext
      exact T.returns
    obtain ⟨root, hroot, hread⟩ := read_eq_walk hmvg hsvg hcommands (Svg.traced_exact svg)
      (fun context hcontext _ => hreturns context hcontext) shift
    refine ⟨mvg, svg, commands, root, hmvg, hsvg, hcommands, Svg.fault?_exact svg, hroot,
      fun origin => ⟨(hread origin).1, ?_⟩⟩
    rw [(hread origin).2]
    exact hfollows.shown _

end CellSketch
