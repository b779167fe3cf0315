import CellSketch.Proofs.Canvas.WrittenOut
import CellSketch.Proofs.CommandLine.SameDrawing

/-!
# Reported — what a run tells of its end

A run tells of a failure in one line, unless it ends abruptly: a number is too large, or a switch is
left without a value.  With all values there, cells below `2 ^ 967` pixels, a drawing of fewer than
`2 ^ 52` columns and rows and an engine with centres below `2 ^ 968` this cannot happen, whatever
else is wrong: that the engine fails is told as well.

* `Told` — work that ends with a result of some kind, or with an error that is told;
* `CommandLine.Settings.told_prepare` — all that comes before the first write is told;
* `CommandLine.run_reported` — a run of moderate size is done, or it says why not in one line;
* `CommandLine.run_eq_of_ne_flow` — a run that draws no flow is the same with every engine;
* `CommandLine.not_reported_hugeCells` — a run with huge cells does not.
-/

namespace CellSketch

open Number Doubles

/-! ## Work that is told -/

/-- Work that ends with a result of some kind, or with an error that is told to the user. -/
def Told {α : Type} (P : α → Prop) : Except Error α → Prop
  | .ok a => P a
  | .error e => e.isAbrupt = false

namespace Told

variable {α β : Type} {P : α → Prop} {Q : β → Prop} {r : Except Error α}

theorem bind {next : α → Except Error β} (h : Told P r)
    (hnext : ∀ a, r = .ok a → P a → Told Q (next a)) : Told Q (r >>= next) := by
  cases r with
  | error e => exact h
  | ok a => exact hnext a rfl h

theorem report {r : Report α} {next : α → Report β} (h : Told P r.result)
    (hnext : ∀ a, r.result = .ok a → P a → Told Q (next a).result) :
    Told Q (r >>= next).result := by
  rw [Report.bind_result]
  exact h.bind hnext

theorem map {f : α → β} (h : Told P r) (hf : ∀ a, r = .ok a → P a → Q (f a)) :
    Told Q (r.map f) := by
  cases r with
  | error e => exact h
  | ok a => exact hf a rfl h

theorem of_eq {a : α} (h : r = .ok a) (hP : P a) : Told P r := by
  rw [h]
  exact hP

/-- Errors that are all told. -/
theorem mapError {ε : Type} {r : Except ε α} {f : ε → Error} (h : ∀ e, (f e).isAbrupt = false) :
    Told (fun _ => True) (r.mapError f) := by
  cases r with
  | error e => exact h e
  | ok a => trivial

end Told

/-! ## Files -/

namespace FileSystem

variable {fs : FileSystem} {p : FilePath}

theorem told_entry? : Told (fun _ => True) (fs.entry? p) := by
  unfold entry?
  split
  · trivial
  · split <;> trivial

theorem told_isFolder : Told (fun _ => True) (fs.isFolder p) := told_entry?.map fun _ _ _ => trivial

theorem told_file? : Told (fun _ => True) (fs.file? p) := told_entry?.map fun _ _ _ => trivial

theorem told_contains : Told (fun _ => True) (fs.contains p) := told_entry?.map fun _ _ _ => trivial

theorem told_folder : Told (fun _ => True) (fs.folder p) := by
  unfold folder
  split
  · rfl
  · exact Told.mapError fun _ => rfl

theorem told_write (content : List UInt8) : Told (fun _ => True) (fs.write p content) := by
  unfold write
  split
  · rfl
  · exact Told.mapError fun _ => rfl

theorem told_listing : Told (fun _ => True) (fs.listing p).result := by
  unfold listing
  refine Told.report (P := fun _ => True) ?_ fun _ _ _ => trivial
  refine Told.bind told_folder fun found _ _ => ?_
  dsimp only
  split
  · rfl
  · trivial

end FileSystem

/-! ## Drawings -/

namespace Flow

theorem told_addLines (g : Graph) (lines : List (Nat × List Char)) :
    Told (fun _ => True) (addLines g lines).result := by
  induction lines generalizing g with
  | nil => trivial
  | cons entry rest ih =>
      rw [addLines]
      split
      · rfl
      · exact ih _

theorem told_parse (text : List Char) : Told (fun _ => True) (parse text).result := by
  unfold parse
  refine (told_addLines _ _).report fun g _ _ => ?_
  split
  · rfl
  · trivial

end Flow

namespace Sketch

variable {s : Sketch}

theorem Moderate.told_setScale? (M : s.Moderate) (spec : Option String) :
    Told Moderate (s.setScale? spec) := by
  unfold setScale? setScale
  split
  · split
    · exact M
    · split
      · exact M
      · rfl
  · exact M

/-- Options with moderate cells describe a sketch of moderate size, if they describe one. -/
theorem told_ofOptions {o : Options} (hwidth : o.cellSize.1.Moderate)
    (hheight : o.cellSize.2.Moderate) : Told Moderate (ofOptions o).result := by
  obtain ⟨wide, hwide, hwide'⟩ := hwidth
  obtain ⟨high, hhigh, hhigh'⟩ := hheight
  have hcolors : Told (fun _ => True) (Colors.resolve o.theme o.background o.foreground) := by
    unfold Colors.resolve
    dsimp only
    split
    · trivial
    · split
      · trivial
      · rfl
  rw [result_ofOptions hwide hhigh]
  refine hcolors.bind fun colors _ _ => ?_
  have M := moderate_fresh (.ofName o.format) colors none hwide' hhigh' false
  exact (M.told_setScale? o.scale).map fun scaled _ M' => M'.showCells o.debug

/-- What is drawn for a text of moderate size leaves the sketch moderate. -/
theorem Moderate.told_drawText (M : s.Moderate) {engine : Flow.Engine Measure} {kind : Kind}
    {text : List Char} (h : kind.Moderate engine text) (round : Bool) :
    Told Moderate (s.drawText engine kind text round).result := by
  rcases Kind.primitives_cases h round with ⟨ps, hps, hfitting⟩ | ⟨e, he, hcause⟩
  · obtain ⟨drawn, hdrawn, M'⟩ := M.exists_drawText hps hfitting
    exact Told.of_eq hdrawn M'
  · -- nothing is drawn: the text is no flow, or the engine has failed
    rw [drawText, Report.bind_result, he]
    rcases hcause with hparse | ⟨reason, rfl⟩
    · have htold := Flow.told_parse text
      rw [hparse] at htold
      exact htold
    · rfl

end Sketch

namespace CommandLine

/-! ## Preparations -/

namespace Settings

variable {engine : Flow.Engine Measure} {s : Settings} {around : Surroundings}

/-- Settings of which none is left without a value. -/
structure Valued (s : Settings) : Prop where
  input : s.input.isSome
  output : s.output.isSome
  theme : s.theme ≠ some none
  level : s.level.isSome

/-- Settings for a drawing of moderate size: cells below `2 ^ 967` pixels, and fewer than `2 ^ 52`
columns and rows, as the engine draws them. -/
structure Moderate (engine : Flow.Engine Measure) (s : Settings) (around : Surroundings) :
    Prop where
  cells : ∀ spec width height, s.cell = some spec →
    Spec.cellSize spec.toList = .ok (width, height) → width < 2 ^ 967 ∧ height < 2 ^ 967
  drawing : ∀ text, (s.readInput around).result = .ok text → s.drawnKind.Moderate engine text

theorem told_need {α : Type} {switch : Switch} {value : Option α} (h : value.isSome) :
    Told (fun _ => True) (need switch value) := by
  obtain ⟨a, rfl⟩ := Option.isSome_iff_exists.1 h
  trivial

theorem told_formatName (h : s.output.isSome) : Told (fun _ => True) s.formatName := by
  unfold formatName
  split
  · split
    · exact (told_need (by simp_all)).map fun _ _ _ => trivial
    · trivial
  · exact (told_need (by simp_all)).map fun _ _ _ => trivial

theorem told_checkScale : Told (fun _ => True) s.checkScale := by
  unfold checkScale
  split
  · split
    · trivial
    · rfl
  · trivial

theorem told_readNumber (cs : List Char) : Told (fun _ => True) (Spec.readNumber cs) := by
  unfold Spec.readNumber
  split
  · trivial
  · rfl

theorem told_specCellSize (cs : List Char) : Told (fun _ => True) (Spec.cellSize cs) := by
  unfold Spec.cellSize
  split
  · split
    · exact (told_readNumber _).bind fun _ _ _ => trivial
    · rfl
  · split
    · exact (told_readNumber _).bind fun _ _ _ => (told_readNumber _).bind fun _ _ _ => trivial
    · rfl

/-- A cell size that is given was read from the settings. -/
theorem told_cellSize : Told (fun size => ∀ width height, size = some (width, height) →
    ∃ spec, s.cell = some spec ∧ Spec.cellSize spec.toList = .ok (width, height)) s.cellSize := by
  unfold cellSize
  split
  · rename_i spec hspec
    split
    · exact fun _ _ h => nomatch h
    · refine (told_specCellSize _).map fun size hsize _ width height h => ?_
      cases h
      exact ⟨spec, hspec, hsize⟩
  · exact fun _ _ h => nomatch h

theorem told_themeName (h : s.theme ≠ some none) : Told (fun _ => True) s.themeName := by
  unfold themeName
  match htheme : s.theme with
  | none | some (some _) => trivial
  | some none => exact absurd htheme h

theorem told_options (V : s.Valued) (M : s.Moderate engine around) :
    Told (fun o => o.cellSize.1.Moderate ∧ o.cellSize.2.Moderate) s.options := by
  unfold options
  refine (told_formatName V.output).bind fun format _ _ => ?_
  refine told_checkScale.bind fun _ _ _ => ?_
  refine told_cellSize.bind fun size _ hsize => ?_
  refine (told_themeName V.theme).bind fun theme _ _ => ?_
  refine Options.moderate_cellSize ?_ ?_
  · rintro m hm
    obtain ⟨⟨width, height⟩, rfl, rfl⟩ := Option.map_eq_some_iff.1 hm
    obtain ⟨spec, hspec, hread⟩ := hsize _ _ rfl
    exact Measure.moderate_whole (M.cells spec _ _ hspec hread).1
  · rintro m hm
    obtain ⟨⟨width, height⟩, rfl, rfl⟩ := Option.map_eq_some_iff.1 hm
    obtain ⟨spec, hspec, hread⟩ := hsize _ _ rfl
    exact Measure.moderate_whole (M.cells spec _ _ hspec hread).2

theorem told_readFile (fs : FileSystem) (p : FilePath) : Told (fun _ => True) (readFile fs p) := by
  unfold readFile
  refine FileSystem.told_file?.bind fun found _ _ => ?_
  split
  · rfl
  · exact (Told.mapError fun _ => rfl).map fun _ _ _ => trivial

theorem told_readInput (h : s.input.isSome) : Told (fun _ => True) (s.readInput around).result := by
  unfold readInput
  refine Told.report (told_need h) fun name _ _ => ?_
  split
  · trivial
  · refine Told.report FileSystem.told_isFolder fun there _ _ => ?_
    split
    · split
      · exact FileSystem.told_listing
      · rfl
    · exact told_readFile _ _

theorem told_checkOutput (h : s.output.isSome) (files : FileSystem) :
    Told (fun _ => True) (s.checkOutput files) := by
  unfold checkOutput
  refine (told_need h).bind fun name _ _ => ?_
  split
  · trivial
  · refine FileSystem.told_isFolder.bind fun folder _ _ => ?_
    cases folder
    · refine FileSystem.told_contains.bind fun there _ _ => ?_
      cases there
      · trivial
      · rfl
    · rfl

/-- All that comes before the first write is told. -/
theorem told_prepare (V : s.Valued) (M : s.Moderate engine around) :
    Told (fun _ => True) (s.prepare engine around).result := by
  unfold prepare
  refine Told.report (told_options V M) fun options _ hcells => ?_
  refine Told.report (Sketch.told_ofOptions hcells.1 hcells.2) fun sketch _ hsketch => ?_
  have hcheck : Told (fun _ => True) (sketch.checkRasterizer around.rasterizer.isSome).result := by
    unfold Sketch.checkRasterizer
    split
    · rfl
    · trivial
  refine hcheck.report fun _ _ _ => ?_
  refine (told_readInput V.input).report fun text htext _ => ?_
  refine Told.report (told_checkOutput V.output _) fun name _ _ => ?_
  refine (hsketch.told_drawText (M.drawing text htext) s.round).report fun drawn _ hdrawn => ?_
  refine Told.report (P := fun _ => True) trivial fun _ _ _ => ?_
  obtain ⟨document, hdocument⟩ := hdrawn.exists_document
  refine (Told.of_eq (P := fun _ => True) hdocument trivial).report fun document _ _ => ?_
  obtain ⟨output, houtput⟩ := hdrawn.exists_output name document (some (options.format.getD ""))
  exact Told.of_eq houtput trivial

end Settings

/-! ## Writing -/

/-- What is told is no abrupt end. -/
theorem Result.ofError_ne_aborted {e : Error} (h : e.isAbrupt = false) (other : Error) :
    ofError e ≠ .aborted other := by
  rw [ofError, if_neg (Bool.eq_false_iff.1 h)]
  exact nofun

namespace Surroundings

variable (around : Surroundings)

theorem writeText_ne_aborted (name content : String) (e : Error) :
    (around.writeText name content).result ≠ .aborted e := by
  have htold : Told _ (around.files.write (.ofText name.toList) content.toUTF8.toList) :=
    FileSystem.told_write _
  unfold writeText
  split
  · exact nofun
  · split
    · exact nofun
    · rename_i refusal hrefusal
      rw [hrefusal] at htold
      exact Result.ofError_ne_aborted htold e

theorem rasterize_ne_aborted (words : List String) (e : Error) :
    (around.rasterize words).result ≠ .aborted e := by
  unfold rasterize RasterizerRun.check
  dsimp only
  split
  · exact nofun
  · split
    · exact nofun
    · rename_i refusal hrefusal
      split at hrefusal
      · cases hrefusal
      · cases hrefusal
        exact Result.ofError_ne_aborted rfl e

theorem write_ne_aborted (output : Output) (e : Error) :
    (around.write output).result ≠ .aborted e := by
  cases output with
  | text name content => exact around.writeText_ne_aborted name content e
  | command words => exact around.rasterize_ne_aborted words e

end Surroundings

/-! ## Reports -/

/-- A line that tells of an error. -/
def IsErrorLine (line : String) : Prop := ∃ text, line = "error: " ++ text

/-- An outcome of which the user is told: the run is done and no line tells of an error, or it
failed and one line does, the last one, with the message of the error. -/
inductive Outcome.Reported (o : Outcome) (level : Level) : Prop
  | done (hresult : o.result = .done) (hlines : ∀ line ∈ o.messages level, ¬ IsErrorLine line)
  | failed {e : Error} {before : List String} (hresult : o.result = .failed e)
      (hlines : o.messages level = before ++ ["error: " ++ e.message])
      (hbefore : ∀ line ∈ before, ¬ IsErrorLine line)

theorem not_isErrorLine_notice (n : Notice) :
    ¬ IsErrorLine ("[" ++ n.level.name ++ "] " ++ n.message) := by
  rintro ⟨text, h⟩
  -- a notice starts with a bracket
  have hfirst := congrArg (fun line => line.toList.head?) h
  simp only [String.toList_append] at hfirst
  cases hfirst

/-- An outcome is reported unless the run ends abruptly. -/
theorem Outcome.reported {o : Outcome} (h : ∀ e, o.result ≠ .aborted e) (level : Level) :
    o.Reported level := by
  have hnotices : ∀ line ∈ (o.notices.filter fun n => level.rank ≤ n.level.rank).map fun n =>
      "[" ++ n.level.name ++ "] " ++ n.message, ¬ IsErrorLine line :=
    List.forall_mem_map.2 fun n _ => not_isErrorLine_notice n
  cases hresult : o.result with
  | aborted e => exact absurd hresult (h e)
  | done =>
      refine .done hresult ?_
      rw [messages, hresult, List.append_nil]
      exact hnotices
  | failed e =>
      refine .failed hresult ?_ hnotices
      rw [messages, hresult]

/-- A run of moderate size, in whose settings no value is missing, is reported: whatever it finds
and whether or not the engine fails, it is done, or it fails and tells the error in one line. -/
theorem run_reported {engine : Flow.Engine Measure} {s : Settings} {around : Surroundings}
    (hvalued : s.Valued) (hmoderate : s.Moderate engine around) :
    (run engine s around).Reported (s.level.getD .warning) := by
  refine Outcome.reported (fun e => ?_) _
  have htold := Settings.told_prepare hvalued hmoderate
  cases hprepared : (s.prepare engine around).result with
  | ok output =>
      rw [run_of_prepared hvalued.level hprepared]
      exact around.write_ne_aborted output e
  | error failure =>
      rw [hprepared] at htold
      rw [run_of_unprepared hvalued.level hprepared]
      exact Result.ofError_ne_aborted htold e

/-- The digits of a power of ten. -/
def powerOfTen (zeros : Nat) : List Char := '1' :: List.replicate zeros '0'

/-- Words for a diagram from the standard input in cells of such a size. -/
def wordsFor (zeros : Nat) : List String :=
  ["-i", "-", "-o", "-", "-f", "svg", "-c", String.ofList (powerOfTen zeros)]

def settingsFor (zeros : Nat) : Settings where
  input := some "-"
  output := some "-"
  format := some "svg"
  cell := some (String.ofList (powerOfTen zeros))

theorem ofWords_wordsFor (zeros : Nat) :
    Settings.ofWords (wordsFor zeros) = .ok (settingsFor zeros) := by
  have hwords : (wordsFor zeros).map String.toList = [['-', 'i'], ['-'], ['-', 'o'], ['-'],
      ['-', 'f'], ['s', 'v', 'g'], ['-', 'c'], powerOfTen zeros] := by
    simp [wordsFor]
  rw [Settings.ofWords, hwords, powerOfTen]
  rfl

theorem options_settingsFor {zeros n : Nat} (h : Spec.cellSize (powerOfTen zeros) = .ok (n, n)) :
    (settingsFor zeros).options =
      .ok { cellWidth := some (.whole n), cellHeight := some (.whole n) } := by
  have hsize : (settingsFor zeros).cellSize = .ok (some (n, n)) := by
    have hfull : (String.ofList (powerOfTen zeros)).isEmpty = false := by
      simp [powerOfTen]
    rw [Settings.cellSize, settingsFor]
    dsimp only
    rw [hfull, String.toList_ofList, h]
    rfl
  rw [Settings.options, hsize]
  rfl

theorem run_reported_largeCells : ∃ s, Settings.ofWords (wordsFor 290) = .ok s ∧ s.Valued ∧
    s.Moderate stacked (reading "-->".toList) ∧
    (run stacked s (reading "-->".toList)).Reported .warning ∧
    flowSettings.Moderate stacked (reading "a -> b".toList) ∧
    (run stacked flowSettings (reading "a -> b".toList)).Reported .warning := by
  have hspec : Spec.cellSize (powerOfTen 290) = .ok (10 ^ 290, 10 ^ 290) := by decide +kernel
  have hvalued : (settingsFor 290).Valued := ⟨rfl, rfl, nofun, rfl⟩
  have hmoderate : (settingsFor 290).Moderate stacked (reading "-->".toList) := by
    refine ⟨fun spec width height hcell hsize => ?_, fun text htext => ?_⟩
    · obtain rfl := Option.some.inj hcell
      rw [String.toList_ofList, hspec] at hsize
      obtain ⟨rfl, rfl⟩ := Prod.mk.inj (Except.ok.inj hsize)
      have hsmall : 10 ^ 290 < 2 ^ 967 := by decide +kernel
      exact ⟨hsmall, hsmall⟩
    · obtain rfl := Except.ok.inj htext
      exact ⟨by decide +kernel, by decide +kernel⟩
  have hflow : flowSettings.Moderate stacked (reading "a -> b".toList) := by
    refine ⟨nofun, fun text htext g hparse => ?_⟩
    obtain rfl := Except.ok.inj htext
    obtain rfl := Except.ok.inj (hparse.symm.trans parse_pair)
    have hcomponents : pair.components stacked = [[0, 1]] := by decide
    refine ⟨⟨by decide, fun c hc centre hcentre v hv => ?_⟩, fun l hl => ?_⟩
    · obtain rfl := Except.ok.inj hcentre
      obtain rfl := List.mem_singleton.1 (hcomponents ▸ hc)
      have hv : v < 2 := hv
      exact ⟨Measure.moderate_whole (n := 0) (by positivity),
        Measure.moderate_half (w := 12 * v + 3) (by omega)⟩
    · obtain rfl := Except.ok.inj (hl.symm.trans (Flow.result_of_drawnBy drawnBy_pair))
      exact size_pair
  exact ⟨_, ofWords_wordsFor 290, hvalued, hmoderate, run_reported hvalued hmoderate, hflow,
    run_reported ⟨rfl, rfl, nofun, rfl⟩ hflow⟩

/-- A run that draws no flow is the same with every engine. -/
theorem run_eq_of_ne_flow {α β : Type} [Scalar α] [Scalar β] (engine : Flow.Engine α)
    (other : Flow.Engine β) {s : Settings} (h : s.drawnKind ≠ .flow) (around : Surroundings) :
    run engine s around = run other s around := by
  have hprepare : s.prepare engine around = s.prepare other around := by
    unfold Settings.prepare Sketch.drawText
    simp only [Kind.primitives_eq_of_ne_flow engine other h]
  unfold run
  rw [hprepare]

/-- Cells of a size that is no double end a run abruptly, and so do cells for which the drawing is
too large. -/
theorem not_reported_hugeCells : ∃ s t,
    Settings.ofWords (wordsFor 309) = .ok s ∧ Settings.ofWords (wordsFor 308) = .ok t ∧
      ∀ engine : Flow.Engine Measure,
        (run engine s (reading "-->".toList)).result = .aborted (.number .tooLarge) ∧
        ¬ (run engine s (reading "-->".toList)).Reported .warning ∧
        (run engine t (reading "-->".toList)).result = .aborted (.number .infinite) ∧
        ¬ (run engine t (reading "-->".toList)).Reported .warning := by
  have habrupt {o : Outcome} {e : Error} (h : o.result = .aborted e) : ¬ o.Reported .warning := by
    rintro (⟨hdone, -⟩ | ⟨hfailed, -⟩)
    · cases h.symm.trans hdone
    · cases h.symm.trans hfailed
  refine ⟨_, _, ofWords_wordsFor 309, ofWords_wordsFor 308, fun engine => ?_⟩
  have hlarge : (run engine (settingsFor 309) (reading "-->".toList)).result =
      .aborted (.number .tooLarge) := by
    rw [run_eq_of_ne_flow engine stacked (by decide), run, Settings.prepare,
      options_settingsFor (n := 10 ^ 309) (by decide +kernel)]
    decide +kernel
  have hinfinite : (run engine (settingsFor 308) (reading "-->".toList)).result =
      .aborted (.number .infinite) := by
    rw [run_eq_of_ne_flow engine stacked (by decide), run, Settings.prepare,
      options_settingsFor (n := 10 ^ 308) (by decide +kernel)]
    decide +kernel
  exact ⟨hlarge, habrupt hlarge, hinfinite, habrupt hinfinite⟩

end CommandLine

end CellSketch
