import CellSketch.CommandLine.Run
import CellSketch.Proofs.Files.NewFile

/-!
# Untouched — what a run does to files

All that can fail, the engine that draws flows included, comes before the one write, and the write
comes after the check that nothing has the name of the output.

* `CommandLine.Settings.output_of_prepare` — where a run that gets to its write writes to;
* `CommandLine.Surroundings.writeText_created` — a text ends up on the standard output or in a new
  file;
* `CommandLine.run_leaves_files` — a failing run leaves no trace, and one that succeeds adds at most
  the output.
-/

namespace CellSketch

namespace CommandLine

open Number

variable {s : Settings} {around : Surroundings} {name : String}

theorem Settings.need_eq_ok_iff {α : Type} {switch : Switch} {value : Option α} {a : α} :
    need switch value = .ok a ↔ value = some a := by
  cases value <;> simp [need]

/-- The check of the output passes for the standard output and for what leads nowhere. -/
theorem Settings.of_checkOutput {files : FileSystem} (h : s.checkOutput files = .ok name) :
    s.output = some name ∧
      (name = standardStream ∨ files.contains (.ofText name.toList) = .ok false) := by
  simp only [checkOutput, Bind.bind, Except.bind] at h
  split at h
  · cases h
  rename_i given hneed
  rw [need_eq_ok_iff] at hneed
  split at h
  · cases h
    exact ⟨hneed, .inl (by assumption)⟩
  split at h
  · cases h
  split at h
  · cases h
  split at h
  · cases h
  rename_i there hthere
  cases there with
  | true => cases h
  | false =>
      cases h
      exact ⟨hneed, .inr hthere⟩

/-- Preparations that succeed have passed the check of the output. -/
theorem Settings.output_of_prepare {α : Type} [Scalar α] {engine : Flow.Engine α}
    {output : Output} (h : (s.prepare engine around).result = .ok output) :
    ∃ name, s.checkOutput around.files = .ok name ∧
      ((∃ content, output = .text name content) ∨ ∃ words, output = .command words) := by
  unfold prepare at h
  obtain ⟨options, -, h⟩ := Report.exists_of_result_bind h
  obtain ⟨sketch, -, h⟩ := Report.exists_of_result_bind h
  obtain ⟨-, -, h⟩ := Report.exists_of_result_bind h
  obtain ⟨text, -, h⟩ := Report.exists_of_result_bind h
  obtain ⟨name, hname, h⟩ := Report.exists_of_result_bind h
  obtain ⟨drawn, -, h⟩ := Report.exists_of_result_bind h
  obtain ⟨-, -, h⟩ := Report.exists_of_result_bind h
  obtain ⟨document, -, h⟩ := Report.exists_of_result_bind h
  refine ⟨name, hname, ?_⟩
  change drawn.output name document _ = _ at h
  unfold Sketch.output at h
  split at h
  · cases hwords : drawn.command name document (some (options.format.getD "")) with
    | error e =>
        rw [hwords] at h
        cases h
    | ok words =>
        rw [hwords] at h
        cases h
        exact .inr ⟨words, rfl⟩
  · cases h
    exact .inl ⟨_, rfl⟩

namespace Surroundings

/-- A text that cannot be written leaves no trace. -/
theorem writeText_failed (content : String)
    (h : (around.writeText name content).result.status ≠ 0) :
    (around.writeText name content).files = around.files ∧
      (around.writeText name content).output = "" := by
  unfold writeText at h ⊢
  split
  · rw [if_pos (by assumption)] at h
    exact absurd rfl h
  · rw [if_neg (by assumption)] at h
    split
    · rename_i hwrite
      rw [hwrite] at h
      exact absurd rfl h
    · exact ⟨rfl, rfl⟩

/-- A text goes to the standard output or to a new file, if the output passed its check. -/
theorem writeText_created {content : String}
    (hname : name = standardStream ∨ around.files.contains (.ofText name.toList) = .ok false) :
    (around.writeText name content).files = around.files ∨
      name ≠ standardStream ∧
        FileSystem.Created around.files (around.writeText name content).files
          (.ofText name.toList) content.toUTF8.toList := by
  unfold writeText
  split
  · exact .inl rfl
  · rename_i hother
    split
    · rename_i hwrite
      exact .inr ⟨hother, FileSystem.created_of_write (hname.resolve_left hother) hwrite⟩
    · exact .inl rfl

end Surroundings

/-- A run that fails changes no file and writes nothing to the standard output.  One that succeeds
leaves all files as they are, or it creates the file that the output names. -/
theorem run_leaves_files {α : Type} [Scalar α] (engine : Flow.Engine α) (s : Settings)
    (around : Surroundings) :
    ((run engine s around).result.status ≠ 0 →
      (run engine s around).files = around.files ∧ (run engine s around).output = "") ∧
    ((run engine s around).result.status = 0 →
      ∃ name, s.output = some name ∧
        ((run engine s around).files = around.files ∨
          name ≠ standardStream ∧ ∃ content,
            FileSystem.Created around.files (run engine s around).files (.ofText name.toList)
              content)) := by
  unfold run
  dsimp only
  split
  · rename_i output hprepared
    obtain ⟨-, -, hprepared⟩ := Report.exists_of_result_bind hprepared
    obtain ⟨name, hcheck, hwhere⟩ := Settings.output_of_prepare hprepared
    obtain ⟨hname, hfree⟩ := Settings.of_checkOutput hcheck
    rcases hwhere with ⟨content, rfl⟩ | ⟨words, rfl⟩
    · exact ⟨Surroundings.writeText_failed content, fun _ =>
        ⟨name, hname, (Surroundings.writeText_created hfree).imp_right
          fun ⟨hother, hnew⟩ => ⟨hother, _, hnew⟩⟩⟩
    · exact ⟨fun _ => ⟨rfl, rfl⟩, fun _ => ⟨name, hname, .inl rfl⟩⟩
  · rename_i e hfailed
    have hstatus : (Result.ofError e).status ≠ 0 := by
      unfold Result.ofError
      split <;> exact Nat.one_ne_zero
    exact ⟨fun _ => ⟨rfl, rfl⟩, fun hdone => absurd hdone hstatus⟩

end CommandLine
end CellSketch
