import Mathlib.Data.List.Nodup
import CellSketch.Proofs.Scan.Maximal

/-!
# Findings — a scan finds the whole runs, and nothing else

What a cell of a grid is painted with depends on the cell and its neighbours only.  The items of a
scan are then given by the painted cells: a text or a line is found exactly when its cells are
painted and no part of it is missing at its ends.

* `Whole` — a text or a line that no painted cell next to its ends belongs to;
* `LineRun.Whole.eq_of_mem`, `TextRun.Whole.eq_of_mem` — whole items that share a cell are the same;
* `mem_marks_iff`, `mem_texts_iff`, `mem_lines_iff` — the items of a scan are the whole ones;
* `nodup_findings` — each of them is found once.
-/

namespace CellSketch

open Scan

/-! ## Painted cells of a grid -/

/-- What the cells of a grid are painted with. -/
def Painted (read : Char → Neighbors → Reading) (g : Grid) (p : Paint) : Prop :=
  ∃ c, g.at? p.cell = some c ∧ p ∈ contribution read g (p.cell, c)

/-- A cell shows one character. -/
def SingleChar (P : Paint → Prop) : Prop := ∀ p q, P p → P q → p.cell = q.cell → p.char = q.char

section Painted

variable {read : Char → Neighbors → Reading} {g : Grid} {p : Paint}

theorem mem_paints_ofGrid (hread : Faithful read) :
    p ∈ (Scan.ofGrid read g).paints ↔ Painted read g p := by
  rw [(follows_ofGrid hread g).mem_paints]
  constructor
  · rintro ⟨⟨cell, c⟩, hentry, hp⟩
    obtain rfl : p.cell = cell := cell_of_mem_contribution hp
    exact ⟨c, Grid.mem_cells.1 hentry, hp⟩
  · rintro ⟨c, hat, hp⟩
    exact ⟨(p.cell, c), Grid.mem_cells.2 hat, hp⟩

theorem Painted.at? (hread : Faithful read) (h : Painted read g p) :
    g.at? p.cell = some p.char ∧ Text.isBlank p.char = false := by
  obtain ⟨c, hat, hp⟩ := h
  obtain ⟨hchar, hblank⟩ := hread.of_mem_contribution hp
  rw [hchar]
  exact ⟨hat, hblank⟩

theorem singleChar_painted (hread : Faithful read) : SingleChar (Painted read g) := by
  intro p q hp hq hcell
  have hat := (hp.at? hread).1
  rw [hcell, (hq.at? hread).1, Option.some.injEq] at hat
  exact hat.symm

end Painted

/-! ## Whole items -/

namespace TextRun

theorem mem_paints {t : TextRun} {p : Paint} :
    p ∈ t.paints ↔ ∃ (i : Nat) (c : Char), t.text[i]? = some c ∧
      p = ⟨⟨t.cell.x + i, t.cell.y⟩, .text, c⟩ := by
  rw [paints, List.mem_map]
  constructor
  · rintro ⟨⟨c, i⟩, hmem, rfl⟩
    exact ⟨i, c, List.mem_zipIdx_iff_getElem?.1 hmem, rfl⟩
  · rintro ⟨i, c, hc, rfl⟩
    exact ⟨(c, i), List.mem_zipIdx_iff_getElem?.2 hc, rfl⟩

theorem ink_of_mem_paints {t : TextRun} {p : Paint} (h : p ∈ t.paints) : p.ink = .text := by
  obtain ⟨_, _, -, rfl⟩ := mem_paints.1 h
  rfl

/-- A text whose characters are painted, and no character is painted next to its ends. -/
structure Whole (P : Paint → Prop) (t : TextRun) : Prop where
  written : t.text ≠ []
  painted : ∀ p ∈ t.paints, P p
  ends : ∀ p, P p → p.ink = .text → p.cell.y = t.cell.y →
    p.cell.x ≠ t.cell.x - 1 ∧ p.cell.x ≠ t.stop

namespace Whole

variable {P : Paint → Prop} {t u : TextRun}

/-- A text is painted in every one of its cells. -/
theorem exists_paint (h : t.Whole P) {x : Int} (hfirst : t.cell.x ≤ x) (hstop : x < t.stop) :
    ∃ c, P ⟨⟨x, t.cell.y⟩, .text, c⟩ ∧ t.text[(x - t.cell.x).toNat]? = some c := by
  have hlt : (x - t.cell.x).toNat < t.text.length := by
    rw [stop] at hstop
    omega
  refine ⟨t.text[(x - t.cell.x).toNat], ?_, List.getElem?_eq_getElem hlt⟩
  have hmem := h.painted _ (mem_paints_of_lt hlt)
  rwa [show t.cell.x + ((x - t.cell.x).toNat : Int) = x by omega] at hmem

/-- A whole text reaches over no part of another one at its ends. -/
theorem bounds_le (h : t.Whole P) (h' : u.Whole P) {x : Int} (hrow : t.cell.y = u.cell.y)
    (ht : t.cell.x ≤ x ∧ x < t.stop) (hu : u.cell.x ≤ x ∧ x < u.stop) :
    t.cell.x ≤ u.cell.x ∧ u.stop ≤ t.stop := by
  constructor
  · by_contra hlt
    obtain ⟨c, hp, -⟩ := h'.exists_paint (x := t.cell.x - 1) (by omega) (by omega)
    exact (h.ends _ hp rfl hrow.symm).1 rfl
  · by_contra hlt
    obtain ⟨c, hp, -⟩ := h'.exists_paint (x := t.stop) (by omega) (by omega)
    exact (h.ends _ hp rfl hrow.symm).2 rfl

/-- Whole texts that share a cell are the same. -/
theorem eq_of_mem (hP : SingleChar P) (h : t.Whole P) (h' : u.Whole P) {p q : Paint}
    (hp : p ∈ t.paints) (hq : q ∈ u.paints) (hcell : p.cell = q.cell) : t = u := by
  obtain ⟨i, c, hc, rfl⟩ := mem_paints.1 hp
  obtain ⟨j, d, hd, rfl⟩ := mem_paints.1 hq
  simp only [Cell.mk.injEq] at hcell
  obtain ⟨hx, hrow⟩ := hcell
  have hi := (List.getElem?_eq_some_iff.1 hc).1
  have hj := (List.getElem?_eq_some_iff.1 hd).1
  have htx : t.cell.x ≤ t.cell.x + i ∧ t.cell.x + i < t.stop := by
    rw [stop]
    omega
  have hux : u.cell.x ≤ t.cell.x + i ∧ t.cell.x + i < u.stop := by
    rw [stop]
    omega
  have htu := h.bounds_le h' hrow htx hux
  have hut := h'.bounds_le h hrow.symm hux htx
  have hfirst : t.cell = u.cell := by
    cases hcell : t.cell
    cases hcell' : u.cell
    rw [hcell, hcell'] at hrow htu hut
    rw [Cell.mk.injEq]
    exact ⟨by dsimp only at htu hut; omega, hrow⟩
  have htext : t.text = u.text := by
    have hlength : t.text.length = u.text.length := by
      simp only [stop, hfirst] at htu hut
      omega
    refine List.ext_getElem hlength fun k hk hk' => ?_
    exact hP _ _ (h.painted _ (mem_paints_of_lt hk)) (h'.painted _ (mem_paints_of_lt hk'))
      (by rw [hfirst])
  cases t
  cases u
  cases hfirst
  cases htext
  rfl

end Whole
end TextRun

namespace LineRun

/-- A line that is painted as it is, and no part of it is painted next to its ends: what follows
there is parted from it by a head. -/
structure Whole (P : Paint → Prop) (l : LineRun) : Prop where
  solid : l.first ≤ l.last ∧ (l.arrow.atEnd = true → l.first < l.last)
  painted : ∀ p ∈ l.paints, P p
  start : ∀ p, P p → p.ink = .line l.axis → l.axis.lane p.cell = l.lane →
    l.axis.position p.cell = l.first - 1 → p.char = l.axis.closingChar ∨ l.arrow.atStart = true
  stop : ∀ p, P p → p.ink = .line l.axis → l.axis.lane p.cell = l.lane →
    l.axis.position p.cell = l.last + 1 → l.arrow.atEnd = true ∨ p.char = l.axis.openingChar

theorem atStart_of_charAt {l : LineRun} {cell : Cell} (h : l.charAt cell = l.axis.openingChar) :
    l.arrow.atStart = true ∧ l.axis.position cell = l.first := by
  rw [charAt] at h
  split at h
  · assumption
  · exfalso
    revert h
    split <;> cases l.axis <;> decide

theorem position_of_charAt {l : LineRun} {cell : Cell} (h : l.charAt cell = l.axis.closingChar) :
    l.axis.position cell = l.last := by
  have hend := atEnd_of_charAt h
  by_contra hne
  rw [charAt, if_neg fun hclosed : l.arrow.atEnd = true ∧ _ => hne hclosed.2] at h
  revert h
  split <;> cases l.axis <;> simp [Axis.openingChar, Axis.closingChar, Axis.shaftChar]

theorem charAt_first {l : LineRun} (h : l.arrow.atStart = true) :
    l.charAt (l.axis.cellAt l.lane l.first) = l.axis.openingChar := by
  simp [charAt, h]

theorem charAt_last {l : LineRun} (h : l.arrow.atEnd = true → l.first < l.last)
    (hend : l.arrow.atEnd = true) :
    l.charAt (l.axis.cellAt l.lane l.last) = l.axis.closingChar := by
  have hne : l.last ≠ l.first := (h hend).ne'
  simp [charAt, hend, hne]

theorem cellAt_mem_cells {l : LineRun} {k : Int} :
    l.axis.cellAt l.lane k ∈ l.cells ↔ l.first ≤ k ∧ k ≤ l.last := by
  rw [mem_cells, Axis.lane_cellAt, Axis.position_cellAt]
  exact and_iff_right rfl

namespace Whole

variable {P : Paint → Prop} {l m : LineRun}

/-- A line is painted in every one of its cells. -/
theorem paint (h : l.Whole P) {cell : Cell} (hcell : cell ∈ l.cells) :
    P ⟨cell, .line l.axis, l.charAt cell⟩ := h.painted _ (mem_paints.2 ⟨hcell, rfl, rfl⟩)

theorem charAt_eq (hP : SingleChar P) (h : l.Whole P) (h' : m.Whole P) {cell : Cell}
    (hl : cell ∈ l.cells) (hm : cell ∈ m.cells) : l.charAt cell = m.charAt cell :=
  hP _ _ (h.paint hl) (h'.paint hm) rfl

/-- A whole line reaches as far as another one of its lane that it shares a position with. -/
theorem bounds_le (hP : SingleChar P) (h : l.Whole P) (h' : m.Whole P) (haxis : l.axis = m.axis)
    (hlane : l.lane = m.lane) {k : Int} (hl : l.first ≤ k ∧ k ≤ l.last)
    (hm : m.first ≤ k ∧ k ≤ m.last) : l.first ≤ m.first ∧ m.last ≤ l.last := by
  have hcell {j : Int} (hj : m.first ≤ j ∧ j ≤ m.last) : l.axis.cellAt l.lane j ∈ m.cells := by
    rw [haxis, hlane]
    exact cellAt_mem_cells.2 hj
  have hpaint {j : Int} (hj : m.first ≤ j ∧ j ≤ m.last) :
      P ⟨l.axis.cellAt l.lane j, .line l.axis, m.charAt (l.axis.cellAt l.lane j)⟩ := by
    have hp := h'.paint (hcell hj)
    rwa [← haxis] at hp
  constructor
  · -- else the cell before the first one is painted, and no head parts it from the line
    by_contra hlt
    have hmem := hcell (j := l.first) (by omega)
    rcases h.start _ (hpaint (j := l.first - 1) (by omega)) rfl (by simp) (by simp) with
      hclosed | hstart
    · rw [haxis] at hclosed
      have hlast := position_of_charAt hclosed
      rw [Axis.position_cellAt] at hlast
      omega
    · have hopened := charAt_eq hP h h' (cellAt_mem_cells.2 (by omega)) hmem
      rw [charAt_first hstart] at hopened
      have hfirst := (atStart_of_charAt (hopened.symm.trans (by rw [haxis]))).2
      rw [haxis, Axis.position_cellAt] at hfirst
      omega
  · by_contra hlt
    have hmem := hcell (j := l.last) (by omega)
    rcases h.stop _ (hpaint (j := l.last + 1) (by omega)) rfl (by simp) (by simp) with
      hend | hopened
    · have hclosed := charAt_eq hP h h' (cellAt_mem_cells.2 (by omega)) hmem
      rw [charAt_last h.solid.2 hend] at hclosed
      have hlast := position_of_charAt (hclosed.symm.trans (by rw [haxis]))
      rw [haxis, Axis.position_cellAt] at hlast
      omega
    · rw [haxis] at hopened
      have hfirst := (atStart_of_charAt hopened).2
      rw [Axis.position_cellAt] at hfirst
      omega

/-- Two whole lines over the same cells have the same heads. -/
theorem eq_of_bounds (hP : SingleChar P) (h : l.Whole P) (h' : m.Whole P) (haxis : l.axis = m.axis)
    (hlane : l.lane = m.lane) (hfirst : l.first = m.first) (hlast : l.last = m.last) : l = m := by
  have hsolid := h.solid.1
  -- the heads are the characters at the ends
  have hends {j : Int} (hj : l.first ≤ j ∧ j ≤ l.last) :
      l.charAt (l.axis.cellAt l.lane j) = m.charAt (m.axis.cellAt m.lane j) := by
    have hmem : m.axis.cellAt m.lane j ∈ m.cells := cellAt_mem_cells.2 (by omega)
    have heq : l.axis.cellAt l.lane j = m.axis.cellAt m.lane j := by rw [haxis, hlane]
    rw [← heq] at hmem ⊢
    exact charAt_eq hP h h' (cellAt_mem_cells.2 hj) hmem
  have hstart : l.arrow.atStart = m.arrow.atStart := by
    have hchar := hends (j := l.first) (by omega)
    rw [Bool.eq_iff_iff]
    constructor
    · intro hatStart
      rw [charAt_first hatStart, haxis] at hchar
      exact (atStart_of_charAt hchar.symm).1
    · intro hatStart
      rw [hfirst, charAt_first hatStart, ← hfirst, ← haxis] at hchar
      exact (atStart_of_charAt hchar).1
  have hend : l.arrow.atEnd = m.arrow.atEnd := by
    have hchar := hends (j := l.last) (by omega)
    rw [Bool.eq_iff_iff]
    constructor
    · intro hatEnd
      rw [charAt_last h.solid.2 hatEnd, haxis] at hchar
      exact atEnd_of_charAt hchar.symm
    · intro hatEnd
      rw [hlast, charAt_last h'.solid.2 hatEnd, ← hlast, ← haxis] at hchar
      exact atEnd_of_charAt hchar
  obtain ⟨axis, lane, first, last, atStart, atEnd⟩ := l
  obtain ⟨axis', lane', first', last', atStart', atEnd'⟩ := m
  simp only at haxis hlane hfirst hlast hstart hend
  subst haxis hlane hfirst hlast hstart hend
  rfl

/-- Whole lines that share a cell are the same. -/
theorem eq_of_mem (hP : SingleChar P) (h : l.Whole P) (h' : m.Whole P) (haxis : l.axis = m.axis)
    {cell : Cell} (hl : cell ∈ l.cells) (hm : cell ∈ m.cells) : l = m := by
  have hl' := mem_cells.1 hl
  have hm' := mem_cells.1 hm
  rw [← haxis] at hm'
  have hlane : l.lane = m.lane := hl'.1.symm.trans hm'.1
  have hlm := h.bounds_le hP h' haxis hlane hl'.2 hm'.2
  have hml := h'.bounds_le hP h haxis.symm hlane.symm hm'.2 hl'.2
  exact h.eq_of_bounds hP h' haxis hlane (by omega) (by omega)

end Whole
end LineRun

/-! ## The items of a scan -/

section Items

variable {read : Char → Neighbors → Reading} {g : Grid}

theorem whole_of_mem_texts (hread : Faithful read) {t : TextRun}
    (ht : t ∈ (Scan.ofGrid read g).texts) : t.Whole (Painted read g) := by
  have O := ordered_ofGrid hread g
  refine ⟨O.written t ht, fun p hp => ?_, fun p hp hink hrow => ?_⟩
  · exact (mem_paints_ofGrid hread).1 (Scan.mem_paints.2 (Or.inr (Or.inl ⟨t, ht, hp⟩)))
  · -- the text that this character belongs to lies apart
    rcases Scan.mem_paints.1 ((mem_paints_ofGrid hread).2 hp) with
      ⟨m, -, rfl⟩ | ⟨u, hu, hpu⟩ | ⟨l, -, hpl⟩
    · cases hink
    · obtain ⟨i, c, hc, rfl⟩ := TextRun.mem_paints.1 hpu
      have hi := (List.getElem?_eq_some_iff.1 hc).1
      have hlength := List.length_pos_iff.2 (O.written t ht)
      dsimp only at hrow
      by_cases htu : t = u
      · subst htu
        simp only [TextRun.stop]
        omega
      · have hapart := O.texts.rel_or_rel ht hu htu
        rcases hapart with hrel | hrel
        · have hlt := hrel.apart hrow.symm
          simp only [TextRun.stop] at hlt ⊢
          omega
        · have hlt := hrel.apart hrow
          simp only [TextRun.stop] at hlt ⊢
          omega
    · cases (LineRun.mem_paints.1 hpl).2.1.symm.trans hink

/-- A text is found exactly when it is whole. -/
theorem mem_texts_iff (hread : Faithful read) {t : TextRun} :
    t ∈ (Scan.ofGrid read g).texts ↔ t.Whole (Painted read g) := by
  refine ⟨whole_of_mem_texts hread, fun h => ?_⟩
  have hmem := TextRun.mem_paints_of_lt (List.length_pos_iff.2 h.written)
  rcases Scan.mem_paints.1 ((mem_paints_ofGrid hread).2 (h.painted _ hmem)) with
    ⟨m, -, hm⟩ | ⟨u, hu, hpu⟩ | ⟨l, -, hpl⟩
  · cases congrArg Paint.ink hm
  · rwa [h.eq_of_mem (singleChar_painted hread) (whole_of_mem_texts hread hu) hmem hpu rfl]
  · cases (LineRun.mem_paints.1 hpl).2.1

theorem whole_of_mem_lines (hread : Faithful read) {l : LineRun}
    (hl : l ∈ (Scan.ofGrid read g).lines) : l.Whole (Painted read g) := by
  have O := ordered_ofGrid hread g
  have hsolid := (follows_ofGrid hread g).indexed.solid
  -- the line that a part next to the ends belongs to
  have hother {p : Paint} (hp : Painted read g p) (hink : p.ink = .line l.axis)
      (hlane : l.axis.lane p.cell = l.lane) :
      ∃ m ∈ (Scan.ofGrid read g).lines, m.axis = l.axis ∧ m.lane = l.lane ∧
        m.first ≤ l.axis.position p.cell ∧ l.axis.position p.cell ≤ m.last ∧
        p.char = m.charAt p.cell := by
    obtain ⟨m, hm, hpm⟩ := exists_line_of_mem_paints ((mem_paints_ofGrid hread).2 hp) hink
    obtain ⟨hcell, hmink, hchar⟩ := LineRun.mem_paints.1 hpm
    have haxis : m.axis = l.axis := by simpa using hmink.symm.trans hink
    rw [LineRun.mem_cells, haxis, hlane] at hcell
    exact ⟨m, hm, haxis, hcell.1.symm, hcell.2.1, hcell.2.2, hchar⟩
  refine ⟨hsolid l hl, fun p hp => ?_, fun p hp hink hlane hposition => ?_,
    fun p hp hink hlane hposition => ?_⟩
  · exact (mem_paints_ofGrid hread).1 (Scan.mem_paints.2 (Or.inr (Or.inr ⟨l, hl, hp⟩)))
  · obtain ⟨m, hm, haxis, hmlane, hfirst, hlast, hchar⟩ := hother hp hink hlane
    have hne : l ≠ m := by
      rintro rfl
      omega
    have hlsolid := (hsolid l hl).1
    rcases O.lines.rel_or_rel hl hm hne with hrel | hrel
    · have hapart := hrel.apart haxis.symm hmlane.symm
      omega
    · have hapart := hrel.apart haxis hmlane
      rcases hrel.parted haxis hmlane (by omega) with hend | hstart
      · left
        have hcell : p.cell = m.axis.cellAt m.lane m.last := by
          rw [← Axis.cellAt_lane_position l.axis p.cell, hlane, haxis, hmlane]
          congr 1
          omega
        rw [hchar, hcell, LineRun.charAt_last (hsolid m hm).2 hend, haxis]
      · exact Or.inr hstart
  · obtain ⟨m, hm, haxis, hmlane, hfirst, hlast, hchar⟩ := hother hp hink hlane
    have hne : l ≠ m := by
      rintro rfl
      omega
    have hlsolid := (hsolid l hl).1
    rcases O.lines.rel_or_rel hl hm hne with hrel | hrel
    · have hapart := hrel.apart haxis.symm hmlane.symm
      rcases hrel.parted haxis.symm hmlane.symm (by omega) with hend | hstart
      · exact Or.inl hend
      · right
        have hcell : p.cell = m.axis.cellAt m.lane m.first := by
          rw [← Axis.cellAt_lane_position l.axis p.cell, hlane, haxis, hmlane]
          congr 1
          omega
        rw [hchar, hcell, LineRun.charAt_first hstart, haxis]
    · have hapart := hrel.apart haxis hmlane
      omega

/-- A line is found exactly when it is whole. -/
theorem mem_lines_iff (hread : Faithful read) {l : LineRun} :
    l ∈ (Scan.ofGrid read g).lines ↔ l.Whole (Painted read g) := by
  refine ⟨whole_of_mem_lines hread, fun h => ?_⟩
  have hcell : l.axis.cellAt l.lane l.first ∈ l.cells :=
    LineRun.cellAt_mem_cells.2 ⟨le_refl _, h.solid.1⟩
  obtain ⟨m, hm, hpm⟩ := exists_line_of_mem_paints ((mem_paints_ofGrid hread).2 (h.paint hcell)) rfl
  obtain ⟨hmcell, hink, -⟩ := LineRun.mem_paints.1 hpm
  have haxis : l.axis = m.axis := by simpa using hink
  rwa [h.eq_of_mem (singleChar_painted hread) (whole_of_mem_lines hread hm) haxis hcell hmcell]

theorem Mark.eq_of_paint {m m' : Mark} (h : m.paint = m'.paint) : m = m' := by
  obtain ⟨cell, form⟩ := m
  obtain ⟨cell', form'⟩ := m'
  simp only [Mark.paint, Paint.mk.injEq, Ink.mark.injEq] at h
  obtain ⟨rfl, rfl, -⟩ := h
  rfl

/-- A mark is found exactly where it is painted. -/
theorem mem_marks_iff (hread : Faithful read) {m : Mark} :
    m ∈ (Scan.ofGrid read g).marks ↔ Painted read g m.paint := by
  rw [← mem_paints_ofGrid hread, Scan.mem_paints]
  constructor
  · exact fun hm => Or.inl ⟨m, hm, rfl⟩
  · rintro (⟨m', hm', hpaint⟩ | ⟨t, -, hp⟩ | ⟨l, -, hp⟩)
    · rwa [Mark.eq_of_paint hpaint]
    · cases TextRun.ink_of_mem_paints hp
    · cases (LineRun.mem_paints.1 hp).2.1

/-! ## Each item once -/

theorem Faithful.nodup_contribution (hread : Faithful read) (entry : Cell × Char) :
    (contribution read g entry).Nodup := by
  rcases hread.contribution_cases (g := g) entry.1 entry.2 with
    ⟨-, heq⟩ | ⟨-, ⟨ink, heq⟩ | ⟨a, b, hne, heq⟩⟩
  all_goals
    rw [heq]
  · exact List.nodup_nil
  · exact List.nodup_singleton _
  · simpa using hne

theorem nodup_paints (hread : Faithful read) : (Scan.ofGrid read g).paints.Nodup := by
  rw [(follows_ofGrid hread g).paints.nodup_iff, List.nodup_flatMap]
  refine ⟨fun entry _ => hread.nodup_contribution entry, g.pairwise_cells.imp ?_⟩
  intro a b hbefore p hpa hpb
  rw [← cell_of_mem_contribution hpa, cell_of_mem_contribution hpb] at hbefore
  exact hbefore.asymm hbefore

/-- No item of a scan is found twice. -/
theorem nodup_findings (hread : Faithful read) :
    (Scan.ofGrid read g).marks.toList.Nodup ∧ (Scan.ofGrid read g).texts.toList.Nodup ∧
      (Scan.ofGrid read g).lines.toList.Nodup := by
  have O := ordered_ofGrid hread g
  refine ⟨?_, O.texts.pairwise.imp ?_, O.lines.pairwise.imp ?_⟩
  · have hpaints := nodup_paints (g := g) hread
    rw [Scan.paints, List.append_assoc] at hpaints
    exact (List.Nodup.of_append_left hpaints).of_map
  · rintro a b hrel rfl
    exact hrel.start.asymm hrel.start
  · rintro a b hrel rfl
    exact hrel.start.asymm hrel.start

end Items

end CellSketch
