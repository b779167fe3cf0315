import Mathlib.Data.List.Pairwise
import CellSketch.Proofs.Scan.PaintsBack

/-!
# Maximal — no line and no text could have been longer

The items of a scan are listed in the order of their first cells, and what lies on one lane lies
apart: text runs never touch, and lines touch only where a head stands between them.

* `Listed` — items in order, where the index of a lane leads to the last one listed for it;
* `Ordered.addReading` — reading one more cell keeps the items of a scan in order;
* `scan_maximal` — the items of diagrams and of trees are in order and apart.
-/

namespace CellSketch

open Scan

/-! ## Items in order -/

theorem pairwise_toList_iff {α : Type} {R : α → α → Prop} {items : Array α} :
    items.toList.Pairwise R ↔
      ∀ (i j : Nat) (a b : α), i < j → items[i]? = some a → items[j]? = some b → R a b := by
  rw [List.pairwise_iff_getElem]
  constructor
  · intro h i j a b hij ha hb
    obtain ⟨hi, rfl⟩ := Array.getElem?_eq_some_iff.1 ha
    obtain ⟨hj, rfl⟩ := Array.getElem?_eq_some_iff.1 hb
    exact h i j hi hj hij
  · intro h i j hi hj hij
    refine h i j _ _ hij ?_ ?_ <;> rw [← Array.getElem?_toList, List.getElem?_eq_getElem]

/-- Items in order, where the index of a key leads to the last item that has it. -/
structure Listed {α κ : Type} (key : α → κ) (R : α → α → Prop) (items : Array α)
    (last? : κ → Option Nat) : Prop where
  pairwise : items.toList.Pairwise R
  last : ∀ j a, items[j]? = some a → ∃ i, last? (key a) = some i ∧ j ≤ i

namespace Listed

variable {α κ : Type} {key : α → κ} {R : α → α → Prop} {items : Array α} {last? : κ → Option Nat}

/-- An item is the last one of its key, or it comes before that one. -/
theorem eq_or_rel (L : Listed key R items last?) {a b : α} {i : Nat} (ha : a ∈ items)
    (hi : last? (key a) = some i) (hb : items[i]? = some b) : a = b ∨ R a b := by
  obtain ⟨j, hj⟩ := Array.getElem?_of_mem ha
  obtain ⟨i', hi', hle⟩ := L.last j a hj
  rw [hi, Option.some.injEq] at hi'
  subst hi'
  rcases Nat.lt_or_eq_of_le hle with hlt | rfl
  · exact Or.inr (pairwise_toList_iff.1 L.pairwise j i a b hlt hj hb)
  · exact Or.inl (Option.some.inj (hj.symm.trans hb))

theorem rel_or_rel (L : Listed key R items last?) {a b : α} (ha : a ∈ items) (hb : b ∈ items)
    (hne : a ≠ b) : R a b ∨ R b a := by
  have hsymm : Std.Symm fun a b => R a b ∨ R b a := ⟨fun _ _ => Or.symm⟩
  have hpairwise : items.toList.Pairwise fun a b => R a b ∨ R b a := L.pairwise.imp Or.inl
  exact hpairwise.forall (Array.mem_toList_iff.2 ha) (Array.mem_toList_iff.2 hb) hne

/-- A new item behind all others is the last one of its key. -/
theorem push (L : Listed key R items last?) {x : α} {last?' : κ → Option Nat}
    (hx : ∀ a ∈ items, R a x)
    (hsame : last?' (key x) = some items.size)
    (hother : ∀ k, k ≠ key x → last?' k = last? k) : Listed key R (items.push x) last?' where
  pairwise := by
    rw [Array.toList_push, List.pairwise_append]
    refine ⟨L.pairwise, List.pairwise_singleton R x, fun a ha b hb => ?_⟩
    rw [List.mem_singleton.1 hb]
    exact hx a (Array.mem_toList_iff.1 ha)
  last j a hj := by
    by_cases hkey : key a = key x
    · exact ⟨items.size, by rw [hkey, hsame], le_size_of_getElem?_push hj⟩
    · -- an item of another key was there before
      rw [Array.getElem?_push] at hj
      split at hj
      · cases hj
        exact absurd rfl hkey
      · obtain ⟨i, hi, hle⟩ := L.last j a hj
        exact ⟨i, by rw [hother _ hkey, hi], hle⟩

/-- The last item of its key grows: what comes before it has to stay so, and of what comes behind
it only the items of other keys. -/
theorem modify (L : Listed key R items last?) {f : α → α} {x : α} {i : Nat}
    (hi : last? (key x) = some i) (hx : items[i]? = some x) (hkey : key (f x) = key x)
    (hbefore : ∀ a, R a x → R a (f x)) (hbehind : ∀ b, key b ≠ key x → R x b → R (f x) b) :
    Listed key R (items.modify i f) last? := by
  have hget (j : Nat) (a : α) (ha : (items.modify i f)[j]? = some a) :
      (j = i ∧ a = f x) ∨ (j ≠ i ∧ items[j]? = some a) := by
    rw [Array.getElem?_modify] at ha
    split at ha
    · rename_i hij
      subst hij
      rw [hx, Option.map_some, Option.some.injEq] at ha
      exact Or.inl ⟨rfl, ha.symm⟩
    · rename_i hij
      exact Or.inr ⟨Ne.symm hij, ha⟩
  refine ⟨pairwise_toList_iff.2 fun j k a b hjk ha hb => ?_, fun j a ha => ?_⟩
  · have hpairwise := pairwise_toList_iff.1 L.pairwise
    rcases hget j a ha with ⟨rfl, rfl⟩ | ⟨-, hj⟩ <;> rcases hget k b hb with ⟨rfl, rfl⟩ | ⟨-, hk⟩
    · exact absurd hjk (Nat.lt_irrefl _)
    · refine hbehind b (fun heq => ?_) (hpairwise j k x b hjk hx hk)
      obtain ⟨last, hlast, hle⟩ := L.last k b hk
      rw [heq, hi, Option.some.injEq] at hlast
      omega
    · exact hbefore a (hpairwise j k a x hjk hj hx)
    · exact hpairwise j k a b hjk hj hk
  · rcases hget j a ha with ⟨rfl, rfl⟩ | ⟨-, ha⟩
    · exact ⟨j, by rw [hkey, hi], Nat.le_refl j⟩
    · exact L.last j a ha

end Listed

/-! ## The order of lines and text -/

/-- The first cell of a line. -/
def LineRun.start (l : LineRun) : Cell := l.axis.cellAt l.lane l.first

/-- A line that is listed before another one: it starts before it, and on the same lane it also ends
before the other one starts, with a cell between them unless a head parts them. -/
structure LineRun.Precedes (a b : LineRun) : Prop where
  start : a.start.Before b.start
  apart : a.axis = b.axis → a.lane = b.lane → a.last < b.first
  parted : a.axis = b.axis → a.lane = b.lane → b.first = a.last + 1 →
    a.arrow.atEnd = true ∨ b.arrow.atStart = true

/-- A text run that is listed before another one: it starts before it, and on the same row there is
a cell between them. -/
structure TextRun.Precedes (a b : TextRun) : Prop where
  start : a.cell.Before b.cell
  apart : a.cell.y = b.cell.y → a.stop < b.cell.x

/-- The axis and the lane of a line. -/
def LineRun.key (l : LineRun) : Axis × Int := (l.axis, l.lane)

/-- The items of a scan are in order, and its indexes lead to the last ones of their lanes. -/
structure Ordered (s : Scan) : Prop where
  lines : Listed LineRun.key LineRun.Precedes s.lines fun key => s.openLine? key.1 key.2
  texts : Listed (fun t : TextRun => t.cell.y) TextRun.Precedes s.texts fun row => s.openTexts[row]?
  marks : s.marks.toList.Pairwise fun a b => ¬ b.cell.Before a.cell
  written : ∀ t ∈ s.texts, t.text ≠ []

theorem ordered_empty : Ordered {} where
  lines := ⟨List.Pairwise.nil, by simp⟩
  texts := ⟨List.Pairwise.nil, by simp⟩
  marks := List.Pairwise.nil
  written := by simp

/-! ## Reading one more cell -/

theorem TextRun.mem_paints_of_lt {t : TextRun} {i : Nat} (h : i < t.text.length) :
    ⟨⟨t.cell.x + i, t.cell.y⟩, .text, t.text[i]⟩ ∈ t.paints :=
  List.mem_map.2
    ⟨(t.text[i], i), List.mk_mem_zipIdx_iff_getElem?.2 (List.getElem?_eq_getElem h), rfl⟩

/-- Only the head at the end of a line has the closing character. -/
theorem LineRun.atEnd_of_charAt {l : LineRun} {cell : Cell}
    (h : l.charAt cell = l.axis.closingChar) : l.arrow.atEnd = true := by
  by_contra hend
  rw [charAt] at h
  split at h
  · revert h
    cases l.axis <;> decide
  · rw [if_neg fun hclosed => hend hclosed.1] at h
    revert h
    cases l.axis <;> decide

section Step

variable {read : Char → Neighbors → Reading} {g : Grid} {done rest : List (Cell × Char)} {s : Scan}
  {cell : Cell} {c : Char}

namespace Follows

/-- Every line starts before the next cell. -/
theorem start_before (F : Follows read g done s) (h : g.cells = done ++ (cell, c) :: rest)
    {l : LineRun} (hl : l ∈ s.lines) : l.start.Before cell := by
  have hpaint : ⟨l.start, .line l.axis, l.charAt l.start⟩ ∈ l.paints := by
    rw [LineRun.mem_paints, LineRun.mem_cells]
    simp [LineRun.start, (F.indexed.solid l hl).1]
  exact F.before h (Scan.mem_paints.2 (Or.inr (Or.inr ⟨l, hl, hpaint⟩)))

/-- Text lies before the next cell. -/
theorem text_before (F : Follows read g done s) (h : g.cells = done ++ (cell, c) :: rest)
    {t : TextRun} (ht : t ∈ s.texts) {i : Nat} (hi : i < t.text.length) :
    Cell.Before ⟨t.cell.x + i, t.cell.y⟩ cell :=
  F.before h (Scan.mem_paints.2 (Or.inr (Or.inl ⟨t, ht, TextRun.mem_paints_of_lt hi⟩)))

end Follows

namespace Ordered

theorem addMarks (O : Ordered s) (F : Follows read g done s)
    (h : g.cells = done ++ (cell, c) :: rest) (forms : List MarkForm) :
    Ordered (forms.foldl (·.addMark cell ·) s) := by
  have hfold : ∀ (forms : List MarkForm) (s : Scan), Ordered s →
      (∀ m ∈ s.marks, ¬ cell.Before m.cell) → Ordered (forms.foldl (·.addMark cell ·) s) := by
    intro forms
    induction forms with
    | nil => exact fun s O _ => O
    | cons form forms ih =>
        intro s O hmarks
        refine ih _ ⟨O.lines, O.texts, ?_, O.written⟩ fun m hm => ?_
        · rw [marks_addMark, Array.toList_push, List.pairwise_append]
          refine ⟨O.marks, List.pairwise_singleton _ _, fun a ha b hb => ?_⟩
          rw [List.mem_singleton.1 hb]
          exact hmarks a (Array.mem_toList_iff.1 ha)
        · rcases Array.mem_push.1 hm with hm | rfl
          · exact hmarks m hm
          · exact fun hself => hself.asymm hself
  refine hfold forms s O fun m hm => ?_
  exact (F.before h (Scan.mem_paints.2 (Or.inl ⟨m, hm, rfl⟩))).asymm

/-- A text run that reaches the next cell is the newest one of its row, and would grow. -/
theorem stop_lt (O : Ordered s) (F : Follows read g done s)
    (h : g.cells = done ++ (cell, c) :: rest) (hnone : s.growingText? cell = none) {t : TextRun}
    (ht : t ∈ s.texts) (hrow : t.cell.y = cell.y) : t.stop < cell.x := by
  have hlength := List.length_pos_iff.2 (O.written t ht)
  have hlast := F.text_before h ht (Nat.sub_one_lt_of_lt hlength)
  have hne : t.stop ≠ cell.x := by
    intro hstop
    obtain ⟨j, hj⟩ := Array.getElem?_of_mem ht
    obtain ⟨i, hi, -⟩ := O.texts.last j t hj
    obtain ⟨u, hu, hurow⟩ := F.indexed.text _ i hi
    rcases O.texts.eq_or_rel ht hi hu with rfl | hrel
    · have hsome := growingText?_eq_some_iff.2 ⟨hrow ▸ hi, t, hu, hstop⟩
      exact absurd (hnone.symm.trans hsome) (by simp)
    · -- a later run would start behind this one and still before the cell
      have hmem := Array.mem_of_getElem? hu
      have hbefore := F.text_before h hmem (List.length_pos_iff.2 (O.written u hmem))
      have hapart := hrel.apart hurow.symm
      unfold Cell.Before at hbefore
      dsimp only at hbefore hurow
      omega
  unfold Cell.Before at hlast
  unfold TextRun.stop at hne ⊢
  dsimp only at hlast
  omega

theorem addText (O : Ordered s) (F : Follows read g done s)
    (h : g.cells = done ++ (cell, c) :: rest) : Ordered (s.addText cell [c]) := by
  rcases addText_cases s cell [c] with ⟨i, t, hi, ht, -, heq⟩ | ⟨hnone, heq⟩
  all_goals
    rw [heq]
    refine ⟨O.lines, ?_, O.marks, ?_⟩
  · obtain ⟨u, hu, hrow⟩ := F.indexed.text _ i hi
    obtain rfl : t = u := Option.some.inj (ht.symm.trans hu)
    refine O.texts.modify (f := fun run => { run with text := run.text ++ [c] }) (by rwa [hrow])
      ht rfl ?_ ?_
    · exact fun _ hbefore => ⟨hbefore.start, hbefore.apart⟩
    · exact fun _ hne hbehind => ⟨hbehind.start, fun hsame => absurd hsame.symm hne⟩
  · intro u hu
    obtain ⟨j, hj⟩ := Array.getElem?_of_mem hu
    rw [Array.getElem?_modify] at hj
    split at hj
    · obtain ⟨v, -, rfl⟩ := Option.map_eq_some_iff.1 hj
      simp
    · exact O.written u (Array.mem_of_getElem? hj)
  · refine O.texts.push (fun t ht => ⟨?_, O.stop_lt F h hnone ht⟩) (by simp) fun row hrow => ?_
    · simpa using F.text_before h ht (List.length_pos_iff.2 (O.written t ht))
    · rw [Std.TreeMap.getElem?_insert, if_neg]
      exact fun h => hrow (Std.compare_eq_iff_eq.1 h).symm
  · intro t ht
    rcases Array.mem_push.1 ht with ht | rfl
    · exact O.written t ht
    · simp

/-- A line that touches the next cell is the newest one of its lane, so it is closed, or else the
new one opens there. -/
theorem parted (O : Ordered s) (F : Follows read g done s) (hread : Faithful read)
    (h : g.cells = done ++ (cell, c) :: rest) {glyph : Glyph} {before : Option Char}
    (hline : read c (g.neighbors cell) = .line glyph before)
    (hnone : s.growing? cell glyph before = none) {l : LineRun} (hl : l ∈ s.lines)
    (haxis : l.axis = glyph.axis) (hlane : l.lane = glyph.axis.lane cell)
    (htouch : glyph.axis.position cell = l.last + 1) :
    l.arrow.atEnd = true ∨ glyph = glyph.axis.opening := by
  obtain ⟨j, hj⟩ := Array.getElem?_of_mem hl
  obtain ⟨i, hi, -⟩ := O.lines.last j l hj
  dsimp only [LineRun.key] at hi
  obtain ⟨m, hm, hmaxis, hmlane⟩ := F.indexed.line _ _ i hi
  have hmmem := Array.mem_of_getElem? hm
  obtain rfl : l = m := by
    refine (O.lines.eq_or_rel hl hi hm).resolve_right fun hrel => ?_
    -- a later line would start behind this one and end before the cell
    have hapart := hrel.apart hmaxis.symm hmlane.symm
    have hlt := F.last_lt h hmmem (by rw [hmaxis, hmlane, hlane, haxis])
    have hsolid := (F.indexed.solid m hmmem).1
    rw [hmaxis, haxis] at hlt
    omega
  by_cases hopening : glyph = glyph.axis.opening
  · exact Or.inr hopening
  · rw [haxis, hlane] at hi
    have hclosed : before = some glyph.axis.closingChar := by
      by_contra hopen
      have hsome := growing?_eq_some_iff.2 ⟨hi, l, hm, hopening, hopen, by omega⟩
      exact absurd (hnone.symm.trans hsome) (by simp)
    -- the character before the cell is the one of the line's last cell
    have hpaint : ⟨l.axis.cellAt l.lane l.last, .line l.axis,
        l.charAt (l.axis.cellAt l.lane l.last)⟩ ∈ l.paints := by
      rw [LineRun.mem_paints, LineRun.mem_cells]
      simp [(F.indexed.solid l hl).1]
    have hbefore := F.char_before hread h hline
      (Scan.mem_paints.2 (Or.inr (Or.inr ⟨l, hl, hpaint⟩))) (by
        rw [haxis, hlane, Axis.previous, htouch, Int.add_sub_cancel])
    rw [hclosed, Option.some.injEq] at hbefore
    exact Or.inl (LineRun.atEnd_of_charAt (hbefore.symm.trans (by rw [haxis])))

theorem addLine (O : Ordered s) (F : Follows read g done s) (hread : Faithful read)
    (h : g.cells = done ++ (cell, c) :: rest) {glyph : Glyph} {before : Option Char}
    (hline : read c (g.neighbors cell) = .line glyph before) :
    Ordered (s.addLine cell glyph before) := by
  rcases addLine_cases s cell glyph before with ⟨i, l, hi, hl, -, -, -, heq⟩ | ⟨hnone, heq⟩
  · rw [heq]
    obtain ⟨haxis, hlane⟩ := F.indexed.key hi hl
    refine ⟨?_, O.texts, O.marks, O.written⟩
    refine O.lines.modify (f := (·.push cell glyph)) (by rwa [LineRun.key, haxis, hlane]) hl rfl
      ?_ ?_
    · exact fun _ hbefore => ⟨hbefore.start, hbefore.apart, hbefore.parted⟩
    · intro b hne hbehind
      have hother (haxis : l.axis = b.axis) (hlane : l.lane = b.lane) : False :=
        hne (by rw [LineRun.key, LineRun.key, haxis, hlane])
      exact ⟨hbehind.start, fun haxis hlane => (hother haxis hlane).elim,
        fun haxis hlane => (hother haxis hlane).elim⟩
  · rw [heq]
    refine ⟨?_, by simpa using O.texts, by simpa using O.marks, by simpa using O.written⟩
    rw [lines_openLine]
    refine O.lines.push (fun l hl => ⟨?_, fun haxis hlane => ?_, fun haxis hlane htouch => ?_⟩)
      ?_ fun key hkey => ?_
    · have hstart : (LineRun.single cell glyph).start = cell := Axis.cellAt_lane_position _ _
      rw [hstart]
      exact F.start_before h hl
    · have hlt := F.last_lt h hl (hlane.trans (by rw [haxis]; rfl))
      rwa [haxis] at hlt
    · rcases O.parted F hread h hline hnone hl haxis hlane htouch with hend | hopening
      · exact Or.inl hend
      · exact Or.inr (beq_iff_eq.2 hopening)
    · rw [openLine?_openLine]
      exact if_pos ⟨rfl, rfl⟩
    · rw [openLine?_openLine, if_neg]
      exact fun hsame => hkey (Prod.ext hsame.1.symm hsame.2.symm)

/-- Reading one more cell. -/
theorem addReading (O : Ordered s) (F : Follows read g done s) (hread : Faithful read)
    (h : g.cells = done ++ (cell, c) :: rest) :
    Ordered (s.addReading cell c (read c (g.neighbors cell))) := by
  cases hreading : read c (g.neighbors cell) with
  | nothing => exact O
  | marks forms => exact O.addMarks F h forms
  | line glyph before => exact O.addLine F hread h hreading
  | text => exact O.addText F h

/-- Reading all the rest. -/
theorem scan (hread : Faithful read) (rest : List (Cell × Char)) :
    ∀ done s, g.cells = done ++ rest → Follows read g done s → Ordered s →
      Ordered
        (rest.foldl (fun s (cell, c) => s.addReading cell c (read c (g.neighbors cell))) s) := by
  induction rest with
  | nil => exact fun _ _ _ _ O => O
  | cons entry rest ih =>
      intro done s h F O
      refine ih (done ++ [entry]) _ ?_ (F.addReading hread h) (O.addReading F hread h)
      rw [h, List.append_assoc, List.singleton_append]

end Ordered

end Step

theorem ordered_ofGrid {read : Char → Neighbors → Reading} (hread : Faithful read) (g : Grid) :
    Ordered (Scan.ofGrid read g) :=
  Ordered.scan hread g.cells [] {} rfl follows_empty ordered_empty

/-! ## Maximal items -/

/-- A scan whose items are listed in order, as long as they could be. -/
structure Maximal (s : Scan) : Prop where
  /-- Lines are listed in the order of their first cells; on one lane they share no cell, and touch
  only where the first has a head at its end or the second one at its start. -/
  lines : s.lines.toList.Pairwise LineRun.Precedes
  /-- Text runs are listed in the order of their first cells; on one row they share no cell and do
  not touch. -/
  texts : s.texts.toList.Pairwise TextRun.Precedes
  /-- Marks are listed in the order of their cells. -/
  marks : s.marks.toList.Pairwise fun a b => ¬ b.cell.Before a.cell
  /-- Lines are not empty, and those with a head are at least two cells long. -/
  heads : ∀ l ∈ s.lines, l.first ≤ l.last ∧ (l.arrow ≠ .headless → l.first < l.last)
  /-- Text runs are not empty. -/
  written : ∀ t ∈ s.texts, t.text ≠ []

theorem Glyph.eq_opening_of_lineChar {glyph : Glyph}
    (h : glyph.lineChar = glyph.axis.openingChar) : glyph = glyph.axis.opening := by
  revert h
  cases glyph <;> decide

/-- What is painted as a part of a line was read as one, with the same character. -/
theorem exists_line_of_mem_contribution {read : Char → Neighbors → Reading} {g : Grid}
    {entry : Cell × Char} {p : Paint} {axis : Axis} (h : p ∈ contribution read g entry)
    (hink : p.ink = .line axis) :
    ∃ glyph before, read entry.2 (g.neighbors entry.1) = .line glyph before ∧ glyph.axis = axis ∧
      p.char = glyph.lineChar := by
  unfold contribution at h
  split at h
  · simp at h
  · obtain ⟨form, -, rfl⟩ := List.mem_map.1 h
    cases hink
  · rename_i glyph before hline
    rw [List.mem_singleton.1 h] at hink ⊢
    cases hink
    exact ⟨glyph, before, hline, rfl, rfl⟩
  · rw [List.mem_singleton.1 h] at hink
    cases hink

theorem exists_line_of_mem_paints {s : Scan} {p : Paint} {axis : Axis} (h : p ∈ s.paints)
    (hink : p.ink = .line axis) : ∃ l ∈ s.lines, p ∈ l.paints := by
  rcases Scan.mem_paints.1 h with ⟨m, -, rfl⟩ | ⟨t, -, ht⟩ | hline
  · cases hink
  · obtain ⟨_, -, rfl⟩ := List.mem_map.1 ht
    cases hink
  · exact hline

/-- A line with a head at its start goes on behind it. -/
theorem first_lt_last_of_atStart {read : Char → Neighbors → Reading} {g : Grid} {s : Scan}
    (F : Follows read g g.cells s) (O : Ordered s) (hread : Faithful read) (hopens : Opens read)
    {l : LineRun} (hl : l ∈ s.lines) (hstart : l.arrow.atStart = true) : l.first < l.last := by
  obtain ⟨hsolid, hend⟩ := F.indexed.solid l hl
  by_contra hshort
  -- the cell of the head was read as one, so there is a shaft behind it
  have hhead : ⟨l.start, .line l.axis, l.axis.openingChar⟩ ∈ l.paints := by
    rw [LineRun.mem_paints, LineRun.mem_cells]
    simp [LineRun.start, LineRun.charAt, hstart, hsolid]
  obtain ⟨⟨cell, c⟩, -, hp⟩ := F.mem_paints.1 (Scan.mem_paints.2 (Or.inr (Or.inr ⟨l, hl, hhead⟩)))
  obtain rfl : l.start = cell := cell_of_mem_contribution hp
  obtain ⟨glyph, before, hline, haxis, hchar⟩ := exists_line_of_mem_contribution hp rfl
  have hopening : glyph = glyph.axis.opening :=
    Glyph.eq_opening_of_lineChar (by rw [haxis]; exact hchar.symm)
  obtain ⟨hshaft, hbehind⟩ := hopens _ _ _ _ hline hopening
  rw [haxis] at hshaft hbehind
  have hprevious : l.start = l.axis.previous (l.axis.cellAt l.lane (l.first + 1)) := by
    simp [LineRun.start, Axis.previous]
  rw [hprevious, Grid.after_neighbors_previous] at hshaft
  -- which is a part of a line that does not start with a head
  obtain ⟨glyph', before', hline', haxis'⟩ :=
    hbehind (g.neighbors (l.axis.cellAt l.lane (l.first + 1)))
  have hpaint : ⟨l.axis.cellAt l.lane (l.first + 1), .line l.axis, l.axis.shaftChar⟩ ∈
      s.paints := by
    refine F.mem_paints.2 ⟨_, Grid.mem_cells.2 hshaft, ?_⟩
    simp only [contribution, hline', List.mem_singleton, haxis', (hread.line _ _ _ _ hline').1]
  obtain ⟨m, hm, hp⟩ := exists_line_of_mem_paints hpaint rfl
  obtain ⟨hcell, hink, hchar⟩ := LineRun.mem_paints.1 hp
  obtain hmaxis : l.axis = m.axis := by simpa using hink
  obtain ⟨hmlane, hfirst, hlast⟩ := LineRun.mem_cells.1 hcell
  rw [← hmaxis, Axis.position_cellAt] at hfirst hlast
  rw [← hmaxis, Axis.lane_cellAt] at hmlane
  have hne : l ≠ m := by
    rintro rfl
    omega
  rcases O.lines.rel_or_rel hl hm hne with hrel | hrel
  · have hapart := hrel.apart hmaxis hmlane
    rcases hrel.parted hmaxis hmlane (by omega) with hclosed | hopened
    · exact hshort (hend hclosed)
    · -- the cell shows the head of that line, and a shaft
      have hmfirst : m.first = l.first + 1 := by omega
      simp only [LineRun.charAt, hopened, ← hmaxis, Axis.position_cellAt, hmfirst, and_self,
        if_true] at hchar
      revert hchar
      cases l.axis <;> decide
  · have hapart := hrel.apart hmaxis.symm hmlane.symm
    omega

theorem Arrow.atStart_or_atEnd {a : Arrow} (h : a ≠ .headless) :
    a.atStart = true ∨ a.atEnd = true := by
  rcases a with ⟨_ | _, _ | _⟩
  · exact absurd rfl h
  · exact Or.inr rfl
  · exact Or.inl rfl
  · exact Or.inl rfl

theorem Ordered.maximal {read : Char → Neighbors → Reading} {g : Grid} {s : Scan} (O : Ordered s)
    (F : Follows read g g.cells s) (hread : Faithful read) (hopens : Opens read) : Maximal s where
  lines := O.lines.pairwise
  texts := O.texts.pairwise
  marks := O.marks
  heads l hl := by
    obtain ⟨hsolid, hend⟩ := F.indexed.solid l hl
    refine ⟨hsolid, fun hhead => ?_⟩
    rcases Arrow.atStart_or_atEnd hhead with hstart | hclosed
    · exact first_lt_last_of_atStart F O hread hopens hl hstart
    · exact hend hclosed
  written := O.written

/-- The items of a diagram and of a tree are listed in order, and none of them could be longer. -/
theorem scan_maximal (text : List Char) :
    Maximal (Scan.ofDiagram text) ∧ Maximal (Scan.ofTree text) := by
  constructor
  · exact (ordered_ofGrid Reading.faithful_ofDiagram _).maximal
      (follows_ofGrid Reading.faithful_ofDiagram _) Reading.faithful_ofDiagram
      Reading.opens_ofDiagram
  · exact (ordered_ofGrid Reading.faithful_ofTree _).maximal
      (follows_ofGrid Reading.faithful_ofTree _) Reading.faithful_ofTree Reading.opens_ofTree

end CellSketch
