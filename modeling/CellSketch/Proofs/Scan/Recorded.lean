import CellSketch.Proofs.Scan.Maximal

/-!
# Recorded — what a scan keeps of anything that is recorded in it

A scan takes glyphs of lines and characters of text one by one.  Nothing is asked of their order:
they may come with gaps, again and backwards, and any character may be said to come before a glyph.

* `Entry`, `ofEntries` — what is recorded, and the scan of it;
* `Tracks` — an index that knows just the keys of some items, and the newest item of each;
* `Change` — all that one more entry may change;
* `Kept` — what every entry keeps;
* `ofEntries_consistent` — scans are consistent, and hold exactly what was recorded.
-/

namespace CellSketch

/-! ## Entries -/

namespace Scan

/-- What can be recorded: a glyph of a line, with the character before it, or a character of
text. -/
inductive Entry where
  | line (cell : Cell) (glyph : Glyph) (before : Option Char)
  | text (cell : Cell) (char : Char)
  deriving DecidableEq, Repr

namespace Entry

/-- The cell that a glyph of a line along an axis is recorded for. -/
def cellAlong? (axis : Axis) : Entry → Option Cell
  | .line cell glyph _ => if glyph.axis = axis then some cell else none
  | .text _ _ => none

/-- The cell and the character that text is recorded with. -/
def letter? : Entry → Option Paint
  | .line _ _ _ => none
  | .text cell char => some ⟨cell, .text, char⟩

end Entry

def record (s : Scan) : Entry → Scan
  | .line cell glyph before => s.addLine cell glyph before
  | .text cell char => s.addText cell [char]

/-- The scan of entries, recorded one after the other. -/
def ofEntries (entries : List Entry) : Scan := entries.foldl record {}

/-- The cells that the lines along an axis cover. -/
def cellsAlong (s : Scan) (axis : Axis) : List Cell :=
  s.lines.toList.flatMap fun l => if l.axis = axis then l.cells else []

/-- The cells and characters of all text. -/
def letters (s : Scan) : List Paint := s.texts.toList.flatMap TextRun.paints

/-! ## Consistency -/

/-- An index that knows just the keys of some items, and leads to the newest item of each. -/
structure Tracks {α κ : Type} (key : α → κ) (items : Array α) (index : κ → Option Nat) :
    Prop where
  known : ∀ k, (index k).isSome ↔ ∃ a ∈ items, key a = k
  newest : ∀ k i, index k = some i →
    (∃ a, items[i]? = some a ∧ key a = k) ∧ ∀ j b, items[j]? = some b → key b = k → j ≤ i

/-- Every line lies on its row or in its column and does not end before it starts, and the indexes
lead to the newest lines and texts. -/
structure Consistent (s : Scan) : Prop where
  straight : ∀ l ∈ s.lines, l.first ≤ l.last ∧ ∀ cell ∈ l.cells, l.axis.lane cell = l.lane
  lines : Tracks LineRun.key s.lines fun key => s.openLine? key.1 key.2
  texts : Tracks (fun t : TextRun => t.cell.y) s.texts fun row => s.openTexts[row]?

/-! ## Changes -/

/-- A line with one more cell at its end, where a glyph may be the head. -/
structure Lengthened (cell : Cell) (glyph : Glyph) (l m : LineRun) : Prop where
  key_eq : m.key = l.key
  first_eq : m.first = l.first
  last_eq : m.last = l.last + 1
  arrow_eq : m.arrow =
    { l.arrow with atEnd := l.arrow.atEnd || glyph == glyph.axis.closing }
  cells_eq : m.cells = l.cells ++ [cell]

/-- A text with one more character at its end. -/
structure Continued (cell : Cell) (char : Char) (t u : TextRun) : Prop where
  cell_eq : u.cell = t.cell
  text_eq : u.text = t.text ++ [char]
  paints_eq : u.paints = t.paints ++ [⟨cell, .text, char⟩]

/-- One item grows, and the others are left as they were. -/
structure GrowsAt {α : Type} (i : Nat) (grows : α → α → Prop) (old new : Array α) : Prop where
  size_eq : new.size = old.size
  grown : ∃ a b, old[i]? = some a ∧ new[i]? = some b ∧ grows a b
  others : ∀ j, j ≠ i → new[j]? = old[j]?

/-- All that an entry may change: the newest line of its lane or the newest text of its row gets one
more cell at its end, or an item of one cell is appended. -/
inductive Change (s : Scan) : Entry → Scan → Prop where
  | longerLine {cell glyph before i lines}
      (newest : s.openLine? glyph.axis (glyph.axis.lane cell) = some i)
      (grows : GrowsAt i (Lengthened cell glyph) s.lines lines) :
      Change s (.line cell glyph before) { s with lines }
  | newLine {cell glyph before l s'} (key_eq : l.key = (glyph.axis, glyph.axis.lane cell))
      (arrow_eq : l.arrow = { atStart := glyph == glyph.axis.opening })
      (cells_eq : l.cells = [cell]) (lines_eq : s'.lines = s.lines.push l)
      (index_eq : ∀ axis lane, s'.openLine? axis lane =
        if l.key = (axis, lane) then some s.lines.size else s.openLine? axis lane)
      (texts_eq : s'.texts = s.texts) (openTexts_eq : s'.openTexts = s.openTexts)
      (marks_eq : s'.marks = s.marks) :
      Change s (.line cell glyph before) s'
  | longerText {cell char i texts} (newest : s.openTexts[cell.y]? = some i)
      (grows : GrowsAt i (Continued cell char) s.texts texts) :
      Change s (.text cell char) { s with texts }
  | newText {cell char} :
      Change s (.text cell char)
        { s with
          texts := s.texts.push ⟨cell, [char]⟩
          openTexts := s.openTexts.insert cell.y s.texts.size }

/-! ## Items that grow -/

namespace GrowsAt

variable {α β : Type} {i : Nat} {a : α} {f : α → α} {grows : α → α → Prop} {old new : Array α}

theorem modify (ha : old[i]? = some a) (hgrows : grows a (f a)) :
    GrowsAt i grows old (old.modify i f) where
  size_eq := Array.size_modify
  grown := ⟨a, f a, ha, by rw [Array.getElem?_modify, if_pos rfl, ha]; rfl, hgrows⟩
  others j hj := by rw [Array.getElem?_modify, if_neg hj.symm]

/-- Items that keep their keys when they grow. -/
theorem getElem?_map (G : GrowsAt i grows old new) {key : α → β}
    (hkey : ∀ a b, grows a b → key b = key a) (j : Nat) :
    new[j]?.map key = old[j]?.map key := by
  obtain ⟨a, b, ha, hb, hgrows⟩ := G.grown
  by_cases hj : j = i
  · rw [hj, ha, hb, Option.map_some, Option.map_some, hkey a b hgrows]
  · rw [G.others j hj]

/-- If the item that grows yields something more, then so do all items together. -/
theorem flatMap_perm (G : GrowsAt i grows old new) {g : α → List β} {more : List β}
    (hmore : ∀ a b, old[i]? = some a → grows a b → g b = g a ++ more) :
    (new.toList.flatMap g).Perm (old.toList.flatMap g ++ more) := by
  obtain ⟨a, b, ha, hb, hgrows⟩ := G.grown
  have hnew : new.toList = old.toList.modify i fun _ => b := by
    refine List.ext_getElem? fun j => ?_
    rw [List.getElem?_modify, Array.getElem?_toList, Array.getElem?_toList]
    by_cases hj : i = j
    · subst hj
      simp [ha, hb]
    · simp [hj, G.others j (Ne.symm hj)]
  rw [hnew]
  exact flatMap_modify_perm (by rw [Array.getElem?_toList, ha]) (hmore a b ha hgrows)

end GrowsAt

namespace Tracks

variable {α κ : Type} {key : α → κ} {items new : Array α} {index index' : κ → Option Nat}

theorem empty (h : ∀ k, index k = none) : Tracks key #[] index := by
  refine ⟨fun k => ?_, fun k i hi => ?_⟩
  · simp [h]
  · rw [h] at hi
    exact absurd hi (Option.some_ne_none i).symm

/-- Only the keys of the items count. -/
theorem congr (T : Tracks key items index) (h : ∀ j : Nat, new[j]?.map key = items[j]?.map key) :
    Tracks key new index := by
  have hitem (j : Nat) (k : κ) :
      (∃ a, new[j]? = some a ∧ key a = k) ↔ ∃ a, items[j]? = some a ∧ key a = k := by
    rw [← Option.map_eq_some_iff, ← Option.map_eq_some_iff, h]
  refine ⟨fun k => (T.known k).trans ?_, fun k i hi => ?_⟩
  · simp only [Array.mem_iff_getElem?]
    constructor
    · rintro ⟨a, ⟨j, hj⟩, hk⟩
      obtain ⟨b, hb, hk⟩ := (hitem j k).2 ⟨a, hj, hk⟩
      exact ⟨b, ⟨j, hb⟩, hk⟩
    · rintro ⟨a, ⟨j, hj⟩, hk⟩
      obtain ⟨b, hb, hk⟩ := (hitem j k).1 ⟨a, hj, hk⟩
      exact ⟨b, ⟨j, hb⟩, hk⟩
  · obtain ⟨hnewest, hlast⟩ := T.newest k i hi
    refine ⟨(hitem i k).2 hnewest, fun j b hb hk => ?_⟩
    obtain ⟨c, hc, hk⟩ := (hitem j k).1 ⟨b, hb, hk⟩
    exact hlast j c hc hk

/-- The index after an item is appended. -/
theorem push [DecidableEq κ] (T : Tracks key items index) {a : α}
    (hindex : ∀ k, index' k = if key a = k then some items.size else index k) :
    Tracks key (items.push a) index' := by
  refine ⟨fun k => ?_, fun k i hi => ?_⟩
  · rw [hindex]
    split
    · rename_i hk
      exact ⟨fun _ => ⟨a, Array.mem_push_self, hk⟩, fun _ => rfl⟩
    · rename_i hk
      rw [T.known]
      constructor
      · rintro ⟨b, hb, hkey⟩
        exact ⟨b, Array.mem_push_of_mem a hb, hkey⟩
      · rintro ⟨b, hb, hkey⟩
        rcases Array.mem_push.1 hb with hb | rfl
        · exact ⟨b, hb, hkey⟩
        · exact absurd hkey hk
  · rw [hindex] at hi
    split at hi
    · rename_i hk
      obtain rfl := Option.some.inj hi
      refine ⟨⟨a, Array.getElem?_push_size, hk⟩, fun j b hb _ => ?_⟩
      exact le_size_of_getElem?_push hb
    · rename_i hk
      obtain ⟨⟨b, hb, hkey⟩, hlast⟩ := T.newest k i hi
      refine ⟨⟨b, getElem?_push_of_eq_some a hb, hkey⟩, fun j c hc hckey => ?_⟩
      rw [Array.getElem?_push] at hc
      split at hc
      · obtain rfl := Option.some.inj hc
        exact absurd hckey hk
      · exact hlast j c hc hckey

end Tracks

section Record

variable {s : Scan} {entry : Entry}

/-- One more entry changes what `Change` says. -/
theorem Indexed.change (I : s.Indexed) (entry : Entry) : Change s entry (s.record entry) := by
  cases entry with
  | line cell glyph before =>
      rw [record]
      rcases addLine_cases s cell glyph before with ⟨i, l, hi, hl, -, -, hlast, h⟩ | ⟨-, h⟩
      · rw [h]
        obtain ⟨haxis, hlane⟩ := I.key hi hl
        have hsolid := (I.solid l (Array.mem_of_getElem? hl)).1
        have hposition : l.last = l.axis.position cell - 1 := by rw [hlast, haxis]
        refine .longerLine hi (GrowsAt.modify hl ⟨rfl, rfl, ?_, ?_, ?_⟩)
        · change l.axis.position cell = l.last + 1
          omega
        · rw [LineRun.push, haxis]
        · exact LineRun.cells_push glyph hsolid (by rw [hlane, haxis]) hposition
      · rw [h]
        refine .newLine rfl rfl (LineRun.cells_single cell glyph) (lines_openLine s cell glyph) ?_
          (texts_openLine s cell glyph) (openTexts_openLine s cell glyph)
          (marks_openLine s cell glyph)
        intro axis lane
        rw [openLine?_openLine]
        simp [LineRun.key, LineRun.single]
  | text cell char =>
      rw [record]
      rcases addText_cases s cell [char] with ⟨i, t, hi, ht, hstop, h⟩ | ⟨-, h⟩
      · rw [h]
        obtain ⟨u, hu, hrow⟩ := I.text _ i hi
        obtain rfl : t = u := Option.some.inj (ht.symm.trans hu)
        exact .longerText hi (GrowsAt.modify ht
          ⟨rfl, rfl, TextRun.paints_append hrow hstop char⟩)
      · rw [h]
        exact .newText

theorem Indexed.record (I : s.Indexed) (entry : Entry) : (s.record entry).Indexed := by
  cases entry with
  | line cell glyph before => exact I.addLine
  | text cell char => exact I.addText

end Record

/-! ## What every entry keeps -/

/-- A consistent scan of some entries. -/
structure Kept (s : Scan) (entries : List Entry) : Prop where
  indexed : s.Indexed
  lines : Tracks LineRun.key s.lines fun key => s.openLine? key.1 key.2
  texts : Tracks (fun t : TextRun => t.cell.y) s.texts fun row => s.openTexts[row]?
  cells : ∀ axis, (s.cellsAlong axis).Perm (entries.filterMap (Entry.cellAlong? axis))
  letters : s.letters.Perm (entries.filterMap Entry.letter?)

namespace Kept

variable {s s' : Scan} {entries : List Entry} {entry : Entry}

theorem empty : Kept {} [] where
  indexed := indexed_empty
  lines := .empty fun key => by cases key.1 <;> simp [openLine?]
  texts := .empty fun row => by simp
  cells _ := List.Perm.nil
  letters := List.Perm.nil

theorem trackLines (K : Kept s entries) (h : Change s entry s') :
    Tracks LineRun.key s'.lines fun key => s'.openLine? key.1 key.2 := by
  cases h with
  | longerLine _ grows =>
      exact K.lines.congr (grows.getElem?_map fun _ _ hlonger => hlonger.key_eq)
  | newLine _ _ _ lines_eq index_eq _ _ _ =>
      rw [lines_eq]
      exact K.lines.push fun key => index_eq key.1 key.2
  | longerText _ _ => exact K.lines
  | newText => exact K.lines

theorem trackTexts (K : Kept s entries) (h : Change s entry s') :
    Tracks (fun t : TextRun => t.cell.y) s'.texts fun row => s'.openTexts[row]? := by
  cases h with
  | longerLine _ _ => exact K.texts
  | newLine _ _ _ _ _ texts_eq openTexts_eq _ =>
      rw [texts_eq, openTexts_eq]
      exact K.texts
  | longerText _ grows =>
      exact K.texts.congr (grows.getElem?_map fun _ _ hcontinued => by rw [hcontinued.cell_eq])
  | newText =>
      refine K.texts.push fun row => ?_
      rw [Std.TreeMap.getElem?_insert]
      simp

theorem cellsAlong_perm (K : Kept s entries) (h : Change s entry s') (axis : Axis) :
    (s'.cellsAlong axis).Perm (s.cellsAlong axis ++ (entry.cellAlong? axis).toList) := by
  cases h with
  | @longerLine cell glyph before i lines newest grows =>
      refine grows.flatMap_perm fun l m hl hlonger => ?_
      have hl' : l.axis = glyph.axis := (K.indexed.key newest hl).1
      have hm : m.axis = l.axis := congrArg Prod.fst hlonger.key_eq
      rw [hm, hl', Entry.cellAlong?]
      split
      · exact hlonger.cells_eq
      · rfl
  | @newLine cell glyph before l s' key_eq _ cells_eq lines_eq _ _ _ _ =>
      have haxis : l.axis = glyph.axis := congrArg Prod.fst key_eq
      rw [cellsAlong, lines_eq, Array.toList_push, List.flatMap_append, List.flatMap_singleton,
        haxis, cells_eq, Entry.cellAlong?]
      split <;> rfl
  | longerText _ _ => exact (List.append_nil _).symm ▸ List.Perm.refl _
  | newText => exact (List.append_nil _).symm ▸ List.Perm.refl _

theorem letters_perm (h : Change s entry s') :
    s'.letters.Perm (s.letters ++ entry.letter?.toList) := by
  cases h with
  | longerLine _ _ => exact (List.append_nil _).symm ▸ List.Perm.refl _
  | newLine _ _ _ _ _ texts_eq _ _ =>
      rw [Scan.letters, texts_eq]
      exact (List.append_nil _).symm ▸ List.Perm.refl _
  | longerText _ grows =>
      exact grows.flatMap_perm fun _ _ _ hcontinued => hcontinued.paints_eq
  | newText =>
      rw [Scan.letters, Array.toList_push, List.flatMap_append]
      simp [TextRun.paints, Entry.letter?, Scan.letters]

/-- One more entry is kept too. -/
theorem record (K : Kept s entries) (entry : Entry) :
    Kept (s.record entry) (entries ++ [entry]) := by
  have hchange := K.indexed.change entry
  refine ⟨K.indexed.record entry, K.trackLines hchange, K.trackTexts hchange, fun axis => ?_, ?_⟩
  · rw [List.filterMap_append]
    exact (K.cellsAlong_perm hchange axis).trans ((K.cells axis).append_right _)
  · rw [List.filterMap_append]
    exact (letters_perm hchange).trans (K.letters.append_right _)

end Kept

/-- Whatever is recorded is kept. -/
theorem kept_ofEntries (entries : List Entry) : Kept (ofEntries entries) entries := by
  induction entries using List.reverseRecOn with
  | nil => exact Kept.empty
  | append_singleton entries entry ih =>
      rw [ofEntries, List.foldl_append]
      exact ih.record entry

theorem Kept.consistent {s : Scan} {entries : List Entry} (K : Kept s entries) : Consistent s where
  straight l hl := ⟨(K.indexed.solid l hl).1, fun _ hcell => (LineRun.mem_cells.1 hcell).1⟩
  lines := K.lines
  texts := K.texts

/-- Whatever is recorded, in whatever order, the scan stays consistent, one more entry changes no
more than an item of its lane or row, and the lines of each axis and the text hold exactly the cells
and the characters that were recorded. -/
theorem ofEntries_consistent (entries : List Entry) :
    Consistent (ofEntries entries) ∧
      (∀ entry, Change (ofEntries entries) entry (ofEntries (entries ++ [entry]))) ∧
      (∀ axis, ((ofEntries entries).cellsAlong axis).Perm
        (entries.filterMap (Entry.cellAlong? axis))) ∧
      (ofEntries entries).letters.Perm (entries.filterMap Entry.letter?) := by
  have hkept := kept_ofEntries entries
  refine ⟨hkept.consistent, fun entry => ?_, hkept.cells, hkept.letters⟩
  rw [ofEntries, ofEntries, List.foldl_append]
  exact hkept.indexed.change entry

end Scan
end CellSketch
