import CellSketch.Proofs.Listing.Rows
import CellSketch.Proofs.Scan.Findings

/-!
# Drawn — a listing is scanned as the tree it lists

With names that hold no blanks and no characters of a drawing, every cell of a listing is a
junction, a dash, a bar or part of a name, whatever stands in the rows above and below.

* `Branch.Drawn`, `getElem?_line` — the characters in the row of a directory;
* `down_iff` — a junction or bar stands below a junction exactly if the directory goes on;
* `painted_iff` — what each cell of a listing is painted with;
* `scan_text` — the marks, texts and lines that are found are those of the directories.
-/

namespace CellSketch

/-- A name that no part of a drawing is read from. -/
def IsPlain (name : List Char) : Prop :=
  name ≠ [] ∧ ∀ c ∈ name, Text.isBlank c = false ∧ c ∉ ['+', '-', '|', '>']

instance (name : List Char) : Decidable (IsPlain name) :=
  have : Decidable (∀ c ∈ name, Text.isBlank c = false ∧ c ∉ ['+', '-', '|', '>']) :=
    List.decidableBAll _ name
  instDecidableAnd

theorem Text.isBlank_of_isLineBreak {c : Char} (h : isLineBreak c = true) : isBlank c = true := by
  simp only [isLineBreak, isBlank, Bool.or_eq_true, Bool.and_eq_true, decide_eq_true_eq,
    beq_iff_eq] at *
  omega

/-! ## The row of a directory -/

/-- The column behind the junction and the dash. -/
theorem length_leadText (lead : List Bool) : (leadText lead).length = 2 * lead.length := by
  induction lead with
  | nil => rfl
  | cons bar lead ih =>
    rw [leadText, List.flatMap_cons, List.length_append, ← leadText, ih, List.length_cons]
    cases bar <;> simp <;> omega

/-- The bars of a lead are all that is to be seen of it. -/
theorem getElem?_leadText {lead : List Bool} {x : Nat} {c : Char} (hc : Text.isBlank c = false) :
    (leadText lead)[x]? = some c ↔ ∃ k, x = 2 * k ∧ lead[k]? = some true ∧ c = '|' := by
  induction lead generalizing x with
  | nil => simp [leadText]
  | cons bar lead ih =>
    have hblock : leadText (bar :: lead) = (if bar then '|' else ' ') :: ' ' :: leadText lead := by
      cases bar <;> rfl
    rw [hblock]
    have hspace : some ' ' ≠ some c := by
      rintro ⟨⟩
      exact absurd hc (by decide)
    match x with
    | 0 =>
      rw [List.getElem?_cons_zero]
      constructor
      · intro h
        cases bar
        · exact absurd h hspace
        · exact ⟨0, rfl, rfl, (Option.some.inj h).symm⟩
      · rintro ⟨k, hk, hbar, rfl⟩
        obtain rfl : k = 0 := by omega
        obtain rfl : bar = true := Option.some.inj hbar
        rfl
    | 1 =>
      refine ⟨fun h => absurd h hspace, ?_⟩
      rintro ⟨k, hk, -⟩
      omega
    | x + 2 =>
      rw [List.getElem?_cons_succ, List.getElem?_cons_succ, ih]
      constructor
      · rintro ⟨k, rfl, hbar, rfl⟩
        exact ⟨k + 1, by omega, hbar, rfl⟩
      · rintro ⟨k, hk, hbar, rfl⟩
        obtain ⟨k, rfl⟩ : ∃ k', k = k' + 1 := ⟨k - 1, by omega⟩
        exact ⟨k, by omega, hbar, rfl⟩

namespace Branch

/-- The characters in the row of a directory, blanks apart. -/
inductive Drawn (e : Branch) : Nat → Char → Prop where
  | bar (k : Nat) (h : e.lead[k]? = some true) : Drawn e (2 * k) '|'
  | junction : Drawn e (2 * e.lead.length) '+'
  | dash : Drawn e (2 * e.lead.length + 1) '-'
  | name (i : Nat) (c : Char) (h : e.name[i]? = some c) : Drawn e (2 * e.depth + i) c

theorem getElem?_line {e : Branch} {x : Nat} {c : Char} (hc : Text.isBlank c = false) :
    e.line[x]? = some c ↔ e.Drawn x c := by
  have hlength : (leadText e.lead ++ ['+', '-']).length = 2 * e.depth := by
    rw [List.length_append, length_leadText, depth]
    rfl
  rw [line]
  constructor
  · intro h
    rcases Nat.lt_or_ge x (2 * e.depth) with hx | hx
    · rw [List.getElem?_append_left (by omega)] at h
      rcases Nat.lt_or_ge x (2 * e.lead.length) with hx' | hx'
      · rw [List.getElem?_append_left (by rwa [length_leadText]), getElem?_leadText hc] at h
        obtain ⟨k, rfl, hbar, rfl⟩ := h
        exact .bar k hbar
      · rw [List.getElem?_append_right (by rwa [length_leadText]), length_leadText] at h
        rw [depth] at hx
        rcases (show x = 2 * e.lead.length ∨ x = 2 * e.lead.length + 1 by omega) with rfl | rfl
        · rw [Nat.sub_self] at h
          cases h
          exact .junction
        · rw [Nat.add_sub_cancel_left] at h
          cases h
          exact .dash
    · rw [List.getElem?_append_right (by omega), hlength] at h
      rw [show x = 2 * e.depth + (x - 2 * e.depth) by omega]
      exact .name _ c h
  · have hdepth : 2 * e.depth = 2 * e.lead.length + 2 := rfl
    intro h
    cases h with
    | bar k hbar =>
      have hk := (List.getElem?_eq_some_iff.1 hbar).1
      rw [List.getElem?_append_left (by omega),
        List.getElem?_append_left (by rw [length_leadText]; omega)]
      exact (getElem?_leadText hc).2 ⟨k, rfl, hbar, rfl⟩
    | junction =>
      rw [List.getElem?_append_left (by omega),
        List.getElem?_append_right (by rw [length_leadText]), length_leadText, Nat.sub_self]
      rfl
    | dash =>
      rw [List.getElem?_append_left (by omega),
        List.getElem?_append_right (by rw [length_leadText]; omega), length_leadText,
        Nat.add_sub_cancel_left]
      rfl
    | name i _ hname =>
      rw [List.getElem?_append_right (by omega), hlength, Nat.add_sub_cancel_left, hname]

end Branch

/-! ## The cells of a listing -/

namespace DirectoryTree

variable {t : DirectoryTree} {cell : Cell} {c : Char} {e : Branch}

/-- The characters in the cells of a listing, blanks apart. -/
inductive Drawn (t : DirectoryTree) : Cell → Char → Prop where
  | top (x : Nat) (c : Char) (h : t.name[x]? = some c) : Drawn t ⟨x, 0⟩ c
  | below (e : Branch) (he : e ∈ t.branches) (x : Nat) (c : Char) (h : e.Drawn x c) :
      Drawn t ⟨x, e.row⟩ c

theorem drawn_iff {x y : Nat} : t.Drawn ⟨x, y⟩ c ↔
    (y = 0 ∧ t.name[x]? = some c) ∨ ∃ e ∈ t.branches, e.row = y ∧ e.Drawn x c := by
  constructor
  · intro h
    generalize hcell : (⟨x, y⟩ : Cell) = cell at h
    cases h with
    | top x' _ hname =>
      obtain ⟨hx, hy⟩ := Cell.mk.inj hcell
      obtain rfl := Int.ofNat.inj hx
      exact Or.inl ⟨Int.ofNat.inj hy, hname⟩
    | below e he x' _ hdrawn =>
      obtain ⟨hx, hy⟩ := Cell.mk.inj hcell
      obtain rfl := Int.ofNat.inj hx
      exact Or.inr ⟨e, he, (Int.ofNat.inj hy).symm, hdrawn⟩
  · rintro (⟨rfl, hname⟩ | ⟨e, he, rfl, hdrawn⟩)
    · exact .top x c hname
    · exact .below e he x c hdrawn

/-- The grid of the listing. -/
def grid (t : DirectoryTree) : Grid := .ofText t.text

theorem rows_grid (h : ∀ name ∈ t.names, IsPlain name) :
    t.grid.rows = (t.lines.map List.toArray).toArray := by
  have htop := (forall_names h).1.1
  have hne : t.text ≠ [] := by
    rw [text, Text.joinWith, lines_eq_cons]
    cases t.branches.map Branch.line with
    | nil => rwa [List.intercalate_singleton]
    | cons => simp [List.intercalate_cons_cons, htop]
  rw [grid, Grid.ofText, lines_text (fun name hname c hc => ?_) hne]
  rw [Bool.eq_false_iff]
  intro hbreak
  exact absurd (Text.isBlank_of_isLineBreak hbreak) (by simp [((h name hname).2 c hc).1])

theorem at?_grid (h : ∀ name ∈ t.names, IsPlain name) (hc : Text.isBlank c = false) :
    t.grid.at? cell = some c ↔ t.Drawn cell c := by
  have hrow (x y : Nat) : (∃ row, t.grid.rows[y]? = some row ∧ row[x]? = some c) ↔
      ∃ cs, t.lines[y]? = some cs ∧ cs[x]? = some c := by
    simp [rows_grid h]
  rw [Grid.at?_eq_some_iff]
  constructor
  · rintro ⟨x, y, rfl, hat⟩
    obtain ⟨line, hline, hchar⟩ := (hrow x y).1 hat
    cases y with
    | zero =>
      rw [t.lines_eq_cons] at hline
      cases hline
      exact .top x c hchar
    | succ y =>
      obtain ⟨e, he, hrow', rfl⟩ := getElem?_lines.1 hline
      rw [← hrow']
      exact .below e he x c ((Branch.getElem?_line hc).1 hchar)
  · intro hdrawn
    cases hdrawn with
    | top x _ hchar => exact ⟨x, 0, rfl, (hrow x 0).2 ⟨t.name, by rw [t.lines_eq_cons]; rfl, hchar⟩⟩
    | below e he x _ hchar =>
      have hchar' := (Branch.getElem?_line hc).2 hchar
      exact ⟨x, e.row, rfl, (hrow x e.row).2 ⟨e.line, getElem?_lines_row he, hchar'⟩⟩

/-! ## What stands below a junction -/

/-- A bar stands in the column of a directory that goes on, in the rows of what is inside it. -/
theorem drawn_bar (he : e ∈ t.branches) (hon : e.goesOn = true) {y : Nat} (hy : e.row < y)
    (hstop : y < e.stop) : t.Drawn ⟨(2 * e.lead.length : Nat), y⟩ '|' := by
  obtain ⟨x, hx, rfl⟩ : ∃ x ∈ e.below, x.row = y := Forest.exists_row_iff.2 ⟨hy, hstop⟩
  refine .below x (Forest.mem_of_mem_below he hx) _ _ (.bar _ ?_)
  rw [Forest.lead_of_mem_below hx, hon]

/-- Each bar stands in the column of a directory that goes on, in the rows of what is inside it. -/
theorem exists_of_bar (he : e ∈ t.branches) {k : Nat} (hbar : e.lead[k]? = some true) :
    ∃ a ∈ t.branches, e ∈ a.below ∧ a.lead.length = k ∧ a.goesOn = true := by
  obtain ⟨hk, hbar⟩ := List.getElem?_eq_some_iff.1 hbar
  obtain ⟨a, ha, hbelow, hlength, hblock⟩ := Forest.exists_around he (Nat.zero_le k) hk
  exact ⟨a, ha, hbelow, hlength, hblock.symm.trans hbar⟩

/-- A junction or a bar in a column belongs to a lead that reaches there. -/
theorem reaches_of_drawn (h : ∀ name ∈ t.names, IsPlain name) (he : e ∈ t.branches) {k : Nat}
    (hc : c ∈ ['+', '|']) (hdrawn : e.Drawn (2 * k) c) :
    e.lead[k]? = some true ∨ e.lead.length = k := by
  generalize hx : 2 * k = x at hdrawn
  cases hdrawn with
  | bar j hbar =>
    obtain rfl : j = k := by omega
    exact Or.inl hbar
  | junction => exact Or.inr (by omega)
  | dash => omega
  | name i _ hname =>
    have hplain := ((forall_names h).2 e he).2 c (List.mem_of_getElem? hname)
    simp only [List.mem_cons] at hc hplain
    tauto

/-- A junction or a bar stands below a junction exactly if its directory goes on. -/
theorem down_iff (h : ∀ name ∈ t.names, IsPlain name) (he : e ∈ t.branches) :
    (∃ c ∈ ['+', '|'], t.Drawn ⟨(2 * e.lead.length : Nat), (e.row + 1 : Nat)⟩ c) ↔
      e.goesOn = true := by
  constructor
  · rintro ⟨c, hc, hdrawn⟩
    by_contra hlast
    rw [Bool.not_eq_true] at hlast
    rcases drawn_iff.1 hdrawn with ⟨hrow, -⟩ | ⟨s, hs, hrow, hdrawn⟩
    · cases hrow
    have hreach := reaches_of_drawn h hs hc hdrawn
    rcases Nat.lt_or_ge s.row e.stop with hinside | hbehind
    · -- inside the directory its block is a blank
      have hblock := Forest.lead_of_mem_below ((Forest.mem_below_iff he hs).2 (by omega))
      rw [hlast] at hblock
      rcases hreach with hbar | hlength
      · rw [hbar] at hblock
        cases hblock
      · rw [← hlength, List.getElem?_eq_none (le_refl _)] at hblock
        cases hblock
    · -- behind the last of its siblings no lead reaches so far
      have hstop : s.row = e.stop := by
        rw [Branch.stop] at hbehind ⊢
        omega
      have hlength := Forest.length_lead_lt he hlast hs hstop
      rcases hreach with hbar | heq
      · have hk := (List.getElem?_eq_some_iff.1 hbar).1
        omega
      · omega
  · intro hon
    rcases Nat.lt_or_ge (e.row + 1) e.stop with hinside | hinside
    · exact ⟨'|', by decide, drawn_bar he hon (Nat.lt_succ_self _) hinside⟩
    · -- nothing is inside, and the sibling stands below
      obtain ⟨s, hs, hrow, -, hlead, -⟩ := Forest.exists_next he hon
      refine ⟨'+', by decide, ?_⟩
      have hstop : e.row + 1 = s.row := by
        rw [Branch.stop] at hinside hrow
        omega
      rw [hstop, ← hlead]
      exact .below s hs _ _ .junction

end DirectoryTree

/-! ## Readings -/

namespace Reading

theorem ofTree_plain {c : Char} (hblank : Text.isBlank c = false) (hc : c ∉ ['+', '-', '|', '>'])
    (n : Neighbors) : ofTree c n = .text := by
  simp only [List.mem_cons, List.not_mem_nil, or_false, not_or] at hc
  simp [ofTree, hblank, hc]

theorem ofTree_junction {n : Neighbors} (h : n.right = some '-') :
    ofTree '+' n =
      .marks [.marker .plain ⟨true, true, ['+', '|'].any (n.down == some ·), false⟩] := by
  simp [ofTree, h, show Text.isBlank '+' = false by decide]

theorem ofTree_stub {n : Neighbors} (h : n.left = some '+') :
    ofTree '-' n = .line .lineH n.left := by
  simp [ofTree, h, show Text.isBlank '-' = false by decide]

theorem ofTree_bar {n : Neighbors} (h : n.up = some '+' ∨ n.up = some '|') :
    ofTree '|' n = .line .lineV n.up := by
  rcases h with h | h <;> simp [ofTree, h, show Text.isBlank '|' = false by decide]

end Reading

/-! ## What is painted -/

/-- A line without heads is painted with its shaft only. -/
theorem LineRun.exists_of_mem_headless {l : LineRun} (harrow : l.arrow = .headless) {p : Paint}
    (hp : p ∈ l.paints) : ∃ k, l.first ≤ k ∧ k ≤ l.last ∧
      p = ⟨l.axis.cellAt l.lane k, .line l.axis, l.axis.shaftChar⟩ := by
  obtain ⟨hcell, hink, hchar⟩ := mem_paints.1 hp
  have hbounds := mem_cells.1 hcell
  refine ⟨l.axis.position p.cell, hbounds.2.1, hbounds.2.2, ?_⟩
  have hshaft : l.charAt p.cell = l.axis.shaftChar := by
    simp [charAt, harrow, Arrow.headless]
  rw [← hbounds.1, Axis.cellAt_lane_position, ← hink, ← hshaft, ← hchar]

namespace Branch

/-- The junction of a directory. -/
def mark (e : Branch) : Mark where
  cell := ⟨(2 * e.lead.length : Nat), e.row⟩
  form := .marker .plain ⟨true, true, e.goesOn, false⟩

/-- The name of a directory. -/
def textRun (e : Branch) : TextRun := ⟨⟨(2 * e.depth : Nat), e.row⟩, e.name⟩

/-- The line between the junction and the name. -/
def stub (e : Branch) : LineRun where
  axis := .horizontal
  lane := e.row
  first := (2 * e.lead.length + 1 : Nat)
  last := (2 * e.lead.length + 1 : Nat)
  arrow := .headless

/-- The line from the junction down to that of the next sibling. -/
def trunk (e : Branch) : LineRun where
  axis := .vertical
  lane := (2 * e.lead.length : Nat)
  first := (e.row + 1 : Nat)
  last := (e.row + e.inside.size : Nat)
  arrow := .headless

end Branch

namespace DirectoryTree

variable {t : DirectoryTree} {cell : Cell} {c : Char} {e : Branch}

/-- What the cells of a listing are painted with. -/
inductive Paints (t : DirectoryTree) : Paint → Prop where
  | top (x : Nat) (c : Char) (h : t.name[x]? = some c) : Paints t ⟨⟨x, 0⟩, .text, c⟩
  | junction (e : Branch) (he : e ∈ t.branches) : Paints t e.mark.paint
  | stub (e : Branch) (he : e ∈ t.branches) :
      Paints t ⟨⟨(2 * e.lead.length + 1 : Nat), e.row⟩, .line .horizontal, '-'⟩
  | name (e : Branch) (he : e ∈ t.branches) (i : Nat) (c : Char) (h : e.name[i]? = some c) :
      Paints t ⟨⟨(2 * e.depth + i : Nat), e.row⟩, .text, c⟩
  | trunk (e : Branch) (he : e ∈ t.branches) (hon : e.goesOn = true) (y : Nat) (hy : e.row < y)
      (hstop : y < e.stop) : Paints t ⟨⟨(2 * e.lead.length : Nat), y⟩, .line .vertical, '|'⟩

theorem contribution_plain {c : Char} (hc : Text.isBlank c = false ∧ c ∉ ['+', '-', '|', '>']) :
    contribution Reading.ofTree t.grid (cell, c) = [⟨cell, .text, c⟩] := by
  rw [contribution, Reading.ofTree_plain hc.1 hc.2]

section Painted

variable (h : ∀ name ∈ t.names, IsPlain name)
include h

theorem Drawn.at? (hdrawn : t.Drawn cell c) : t.grid.at? cell = some c := by
  refine (at?_grid h ?_).2 hdrawn
  cases hdrawn with
  | top x _ hname => exact ((forall_names h).1.2 c (List.mem_of_getElem? hname)).1
  | below e he x _ hdrawn =>
    cases hdrawn with
    | bar => decide
    | junction => decide
    | dash => decide
    | name i _ hname => exact (((forall_names h).2 e he).2 c (List.mem_of_getElem? hname)).1

theorem contribution_junction (he : e ∈ t.branches) :
    contribution Reading.ofTree t.grid (e.mark.cell, '+') = [e.mark.paint] := by
  have hright : (t.grid.neighbors e.mark.cell).right = some '-' :=
    (Drawn.below e he _ _ .dash).at? h
  have hdown : ['+', '|'].any ((t.grid.neighbors e.mark.cell).down == some ·) = e.goesOn := by
    rw [Bool.eq_iff_iff, ← down_iff h he, List.any_eq_true]
    refine exists_congr fun c => and_congr_right fun hc => ?_
    rw [beq_iff_eq, ← at?_grid h]
    · rfl
    · revert hc
      simp only [List.mem_cons, List.not_mem_nil, or_false]
      rintro (rfl | rfl) <;> decide
  rw [contribution, Reading.ofTree_junction hright, hdown]
  rfl

theorem contribution_stub (he : e ∈ t.branches) :
    contribution Reading.ofTree t.grid (⟨(2 * e.lead.length + 1 : Nat), e.row⟩, '-') =
      [⟨⟨(2 * e.lead.length + 1 : Nat), e.row⟩, .line .horizontal, '-'⟩] := by
  have hleft : (t.grid.neighbors ⟨(2 * e.lead.length + 1 : Nat), e.row⟩).left = some '+' := by
    have hat := (Drawn.below e he _ _ .junction).at? h
    rwa [Grid.neighbors, Int.natCast_succ, Int.add_sub_cancel]
  rw [contribution, Reading.ofTree_stub hleft]
  rfl

theorem contribution_trunk (he : e ∈ t.branches) (hon : e.goesOn = true) {y : Nat} (hy : e.row < y)
    (hstop : y < e.stop) :
    contribution Reading.ofTree t.grid (⟨(2 * e.lead.length : Nat), y⟩, '|') =
      [⟨⟨(2 * e.lead.length : Nat), y⟩, .line .vertical, '|'⟩] := by
  obtain ⟨y, rfl⟩ : ∃ y', y = y' + 1 := ⟨y - 1, by omega⟩
  have hup : (t.grid.neighbors ⟨(2 * e.lead.length : Nat), (y + 1 : Nat)⟩).up = some '+' ∨
      (t.grid.neighbors ⟨(2 * e.lead.length : Nat), (y + 1 : Nat)⟩).up = some '|' := by
    rw [Grid.neighbors, Int.natCast_succ, Int.add_sub_cancel]
    rcases Nat.lt_or_ge e.row y with hlt | hge
    · exact Or.inr ((drawn_bar he hon hlt (by omega)).at? h)
    · obtain rfl : y = e.row := by omega
      exact Or.inl ((Drawn.below e he _ _ .junction).at? h)
  rw [contribution, Reading.ofTree_bar hup]
  rfl

/-- What is drawn in a cell is painted as one thing. -/
theorem Drawn.exists_contribution (hdrawn : t.Drawn cell c) :
    ∃ p, t.Paints p ∧ contribution Reading.ofTree t.grid (cell, c) = [p] := by
  obtain ⟨htop, hbelow⟩ := forall_names h
  cases hdrawn with
  | top x _ hname =>
    exact ⟨_, .top x c hname, contribution_plain (htop.2 c (List.mem_of_getElem? hname))⟩
  | below e he x _ hdrawn =>
    cases hdrawn with
    | bar k hbar =>
      obtain ⟨a, ha, hea, rfl, hon⟩ := exists_of_bar he hbar
      obtain ⟨hrow, hstop⟩ := (Forest.mem_below_iff ha he).1 hea
      exact ⟨_, .trunk a ha hon _ hrow hstop, contribution_trunk h ha hon hrow hstop⟩
    | junction => exact ⟨_, .junction e he, contribution_junction h he⟩
    | dash => exact ⟨_, .stub e he, contribution_stub h he⟩
    | name i _ hname =>
      have hplain := (hbelow e he).2 c (List.mem_of_getElem? hname)
      exact ⟨_, .name e he i c hname, contribution_plain hplain⟩

/-- What is painted is drawn. -/
theorem Paints.exists_drawn {p : Paint} (hp : t.Paints p) :
    ∃ c, t.Drawn p.cell c ∧ contribution Reading.ofTree t.grid (p.cell, c) = [p] := by
  obtain ⟨htop, hbelow⟩ := forall_names h
  cases hp with
  | top x c hname =>
    exact ⟨c, .top x c hname, contribution_plain (htop.2 c (List.mem_of_getElem? hname))⟩
  | junction e he => exact ⟨'+', .below e he _ _ .junction, contribution_junction h he⟩
  | stub e he => exact ⟨'-', .below e he _ _ .dash, contribution_stub h he⟩
  | name e he i c hname =>
    have hplain := (hbelow e he).2 c (List.mem_of_getElem? hname)
    exact ⟨c, .below e he _ _ (.name i c hname), contribution_plain hplain⟩
  | trunk e he hon y hy hstop =>
    exact ⟨'|', drawn_bar he hon hy hstop, contribution_trunk h he hon hy hstop⟩

/-- What each cell of a listing is painted with. -/
theorem painted_iff {p : Paint} : Painted Reading.ofTree t.grid p ↔ t.Paints p := by
  constructor
  · rintro ⟨c, hat, hp⟩
    have hblank := (Reading.faithful_ofTree.of_mem_contribution hp).2
    obtain ⟨q, hq, heq⟩ := ((at?_grid h hblank).1 hat).exists_contribution h
    rw [heq, List.mem_singleton] at hp
    rwa [hp]
  · intro hp
    obtain ⟨c, hdrawn, heq⟩ := hp.exists_drawn h
    exact ⟨c, hdrawn.at? h, by rw [heq]; exact List.mem_singleton_self p⟩

theorem painted_eq : Painted Reading.ofTree t.grid = t.Paints :=
  funext fun _ => propext (painted_iff h)

theorem singleChar_paints : SingleChar t.Paints := by
  rw [← painted_eq h]
  exact singleChar_painted Reading.faithful_ofTree

end Painted

/-! ## The items of a listing -/

namespace Paints

variable {p : Paint}

theorem of_text (hp : t.Paints p) (hink : p.ink = .text) :
    (∃ (x : Nat) (c : Char), t.name[x]? = some c ∧ p = ⟨⟨x, 0⟩, .text, c⟩) ∨
      ∃ e ∈ t.branches, ∃ (i : Nat) (c : Char), e.name[i]? = some c ∧
        p = ⟨⟨(2 * e.depth + i : Nat), e.row⟩, .text, c⟩ := by
  cases hp with
  | top x c hname => exact Or.inl ⟨x, c, hname, rfl⟩
  | junction e he => cases hink
  | stub e he => cases hink
  | name e he i c hname => exact Or.inr ⟨e, he, i, c, hname, rfl⟩
  | trunk e he hon y hy hstop => cases hink

theorem of_horizontal (hp : t.Paints p) (hink : p.ink = .line .horizontal) :
    ∃ e ∈ t.branches, p = ⟨⟨(2 * e.lead.length + 1 : Nat), e.row⟩, .line .horizontal, '-'⟩ := by
  cases hp with
  | top x c hname => cases hink
  | junction e he => cases hink
  | stub e he => exact ⟨e, he, rfl⟩
  | name e he i c hname => cases hink
  | trunk e he hon y hy hstop => cases hink

theorem of_vertical (hp : t.Paints p) (hink : p.ink = .line .vertical) :
    ∃ e ∈ t.branches, e.goesOn = true ∧ ∃ y : Nat, e.row < y ∧ y < e.stop ∧
      p = ⟨⟨(2 * e.lead.length : Nat), y⟩, .line .vertical, '|'⟩ := by
  cases hp with
  | top x c hname => cases hink
  | junction e he => cases hink
  | stub e he => cases hink
  | name e he i c hname => cases hink
  | trunk e he hon y hy hstop => exact ⟨e, he, hon, y, hy, hstop, rfl⟩

theorem of_mark {m : Mark} (hp : t.Paints m.paint) : ∃ e ∈ t.branches, m = e.mark := by
  generalize hpaint : m.paint = p at hp
  cases hp with
  | junction e he =>
    exact ⟨e, he, Mark.eq_of_paint hpaint⟩
  | top x c hname => cases congrArg Paint.ink hpaint
  | stub e he => cases congrArg Paint.ink hpaint
  | name e he i c hname => cases congrArg Paint.ink hpaint
  | trunk e he hon y hy hstop => cases congrArg Paint.ink hpaint

end Paints

theorem whole_top (hne : t.name ≠ []) : TextRun.Whole t.Paints ⟨⟨0, 0⟩, t.name⟩ := by
  refine ⟨hne, fun p hp => ?_, fun p hp hink hrow => ?_⟩
  · obtain ⟨i, c, hc, rfl⟩ := TextRun.mem_paints.1 hp
    simpa using Paints.top i c hc
  · rcases hp.of_text hink with ⟨x, c, hc, rfl⟩ | ⟨e, he, i, c, -, rfl⟩
    · have hx := (List.getElem?_eq_some_iff.1 hc).1
      simp only [TextRun.stop]
      omega
    · have hbounds := Forest.row_bounds he
      simp only at hrow
      omega

theorem whole_textRun (he : e ∈ t.branches) (hne : e.name ≠ []) : e.textRun.Whole t.Paints := by
  refine ⟨hne, fun p hp => ?_, fun p hp hink hrow => ?_⟩
  · obtain ⟨i, c, hc, rfl⟩ := TextRun.mem_paints.1 hp
    exact Paints.name e he i c hc
  · rcases hp.of_text hink with ⟨x, c, hc, rfl⟩ | ⟨x, hx, i, c, hc, rfl⟩
    · have hbounds := Forest.row_bounds he
      simp only [Branch.textRun] at hrow
      omega
    · obtain rfl : x = e := Forest.eq_of_row hx he (Int.ofNat.inj hrow)
      have hi := (List.getElem?_eq_some_iff.1 hc).1
      simp only [TextRun.stop, Branch.textRun]
      omega

theorem whole_stub (he : e ∈ t.branches) : e.stub.Whole t.Paints := by
  refine ⟨⟨le_refl _, fun harrow => absurd harrow Bool.false_ne_true⟩, fun p hp => ?_,
    fun p hp hink hlane hposition => ?_, fun p hp hink hlane hposition => ?_⟩
  · obtain ⟨k, hfirst, hlast, rfl⟩ := LineRun.exists_of_mem_headless rfl hp
    obtain rfl : k = (2 * e.lead.length + 1 : Nat) := le_antisymm hlast hfirst
    exact .stub e he
  · obtain ⟨x, -, rfl⟩ := hp.of_horizontal hink
    simp only [Axis.position, Branch.stub] at hposition
    omega
  · obtain ⟨x, -, rfl⟩ := hp.of_horizontal hink
    simp only [Axis.position, Branch.stub] at hposition
    omega

theorem whole_trunk (he : e ∈ t.branches) (hon : e.goesOn = true) (hinside : e.inside ≠ .nil) :
    e.trunk.Whole t.Paints := by
  have hsize : 0 < e.inside.size := by
    cases hcases : e.inside with
    | nil => exact absurd hcases hinside
    | cons name inside rest =>
      rw [Forest.size]
      omega
  -- a line in the column of the directory belongs to one beside it, not around it
  have hlane {x s : Branch} (hx : x ∈ t.branches) (hlength : x.lead.length = e.lead.length)
      (hs : s ∈ t.branches) (hlead : s.lead = e.lead) : ¬ (x.row < s.row ∧ s.row < x.stop) := by
    intro hrow
    have hblock := (Forest.lead_isPrefix ((Forest.mem_below_iff hx hs).2 hrow)).length_le
    rw [hlead, List.length_append, List.length_singleton] at hblock
    omega
  refine ⟨⟨?_, fun harrow => absurd harrow Bool.false_ne_true⟩, fun p hp => ?_,
    fun p hp hink hplane hposition => ?_, fun p hp hink hplane hposition => ?_⟩
  · simp only [Branch.trunk]
    omega
  · obtain ⟨k, hfirst, hlast, rfl⟩ := LineRun.exists_of_mem_headless rfl hp
    simp only [Branch.trunk] at hfirst hlast
    obtain ⟨y, rfl⟩ := Int.eq_ofNat_of_zero_le (show 0 ≤ k by omega)
    exact .trunk e he hon y (by omega) (by rw [Branch.stop]; omega)
  · obtain ⟨x, hx, -, y, hy, hstop, rfl⟩ := hp.of_vertical hink
    simp only [Axis.lane, Axis.position, Branch.trunk] at hplane hposition
    exact absurd ⟨by omega, by omega⟩ (hlane hx (by omega) he rfl)
  · obtain ⟨x, hx, -, y, hy, hstop, rfl⟩ := hp.of_vertical hink
    obtain ⟨s, hs, hrow, -, hlead, -⟩ := Forest.exists_next he hon
    simp only [Axis.lane, Axis.position, Branch.trunk] at hplane hposition
    rw [Branch.stop] at hrow
    exact absurd ⟨by omega, by omega⟩ (hlane hx (by omega) hs hlead)

/-! ## The scan of a listing -/

/-- Directories with siblings below and directories inside have a trunk. -/
def trunks (t : DirectoryTree) : List Branch :=
  t.branches.filter fun e => e.goesOn && e.inside ≠ .nil

theorem mem_trunks : e ∈ t.trunks ↔ e ∈ t.branches ∧ e.goesOn = true ∧ e.inside ≠ .nil := by
  simp [trunks]

/-- Items in the rows of different directories are different. -/
theorem nodup_map_branches {α : Type} {item : Branch → α} {bs : List Branch}
    (hbs : bs.Sublist t.branches) (hrow : ∀ e e', item e = item e' → e.row = e'.row) :
    (bs.map item).Nodup := by
  have hnodup : t.branches.Nodup := (Forest.nodup_map_row _ 0 1 []).of_map
  refine (hnodup.sublist hbs).map_on fun e he e' he' heq => ?_
  exact Forest.eq_of_row (hbs.subset he) (hbs.subset he') (hrow e e' heq)

section Items

variable (h : ∀ name ∈ t.names, IsPlain name)
include h

theorem mem_marks_text {m : Mark} :
    m ∈ (Scan.ofTree t.text).marks ↔ m ∈ t.branches.map Branch.mark := by
  rw [Scan.ofTree, mem_marks_iff Reading.faithful_ofTree, ← grid, painted_iff h, List.mem_map]
  constructor
  · intro hm
    obtain ⟨e, he, rfl⟩ := hm.of_mark
    exact ⟨e, he, rfl⟩
  · rintro ⟨e, he, rfl⟩
    exact .junction e he

theorem mem_texts_text {run : TextRun} :
    run ∈ (Scan.ofTree t.text).texts ↔
      run ∈ ⟨⟨0, 0⟩, t.name⟩ :: t.branches.map Branch.textRun := by
  obtain ⟨htop, hbelow⟩ := forall_names h
  rw [Scan.ofTree, mem_texts_iff Reading.faithful_ofTree, ← grid, painted_eq h, List.mem_cons,
    List.mem_map]
  constructor
  · intro hrun
    -- the run that its first character belongs to
    have hfirst := TextRun.mem_paints_of_lt (List.length_pos_iff.2 hrun.written)
    rcases (hrun.painted _ hfirst).of_text rfl with ⟨x, c, hc, hp⟩ | ⟨e, he, i, c, hc, hp⟩
    · refine Or.inl (hrun.eq_of_mem (singleChar_paints h) (whole_top htop.1) hfirst
        (TextRun.mem_paints.2 ⟨x, c, hc, rfl⟩) ?_)
      rw [hp]
      simp
    · refine Or.inr ⟨e, he, (hrun.eq_of_mem (singleChar_paints h)
        (whole_textRun he (hbelow e he).1) hfirst (TextRun.mem_paints.2 ⟨i, c, hc, rfl⟩) ?_).symm⟩
      rw [hp]
      rfl
  · rintro (rfl | ⟨e, he, rfl⟩)
    · exact whole_top htop.1
    · exact whole_textRun he (hbelow e he).1

theorem mem_lines_text {l : LineRun} :
    l ∈ (Scan.ofTree t.text).lines ↔
      l ∈ t.branches.map Branch.stub ++ t.trunks.map Branch.trunk := by
  rw [Scan.ofTree, mem_lines_iff Reading.faithful_ofTree, ← grid, painted_eq h, List.mem_append,
    List.mem_map, List.mem_map]
  constructor
  · intro hl
    -- the line that its first cell belongs to
    have hfirst : l.axis.cellAt l.lane l.first ∈ l.cells :=
      LineRun.cellAt_mem_cells.2 ⟨le_refl _, hl.solid.1⟩
    have hpaint := hl.paint hfirst
    cases haxis : l.axis with
    | horizontal =>
      obtain ⟨e, he, hp⟩ := hpaint.of_horizontal (by rw [haxis])
      have hcell := congrArg Paint.cell hp
      refine Or.inl ⟨e, he,
        (hl.eq_of_mem (singleChar_paints h) (whole_stub he) haxis hfirst ?_).symm⟩
      rw [show l.axis.cellAt l.lane l.first = _ from hcell]
      exact LineRun.mem_cells.2 ⟨rfl, le_refl _, le_refl _⟩
    | vertical =>
      obtain ⟨e, he, hon, y, hy, hstop, hp⟩ := hpaint.of_vertical (by rw [haxis])
      have hcell := congrArg Paint.cell hp
      rw [Branch.stop] at hstop
      have hinside : e.inside ≠ .nil := by
        intro hnil
        rw [hnil, Forest.size] at hstop
        omega
      refine Or.inr ⟨e, mem_trunks.2 ⟨he, hon, hinside⟩,
        (hl.eq_of_mem (singleChar_paints h) (whole_trunk he hon hinside) haxis hfirst ?_).symm⟩
      rw [show l.axis.cellAt l.lane l.first = _ from hcell]
      refine LineRun.mem_cells.2 ⟨rfl, ?_, ?_⟩
      · simp only [Branch.trunk, Axis.position]
        omega
      · simp only [Branch.trunk, Axis.position]
        omega
  · rintro (⟨e, he, rfl⟩ | ⟨e, he, rfl⟩)
    · exact whole_stub he
    · obtain ⟨he, hon, hinside⟩ := mem_trunks.1 he
      exact whole_trunk he hon hinside

end Items

/-- The scan of a listing finds the tree: a junction and a name for each directory, a line between
the two, and a line down to the next sibling past what is inside. -/
theorem scan_text (t : DirectoryTree) (h : ∀ name ∈ t.names, IsPlain name) :
    (Scan.ofTree t.text).marks.toList.Perm (t.branches.map Branch.mark) ∧
      (Scan.ofTree t.text).texts.toList.Perm
        (⟨⟨0, 0⟩, t.name⟩ :: t.branches.map Branch.textRun) ∧
      (Scan.ofTree t.text).lines.toList.Perm
        (t.branches.map Branch.stub ++ t.trunks.map Branch.trunk) ∧
      ∀ e ∈ t.branches, t.lines[e.row]? = some e.line ∧ (e.goesOn = true →
        ∃ s ∈ t.branches, e.later = .cons s.name s.inside s.later ∧ s.parent = e.parent ∧
          s.depth = e.depth ∧ e.trunk.last + 1 = s.row) := by
  have hnodup := nodup_findings (g := t.grid) Reading.faithful_ofTree
  have hall := List.Sublist.refl t.branches
  refine ⟨?_, ?_, ?_, fun e he => ⟨getElem?_lines_row he, fun hon => ?_⟩⟩
  · refine (List.perm_ext_iff_of_nodup hnodup.1 (nodup_map_branches hall fun e e' heq => ?_)).2
      fun m => by rw [Array.mem_toList_iff]; exact mem_marks_text h
    exact Int.ofNat.inj (congrArg (·.cell.y) heq)
  · refine (List.perm_ext_iff_of_nodup hnodup.2.1 (List.nodup_cons.2 ⟨fun htop => ?_,
      nodup_map_branches hall fun e e' heq => ?_⟩)).2
      fun run => by rw [Array.mem_toList_iff]; exact mem_texts_text h
    · obtain ⟨e, he, heq⟩ := List.mem_map.1 htop
      have hrow : (e.row : Int) = 0 := congrArg (·.cell.y) heq
      have hbounds := Forest.row_bounds he
      omega
    · exact Int.ofNat.inj (congrArg (·.cell.y) heq)
  · refine (List.perm_ext_iff_of_nodup hnodup.2.2 (List.nodup_append'.2
      ⟨nodup_map_branches hall fun e e' heq => ?_,
        nodup_map_branches List.filter_sublist fun e e' heq => ?_, fun l hstub htrunk => ?_⟩)).2
      fun l => by rw [Array.mem_toList_iff]; exact mem_lines_text h
    · exact Int.ofNat.inj (congrArg (·.lane) heq)
    · exact Nat.succ.inj (Int.ofNat.inj (congrArg (·.first) heq))
    · obtain ⟨e, -, rfl⟩ := List.mem_map.1 hstub
      obtain ⟨e', -, heq⟩ := List.mem_map.1 htrunk
      cases congrArg (·.axis) heq
  · obtain ⟨s, hs, hrow, hparent, hlead, hlater⟩ := Forest.exists_next he hon
    refine ⟨s, hs, hlater, hparent, ?_, ?_⟩
    · rw [Branch.depth, hlead, Branch.depth]
    · simp only [hrow, Branch.trunk, Branch.stop]
      omega

/-- A listing with bars past two levels of directories. -/
def project : DirectoryTree where
  name := "project".toList
  inside := .cons "src".toList (.cons "core".toList (.cons "io".toList .nil .nil)
    (.cons "test".toList .nil .nil)) (.cons "www".toList .nil (.cons ".git".toList .nil .nil))

theorem scan_project :
    (∀ name ∈ project.names, IsPlain name) ∧
      (Scan.ofTree project.text).lines.toList.Perm
        [⟨.horizontal, 1, 1, 1, .headless⟩, ⟨.horizontal, 2, 3, 3, .headless⟩,
          ⟨.horizontal, 3, 5, 5, .headless⟩, ⟨.horizontal, 4, 3, 3, .headless⟩,
          ⟨.horizontal, 5, 1, 1, .headless⟩, ⟨.vertical, 0, 2, 4, .headless⟩,
          ⟨.vertical, 2, 3, 3, .headless⟩] :=
  ⟨by decide +kernel,
    (scan_text project (by decide +kernel)).2.2.1.trans (.of_eq (by decide +kernel))⟩

end DirectoryTree

end CellSketch
