import Mathlib.Data.List.Nodup
import CellSketch.Listing
import CellSketch.Proofs.Text.LineBreaks

/-!
# Rows — the directories of a listing, row by row

A listing has one row for each directory.  What its lead says about a row is told here by the tree:
which directories are around it, and which of them go on below.

* `Branch` — a directory with its place in the listing;
* `lines_eq` — the lines of a forest are those of its directories;
* `exists_parent` — the lead of a directory is that of the one around it, and one block more;
* `exists_around` — each block of a lead belongs to a directory around the row;
* `exists_next`, `length_lead_lt` — what stands in the first row behind a directory.
-/

namespace CellSketch

/-! ## Directories in rows -/

/-- A directory of a forest with its place in the listing. -/
structure Branch where
  row : Nat
  /-- The row of the directory that it is inside. -/
  parent : Nat
  /-- The blocks before its junction: bar or blank. -/
  lead : List Bool
  name : List Char
  inside : Forest
  /-- Its later siblings. -/
  later : Forest

/-- The text of a lead. -/
def leadText (lead : List Bool) : List Char :=
  lead.flatMap fun bar => if bar then ['|', ' '] else [' ', ' ']

@[simp] theorem leadText_append (a b : List Bool) :
    leadText (a ++ b) = leadText a ++ leadText b := List.flatMap_append

namespace Branch

def depth (e : Branch) : Nat := e.lead.length + 1

/-- Further siblings follow. -/
def goesOn (e : Branch) : Bool := e.later ≠ .nil

/-- The first row behind what is inside. -/
def stop (e : Branch) : Nat := e.row + 1 + e.inside.size

def line (e : Branch) : List Char := leadText e.lead ++ ['+', '-'] ++ e.name

end Branch

namespace Forest

/-- The directories of a forest whose first one is in a row, with a lead. -/
def listed (parent row : Nat) (lead : List Bool) : Forest → List Branch
  | nil => []
  | cons name inside rest =>
      ⟨row, parent, lead, name, inside, rest⟩ ::
        (inside.listed row (row + 1) (lead ++ [decide (rest ≠ nil)]) ++
          rest.listed parent (row + 1 + inside.size) lead)

end Forest

/-- What is inside a listed directory. -/
def Branch.below (e : Branch) : List Branch :=
  e.inside.listed e.row (e.row + 1) (e.lead ++ [e.goesOn])

namespace Forest

variable {f : Forest} {p r : Nat} {lead : List Bool} {a e : Branch}

theorem leadText_bar (rest : Forest) : leadText [decide (rest ≠ nil)] = rest.bar := by
  cases rest <;> rfl

/-- The lines of a forest are the lines of its directories. -/
theorem lines_eq (f : Forest) (p r : Nat) (lead : List Bool) :
    f.lines (leadText lead) = (f.listed p r lead).map Branch.line := by
  induction f generalizing p r lead with
  | nil => rfl
  | cons name inside rest ihInside ihRest =>
    have hlead : leadText lead ++ rest.bar = leadText (lead ++ [decide (rest ≠ nil)]) := by
      rw [leadText_append, leadText_bar]
    rw [lines, listed, List.map_cons, List.map_append, hlead, ihInside r (r + 1),
      ihRest p (r + 1 + inside.size), List.cons_append, Branch.line]

/-! ## Rows -/

theorem map_row (f : Forest) (p r : Nat) (lead : List Bool) :
    (f.listed p r lead).map Branch.row = List.range' r f.size := by
  induction f generalizing p r lead with
  | nil => rfl
  | cons name inside rest ihInside ihRest =>
    rw [listed, List.map_cons, List.map_append, ihInside, ihRest, size, Nat.add_assoc 1,
      Nat.add_comm 1, List.range'_succ, List.range'_append_1]

theorem length_listed (f : Forest) (p r : Nat) (lead : List Bool) :
    (f.listed p r lead).length = f.size := by
  rw [← List.length_map (f := Branch.row), map_row, List.length_range']

theorem row_of_getElem? {i : Nat} (h : (f.listed p r lead)[i]? = some e) : e.row = r + i := by
  have hrow : ((f.listed p r lead).map Branch.row)[i]? = some e.row := by
    rw [List.getElem?_map, h]
    rfl
  rw [map_row, List.getElem?_eq_some_iff] at hrow
  obtain ⟨hi, hrow⟩ := hrow
  rw [List.getElem_range'] at hrow
  omega

theorem exists_row_iff {i : Nat} :
    (∃ e ∈ f.listed p r lead, e.row = i) ↔ r ≤ i ∧ i < r + f.size := by
  rw [← List.mem_range'_1, ← map_row f p r lead, List.mem_map]

theorem row_bounds (h : e ∈ f.listed p r lead) : r ≤ e.row ∧ e.row < r + f.size :=
  exists_row_iff.1 ⟨e, h, rfl⟩

theorem nodup_map_row (f : Forest) (p r : Nat) (lead : List Bool) :
    ((f.listed p r lead).map Branch.row).Nodup := by
  rw [map_row]
  exact List.nodup_range'

/-- A row has one directory. -/
theorem eq_of_row (ha : a ∈ f.listed p r lead) (he : e ∈ f.listed p r lead)
    (hrow : a.row = e.row) : a = e :=
  List.inj_on_of_nodup_map (f.nodup_map_row p r lead) ha he hrow

/-! ## Leads -/

theorem mem_listed_cons {name : List Char} {inside rest : Forest} :
    e ∈ (cons name inside rest).listed p r lead ↔ e = ⟨r, p, lead, name, inside, rest⟩ ∨
      e ∈ inside.listed r (r + 1) (lead ++ [decide (rest ≠ nil)]) ∨
      e ∈ rest.listed p (r + 1 + inside.size) lead := by
  rw [listed, List.mem_cons, List.mem_append]

theorem lead_isPrefix (h : e ∈ f.listed p r lead) : lead <+: e.lead := by
  induction f generalizing p r lead with
  | nil => cases h
  | cons name inside rest ihInside ihRest =>
    rcases mem_listed_cons.1 h with rfl | hinside | hrest
    · exact List.prefix_rfl
    · exact (List.prefix_append _ _).trans (ihInside hinside)
    · exact ihRest hrest

/-- What is inside a directory of a forest belongs to the forest. -/
theorem mem_of_mem_below (ha : a ∈ f.listed p r lead) (he : e ∈ a.below) :
    e ∈ f.listed p r lead := by
  induction f generalizing p r lead with
  | nil => cases ha
  | cons name inside rest ihInside ihRest =>
    rw [mem_listed_cons]
    rcases mem_listed_cons.1 ha with rfl | hinside | hrest
    · exact Or.inr (Or.inl he)
    · exact Or.inr (Or.inl (ihInside hinside))
    · exact Or.inr (Or.inr (ihRest hrest))

/-- The lead of a directory is that of the one around it, and one block more. -/
theorem exists_parent (h : e ∈ f.listed p r lead) :
    (e.parent = p ∧ e.lead = lead) ∨
      ∃ a ∈ f.listed p r lead, e ∈ a.below ∧ e.parent = a.row ∧ e.lead = a.lead ++ [a.goesOn] := by
  induction f generalizing p r lead with
  | nil => cases h
  | cons name inside rest ihInside ihRest =>
    rcases mem_listed_cons.1 h with rfl | hinside | hrest
    · exact Or.inl ⟨rfl, rfl⟩
    · right
      rcases ihInside hinside with ⟨hparent, hlead⟩ | ⟨a, ha, hbelow⟩
      · exact ⟨_, mem_listed_cons.2 (Or.inl rfl), hinside, hparent, hlead⟩
      · exact ⟨a, mem_listed_cons.2 (Or.inr (Or.inl ha)), hbelow⟩
    · rcases ihRest hrest with houter | ⟨a, ha, hbelow⟩
      · exact Or.inl houter
      · exact Or.inr ⟨a, mem_listed_cons.2 (Or.inr (Or.inr ha)), hbelow⟩

theorem parent_bounds (h : e ∈ f.listed p r lead) :
    e.parent = p ∨ r ≤ e.parent ∧ e.parent < r + f.size := by
  rcases exists_parent h with ⟨hparent, -⟩ | ⟨a, ha, -, hparent, -⟩
  · exact Or.inl hparent
  · rw [hparent]
    exact Or.inr (row_bounds ha)

/-- What is inside a directory stands in the rows between it and its stop. -/
theorem mem_below_iff (ha : a ∈ f.listed p r lead) (he : e ∈ f.listed p r lead) :
    e ∈ a.below ↔ a.row < e.row ∧ e.row < a.stop := by
  constructor
  · intro hbelow
    have hrow := row_bounds hbelow
    rw [Branch.stop]
    omega
  · rintro ⟨hrow, hstop⟩
    obtain ⟨e', hbelow, heq⟩ : ∃ e' ∈ a.below, e'.row = e.row := exists_row_iff.2 ⟨hrow, hstop⟩
    rwa [eq_of_row he (mem_of_mem_below ha hbelow) heq.symm]

/-- Each block of a lead belongs to a directory around the row, and is a bar if that one goes on. -/
theorem exists_around (h : e ∈ f.listed p r lead) {k : Nat} (hfrom : lead.length ≤ k)
    (hk : k < e.lead.length) :
    ∃ a ∈ f.listed p r lead, e ∈ a.below ∧ a.lead.length = k ∧ e.lead[k] = a.goesOn := by
  induction f generalizing p r lead with
  | nil => cases h
  | cons name inside rest ihInside ihRest =>
    rcases mem_listed_cons.1 h with rfl | hinside | hrest
    · exact absurd hk (Nat.not_lt.2 hfrom)
    · by_cases hkey : k = lead.length
      · refine ⟨_, mem_listed_cons.2 (Or.inl rfl), hinside, hkey.symm, ?_⟩
        obtain ⟨more, hlead⟩ := lead_isPrefix hinside
        subst hkey
        simp [← hlead, Branch.goesOn]
      · obtain ⟨a, ha, haround⟩ := ihInside hinside (by simp; omega)
        exact ⟨a, mem_listed_cons.2 (Or.inr (Or.inl ha)), haround⟩
    · obtain ⟨a, ha, haround⟩ := ihRest hrest hfrom
      exact ⟨a, mem_listed_cons.2 (Or.inr (Or.inr ha)), haround⟩

/-- What is inside a directory has its block in the lead. -/
theorem lead_of_mem_below (h : e ∈ a.below) : e.lead[a.lead.length]? = some a.goesOn := by
  obtain ⟨more, hlead⟩ := lead_isPrefix h
  simp [← hlead]

/-! ## The first row behind a directory -/

/-- A directory that goes on is followed by its next sibling. -/
theorem exists_next (h : e ∈ f.listed p r lead) (hon : e.goesOn = true) :
    ∃ s ∈ f.listed p r lead, s.row = e.stop ∧ s.parent = e.parent ∧ s.lead = e.lead ∧
      e.later = .cons s.name s.inside s.later := by
  induction f generalizing p r lead with
  | nil => cases h
  | cons name inside rest ihInside ihRest =>
    rcases mem_listed_cons.1 h with rfl | hinside | hrest
    · cases rest with
      | nil => cases hon
      | cons other inside' rest' =>
        refine ⟨_, mem_listed_cons.2 (Or.inr (Or.inr (mem_listed_cons.2 (Or.inl rfl)))), ?_⟩
        exact ⟨rfl, rfl, rfl, rfl⟩
    · obtain ⟨s, hs, hnext⟩ := ihInside hinside
      exact ⟨s, mem_listed_cons.2 (Or.inr (Or.inl hs)), hnext⟩
    · obtain ⟨s, hs, hnext⟩ := ihRest hrest
      exact ⟨s, mem_listed_cons.2 (Or.inr (Or.inr hs)), hnext⟩

/-- A directory goes on if another one in its directory follows. -/
theorem goesOn_of_sibling (h : e ∈ f.listed p r lead) {s : Branch} (hs : s ∈ f.listed p r lead)
    (hp : p < r) (hrow : e.row < s.row) (hparent : s.parent = e.parent) : e.goesOn = true := by
  induction f generalizing p r lead with
  | nil => cases h
  | cons name inside rest ihInside ihRest =>
    rcases mem_listed_cons.1 h with rfl | hinside | hrest
    · rcases mem_listed_cons.1 hs with rfl | hs' | hs'
      · exact absurd hrow (Nat.lt_irrefl _)
      · have hbounds := parent_bounds hs'
        dsimp only at hparent
        omega
      · cases rest with
        | nil => cases hs'
        | cons => rfl
    · have hbounds := row_bounds hinside
      have hpbounds := parent_bounds hinside
      rcases mem_listed_cons.1 hs with rfl | hs' | hs'
      · dsimp only at hrow
        omega
      · exact ihInside hinside hs' (Nat.lt_succ_self r)
      · have hs'' := parent_bounds hs'
        omega
    · have hbounds := row_bounds hrest
      rcases mem_listed_cons.1 hs with rfl | hs' | hs'
      · dsimp only at hrow
        omega
      · have hs'' := row_bounds hs'
        omega
      · exact ihRest hrest hs' (by omega)

theorem stop_le (h : e ∈ f.listed p r lead) : e.stop ≤ r + f.size := by
  induction f generalizing p r lead with
  | nil => cases h
  | cons name inside rest ihInside ihRest =>
    rw [size]
    rcases mem_listed_cons.1 h with rfl | hinside | hrest
    · simp only [Branch.stop]
      omega
    · have hstop := ihInside hinside
      omega
    · have hstop := ihRest hrest
      omega

/-- Behind the last of its siblings the lead is shorter. -/
theorem length_lead_lt (h : e ∈ f.listed p r lead) (hlast : e.goesOn = false) {s : Branch}
    (hs : s ∈ f.listed p r lead) (hrow : s.row = e.stop) : s.lead.length < e.lead.length := by
  induction f generalizing p r lead with
  | nil => cases h
  | cons name inside rest ihInside ihRest =>
    rcases mem_listed_cons.1 h with rfl | hinside | hrest
    · -- there is no row behind the last directory
      obtain rfl : rest = nil := by simpa [Branch.goesOn] using hlast
      have hbounds := row_bounds hs
      simp only [Branch.stop, size] at hrow hbounds
      omega
    · have hbounds := row_bounds hinside
      have hstop := stop_le hinside
      rw [Branch.stop] at hrow hstop
      rcases mem_listed_cons.1 hs with rfl | hs' | hs'
      · dsimp only at hrow
        omega
      · exact ihInside hinside hs'
      · -- the first row of what follows
        rcases exists_parent hs' with ⟨-, hlead⟩ | ⟨a, ha, hbelow, -⟩
        · have hlength := (lead_isPrefix hinside).length_le
          rw [List.length_append, List.length_singleton] at hlength
          rw [hlead]
          omega
        · have ha' := row_bounds ha
          have hs'' := row_bounds hbelow
          omega
    · have hbounds := row_bounds hrest
      rw [Branch.stop] at hrow
      rcases mem_listed_cons.1 hs with rfl | hs' | hs'
      · dsimp only at hrow
        omega
      · have hs'' := row_bounds hs'
        omega
      · exact ihRest hrest hs'

end Forest

/-! ## The listing of a tree -/

namespace DirectoryTree

/-- The directories that are listed below the top. -/
def branches (t : DirectoryTree) : List Branch := t.inside.visible.listed 0 1 []

/-- The names that are listed. -/
def names (t : DirectoryTree) : List (List Char) := t.name :: t.branches.map (·.name)

theorem lines_eq_cons (t : DirectoryTree) : t.lines = t.name :: t.branches.map Branch.line := by
  rw [lines, branches, ← Forest.lines_eq]
  rfl

theorem row_of_getElem?_branches {t : DirectoryTree} {e : Branch} {i : Nat}
    (h : t.branches[i]? = some e) : e.row = i + 1 := by
  rw [Forest.row_of_getElem? h, Nat.add_comm]

/-- A line below the top is the line of the directory in its row. -/
theorem getElem?_lines {t : DirectoryTree} {i : Nat} {line : List Char} :
    t.lines[i + 1]? = some line ↔ ∃ e ∈ t.branches, e.row = i + 1 ∧ e.line = line := by
  rw [lines_eq_cons, List.getElem?_cons_succ, List.getElem?_map, Option.map_eq_some_iff]
  constructor
  · rintro ⟨e, he, hline⟩
    exact ⟨e, List.mem_of_getElem? he, row_of_getElem?_branches he, hline⟩
  · rintro ⟨e, he, hrow, hline⟩
    obtain ⟨j, hj⟩ := List.mem_iff_getElem?.1 he
    obtain rfl : j = i := Nat.succ.inj ((row_of_getElem?_branches hj).symm.trans hrow)
    exact ⟨e, hj, hline⟩

theorem getElem?_lines_row {t : DirectoryTree} {e : Branch} (he : e ∈ t.branches) :
    t.lines[e.row]? = some e.line := by
  have hbounds := Forest.row_bounds he
  obtain ⟨i, hi⟩ : ∃ i, e.row = i + 1 := ⟨e.row - 1, by omega⟩
  rw [hi]
  exact getElem?_lines.2 ⟨e, he, hi, rfl⟩

theorem forall_names {t : DirectoryTree} {P : List Char → Prop} (h : ∀ name ∈ t.names, P name) :
    P t.name ∧ ∀ e ∈ t.branches, P e.name :=
  ⟨h _ List.mem_cons_self, fun _ he => h _ (List.mem_cons_of_mem _ (List.mem_map_of_mem he))⟩

/-- What the lines consist of. -/
theorem forall_mem_line {P : Char → Prop} {t : DirectoryTree} (hbar : P '|') (hblank : P ' ')
    (hplus : P '+') (hdash : P '-') (h : ∀ name ∈ t.names, ∀ c ∈ name, P c) :
    ∀ line ∈ t.lines, ∀ c ∈ line, P c := by
  obtain ⟨htop, hbelow⟩ := forall_names h
  intro line hline c hc
  rw [lines_eq_cons, List.mem_cons, List.mem_map] at hline
  rcases hline with rfl | ⟨e, he, rfl⟩
  · exact htop c hc
  · rw [Branch.line, List.mem_append, List.mem_append] at hc
    rcases hc with (hlead | hjunction) | hname
    · obtain ⟨bar, -, hblock⟩ := List.mem_flatMap.1 hlead
      cases bar
      · rcases List.mem_pair.1 hblock with rfl | rfl <;> exact hblank
      · rcases List.mem_pair.1 hblock with rfl | rfl
        · exact hbar
        · exact hblank
    · rcases List.mem_pair.1 hjunction with rfl | rfl
      · exact hplus
      · exact hdash
    · exact hbelow e he c hname

/-- The listing is read as the lines it is written in. -/
theorem lines_text {t : DirectoryTree}
    (h : ∀ name ∈ t.names, ∀ c ∈ name, Text.isLineBreak c = false) (hne : t.text ≠ []) :
    Text.lines t.text = t.lines := by
  refine Text.lines_joinWith _ (forall_mem_line rfl rfl rfl rfl h) fun hlast => hne ?_
  cases hbranches : t.branches with
  | nil =>
    rw [lines_eq_cons, hbranches] at hlast
    rw [text, lines_eq_cons, hbranches, show t.name = [] by simpa using hlast]
    rfl
  | cons e rest =>
    -- a line below the top has its junction
    rw [lines_eq_cons, hbranches, List.map_cons, List.getLast?_cons_cons, ← List.map_cons] at hlast
    obtain ⟨b, -, hline⟩ := List.mem_map.1 (List.mem_of_getLast? hlast)
    simp [Branch.line] at hline

end DirectoryTree

end CellSketch
