import CellSketch.Proofs.Listing.Rows
import CellSketch.Proofs.Listing.Visible

/-!
# ReadBack — a directory tree is read back from its listing

A reader of a listing sees lines only.  The blocks before a junction give the depth of a line, and
the nearest earlier line that is one less deep is the directory it is in.

* `splitLine_eq_some_iff` — a line is split into blocks, junction and name in one way only;
* `parent?_row` — the nearest earlier row that is one less deep is the directory around a row;
* `ofList_below` — what is read below a row is what is inside the directory there;
* `exists_ancestor` — the blocks of a line tell which of the directories around it go on;
* `readsBack_text` — all of that for the listing of a tree.
-/

namespace CellSketch

/-! ## The reader -/

/-- The blocks of a line and the name behind its junction. -/
def splitLine : List Char → Option (List Bool × List Char)
  | '|' :: ' ' :: rest => (splitLine rest).map fun found => (true :: found.1, found.2)
  | ' ' :: ' ' :: rest => (splitLine rest).map fun found => (false :: found.1, found.2)
  | '+' :: '-' :: name => some ([], name)
  | _ => none

/-- The depth of a line and the name in it. -/
def readLine (line : List Char) : Nat × List Char :=
  match splitLine line with
  | some (blocks, name) => (blocks.length + 1, name)
  | none => (0, line)

/-- The rows of a listing: the first line is the top. -/
def readRows : List (List Char) → List (Nat × List Char)
  | [] => []
  | top :: rest => (0, top) :: rest.map readLine

/-- The last number below a bound that passes a test. -/
def lastBelow (test : Nat → Bool) : Nat → Option Nat
  | 0 => none
  | i + 1 => if test i then some i else lastBelow test i

namespace Rows

variable (rows : List (Nat × List Char))

def depth? (i : Nat) : Option Nat := rows[i]?.map (·.1)

def name (i : Nat) : List Char := (rows[i]?.map (·.2)).getD []

/-- The nearest earlier row that is one less deep. -/
def parent? (i : Nat) : Option Nat :=
  lastBelow (fun h => (depth? rows h).map (· + 1) == depth? rows i) i

def children (i : Nat) : List Nat :=
  (List.range rows.length).filter fun j => parent? rows j == some i

/-- So many parents up. -/
def ancestor? : Nat → Nat → Option Nat
  | 0, i => some i
  | n + 1, i => (parent? rows i).bind (ancestor? n)

def HasLaterSibling (i : Nat) : Prop :=
  ∃ s, i < s ∧ s < rows.length ∧ parent? rows s = parent? rows i

end Rows

/-- Directories side by side. -/
def Forest.ofList : List (List Char × Forest) → Forest
  | [] => nil
  | (name, inside) :: rest => cons name inside (ofList rest)

theorem lastBelow_eq_some_iff {test : Nat → Bool} {i h : Nat} :
    lastBelow test i = some h ↔
      h < i ∧ test h = true ∧ ∀ k, h < k → k < i → test k = false := by
  induction i with
  | zero => simp [lastBelow]
  | succ i ih =>
    rw [lastBelow]
    by_cases htest : test i = true
    · rw [if_pos htest, Option.some.injEq]
      constructor
      · rintro rfl
        exact ⟨Nat.lt_succ_self _, htest, fun k hk hk' => by omega⟩
      · rintro ⟨hlt, -, hnone⟩
        by_contra hne
        have hfalse := hnone i (by omega) (Nat.lt_succ_self i)
        exact absurd (htest.symm.trans hfalse) (by decide)
    · rw [if_neg htest, ih]
      rw [Bool.not_eq_true] at htest
      constructor
      · rintro ⟨hlt, hh, hnone⟩
        refine ⟨by omega, hh, fun k hk hk' => ?_⟩
        rcases Nat.lt_or_ge k i with hki | hki
        · exact hnone k hk hki
        · obtain rfl : k = i := by omega
          exact htest
      · rintro ⟨hlt, hh, hnone⟩
        have hne : h ≠ i := by
          rintro rfl
          exact absurd (hh.symm.trans htest) (by decide)
        exact ⟨by omega, hh, fun k hk hk' => hnone k hk (by omega)⟩

namespace Rows

variable {rows : List (Nat × List Char)} {i j : Nat}

theorem lt_of_mem_children (h : j ∈ children rows i) : i < j ∧ j < rows.length := by
  rw [children, List.mem_filter, List.mem_range, beq_iff_eq] at h
  exact ⟨(lastBelow_eq_some_iff.1 h.2).1, h.1⟩

/-- The directories that are read below a row. -/
def below (rows : List (Nat × List Char)) (i : Nat) : Forest :=
  .ofList ((children rows i).attach.map fun j => (name rows j.1, below rows j.1))
termination_by rows.length - i
decreasing_by
  have h := lt_of_mem_children j.2
  omega

/-- The tree that is read from its rows. -/
def tree? (rows : List (Nat × List Char)) : Option DirectoryTree :=
  rows.head?.map fun top => ⟨top.2, below rows 0⟩

theorem below_eq (rows : List (Nat × List Char)) (i : Nat) :
    below rows i = .ofList ((children rows i).map fun j => (name rows j, below rows j)) := by
  rw [below, List.attach_map_val (f := fun j => (name rows j, below rows j))]

end Rows

/-! ## Lines -/

/-- A line is split into blocks, junction and name in one way only. -/
theorem splitLine_eq_some_iff {line : List Char} {blocks : List Bool} {name : List Char} :
    splitLine line = some (blocks, name) ↔ line = leadText blocks ++ ['+', '-'] ++ name := by
  constructor
  · intro h
    fun_induction splitLine line generalizing blocks with
    | case1 rest ih =>
      obtain ⟨⟨more, name'⟩, hmore, heq⟩ := Option.map_eq_some_iff.1 h
      obtain ⟨rfl, rfl⟩ := Prod.mk.inj heq
      rw [ih hmore]
      rfl
    | case2 rest ih =>
      obtain ⟨⟨more, name'⟩, hmore, heq⟩ := Option.map_eq_some_iff.1 h
      obtain ⟨rfl, rfl⟩ := Prod.mk.inj heq
      rw [ih hmore]
      rfl
    | case3 name' =>
      obtain ⟨rfl, rfl⟩ := Prod.mk.inj (Option.some.inj h)
      rfl
    | case4 => cases h
  · rintro rfl
    induction blocks with
    | nil => rfl
    | cons bar more ih =>
      cases bar
      · exact congrArg (Option.map _) ih
      · exact congrArg (Option.map _) ih

theorem Branch.splitLine_line (e : Branch) : splitLine e.line = some (e.lead, e.name) :=
  splitLine_eq_some_iff.2 rfl

/-- What a reader finds in the row of a directory. -/
def Branch.read (e : Branch) : Nat × List Char := (e.depth, e.name)

theorem Branch.readLine_line (e : Branch) : readLine e.line = e.read := by
  rw [readLine, e.splitLine_line]
  rfl

namespace Forest

/-- The directories of a forest in depth-first order, each with its depth. -/
def depthFirst (depth : Nat) : Forest → List (Nat × List Char)
  | nil => []
  | cons name inside rest =>
      (depth, name) :: (inside.depthFirst (depth + 1) ++ rest.depthFirst depth)

theorem map_read (f : Forest) (p r : Nat) (lead : List Bool) :
    (f.listed p r lead).map Branch.read = f.depthFirst (lead.length + 1) := by
  induction f generalizing p r lead with
  | nil => rfl
  | cons name inside rest ihInside ihRest =>
    rw [listed, List.map_cons, List.map_append, ihInside, ihRest, depthFirst, List.length_append]
    rfl

end Forest

/-! ## Rows of a tree -/

section Tree

variable {t : DirectoryTree} {e : Branch}

/-- What a reader finds in the rows of a tree. -/
def DirectoryTree.rows (t : DirectoryTree) : List (Nat × List Char) :=
  (0, t.name) :: t.branches.map Branch.read

theorem readRows_lines (t : DirectoryTree) : readRows t.lines = t.rows := by
  rw [t.lines_eq_cons, readRows, List.map_map, DirectoryTree.rows]
  congr 1
  exact List.map_congr_left fun e _ => e.readLine_line

theorem DirectoryTree.length_rows (t : DirectoryTree) :
    t.rows.length = t.inside.visible.size + 1 := by
  rw [rows, List.length_cons, List.length_map, branches, Forest.length_listed]

theorem DirectoryTree.getElem?_rows (h : e ∈ t.branches) : t.rows[e.row]? = some e.read := by
  obtain ⟨i, hi⟩ := List.mem_iff_getElem?.1 h
  simp [rows, hi, DirectoryTree.row_of_getElem?_branches hi]

theorem depth?_row (h : e ∈ t.branches) : Rows.depth? t.rows e.row = some (e.lead.length + 1) := by
  rw [Rows.depth?, t.getElem?_rows h]
  rfl

/-- The nearest earlier row that is one less deep is the directory around a row. -/
theorem parent?_row (h : e ∈ t.branches) : Rows.parent? t.rows e.row = some e.parent := by
  have hrow := Forest.row_bounds h
  have hdepth (k : Nat) (hk : 0 < k) (hk' : k < e.row) :
      ∃ x ∈ t.branches, x.row = k ∧ Rows.depth? t.rows k = some (x.lead.length + 1) := by
    obtain ⟨x, hx, rfl⟩ : ∃ x ∈ t.branches, x.row = k := Forest.exists_row_iff.2 (by omega)
    exact ⟨x, hx, rfl, depth?_row hx⟩
  rw [Rows.parent?, lastBelow_eq_some_iff, depth?_row h]
  rcases Forest.exists_parent h with ⟨hparent, hlead⟩ | ⟨a, ha, hbelow, hparent, hlead⟩
  · rw [hparent, hlead]
    refine ⟨by omega, rfl, fun k hk hk' => ?_⟩
    obtain ⟨x, -, -, hx⟩ := hdepth k hk hk'
    simp [hx]
  · have hbounds := (Forest.mem_below_iff ha h).1 hbelow
    rw [hparent, hlead, depth?_row ha]
    refine ⟨hbounds.1, by simp, fun k hk hk' => ?_⟩
    -- the rows between are inside the same directory
    obtain ⟨x, hx, rfl, hxdepth⟩ := hdepth k (by omega) hk'
    have hxbelow := (Forest.mem_below_iff ha hx).2 ⟨hk, by omega⟩
    have hlength := (Forest.lead_isPrefix hxbelow).length_le
    rw [List.length_append, List.length_singleton] at hlength
    rw [hxdepth]
    simp
    omega

theorem children_rows (t : DirectoryTree) (q : Nat) :
    Rows.children t.rows q = (t.branches.filter (·.parent == q)).map Branch.row := by
  have hrange : List.range t.rows.length = 0 :: t.branches.map Branch.row := by
    rw [t.length_rows, DirectoryTree.branches, Forest.map_row, List.range_eq_range',
      List.range'_succ]
  rw [Rows.children, hrange, List.filter_cons, if_neg (by simp [Rows.parent?, lastBelow]),
    List.filter_map]
  congr 1
  refine List.filter_congr fun e he => ?_
  rw [Function.comp, parent?_row he]
  rfl

end Tree

/-! ## The tree that is read -/

namespace Forest

variable {f : Forest} {p r : Nat} {lead : List Bool} {rows : List (Nat × List Char)}

/-- The rows of the outer directories. -/
def outerRows (row : Nat) : Forest → List Nat
  | nil => []
  | cons _ inside rest => row :: rest.outerRows (row + 1 + inside.size)

theorem filter_parent_eq_nil {q : Nat} (hp : p ≠ q) (hq : q < r ∨ r + f.size ≤ q) :
    (f.listed p r lead).filter (·.parent == q) = [] := by
  refine List.filter_eq_nil_iff.2 fun e he => ?_
  have hbounds := parent_bounds he
  rw [beq_iff_eq]
  omega

theorem map_row_filter_parent (f : Forest) (lead : List Bool) (hp : p < r) :
    ((f.listed p r lead).filter (·.parent == p)).map Branch.row = f.outerRows r := by
  induction f generalizing r with
  | nil => rfl
  | cons name inside rest _ ih =>
    rw [listed, List.filter_cons_of_pos (by simp), List.filter_append,
      filter_parent_eq_nil hp.ne' (Or.inl (by omega)), List.nil_append, List.map_cons,
      ih (by omega), outerRows]

/-- What is read below the rows of a forest is what is inside its directories. -/
theorem ofList_below (hp : p < r)
    (hname : ∀ e ∈ f.listed p r lead, Rows.name rows e.row = e.name)
    (hchildren : ∀ q, r ≤ q → q < r + f.size →
      Rows.children rows q = ((f.listed p r lead).filter (·.parent == q)).map Branch.row) :
    ofList ((f.outerRows r).map fun j => (Rows.name rows j, Rows.below rows j)) = f := by
  induction f generalizing p r lead with
  | nil => rfl
  | cons name inside rest ihInside ihRest =>
    have hfilter (q : Nat) (hq : p ≠ q) :
        ((cons name inside rest).listed p r lead).filter (·.parent == q) =
          (inside.listed r (r + 1) (lead ++ [decide (rest ≠ nil)])).filter (·.parent == q) ++
            (rest.listed p (r + 1 + inside.size) lead).filter (·.parent == q) := by
      rw [listed, List.filter_cons_of_neg (by simpa using hq), List.filter_append]
    rw [size] at hchildren
    have htop : Rows.children rows r = inside.outerRows (r + 1) := by
      rw [hchildren r (by omega) (by omega), hfilter r hp.ne,
        filter_parent_eq_nil hp.ne (Or.inl (by omega)), List.append_nil]
      exact map_row_filter_parent inside _ (by omega)
    have hinside : ofList ((inside.outerRows (r + 1)).map fun j =>
        (Rows.name rows j, Rows.below rows j)) = inside := by
      refine ihInside (Nat.lt_succ_self r)
        (fun e he => hname e (mem_listed_cons.2 (Or.inr (Or.inl he)))) fun q hq hq' => ?_
      rw [hchildren q (by omega) (by omega), hfilter q (by omega),
        filter_parent_eq_nil (f := rest) (by omega) (Or.inl (by omega)), List.append_nil]
    have hrest : ofList ((rest.outerRows (r + 1 + inside.size)).map fun j =>
        (Rows.name rows j, Rows.below rows j)) = rest := by
      refine ihRest (by omega)
        (fun e he => hname e (mem_listed_cons.2 (Or.inr (Or.inr he)))) fun q hq hq' => ?_
      rw [hchildren q (by omega) (by omega), hfilter q (by omega),
        filter_parent_eq_nil (f := inside) (by omega) (Or.inr (by omega)), List.nil_append]
    rw [outerRows, List.map_cons, ofList, hrest, Rows.below_eq, htop, hinside,
      hname _ (mem_listed_cons.2 (Or.inl rfl))]

end Forest

/-- The rows of a tree are read as the tree that is listed. -/
theorem tree?_rows (t : DirectoryTree) :
    Rows.tree? t.rows = some ⟨t.name, t.inside.visible⟩ := by
  have hname : ∀ e ∈ t.branches, Rows.name t.rows e.row = e.name := by
    intro e he
    rw [Rows.name, t.getElem?_rows he]
    rfl
  have hbelow : Rows.below t.rows 0 = t.inside.visible := by
    rw [Rows.below_eq, children_rows, DirectoryTree.branches,
      Forest.map_row_filter_parent _ _ Nat.zero_lt_one]
    exact Forest.ofList_below Nat.zero_lt_one hname fun q _ _ => children_rows t q
  rw [Rows.tree?, hbelow]
  rfl

/-! ## Blocks -/

section Blocks

variable {t : DirectoryTree} {e : Branch}

/-- Each block of a line stands for the directory around it that has its depth. -/
theorem exists_ancestor (h : e ∈ t.branches) {k : Nat} (hk : k < e.lead.length) :
    ∃ a ∈ t.branches, a.lead.length = k ∧ e.lead[k] = a.goesOn ∧
      Rows.ancestor? t.rows (e.lead.length - k) e.row = some a.row := by
  -- up to the directory around the row, and on from there
  induction hn : e.lead.length generalizing e with
  | zero => omega
  | succ n ih =>
    rcases Forest.exists_parent h with ⟨-, hlead⟩ | ⟨a, ha, -, hparent, hlead⟩
    · rw [hlead] at hn
      cases hn
    · have hlength : a.lead.length = n := by
        rw [hlead, List.length_append, List.length_singleton] at hn
        omega
      have hup (m : Nat) : Rows.ancestor? t.rows (m + 1) e.row = Rows.ancestor? t.rows m a.row := by
        rw [Rows.ancestor?, parent?_row h, hparent, Option.bind_some]
      rcases Nat.lt_or_ge k n with hkn | hkn
      · obtain ⟨b, hb, hbk, hblock, hbup⟩ := ih ha (by omega) hlength
        refine ⟨b, hb, hbk, ?_, ?_⟩
        · rw [← hblock]
          simp [hlead, List.getElem_append_left (show k < a.lead.length by omega)]
        · rw [show n + 1 - k = n - k + 1 by omega, hup, hbup]
      · obtain rfl : k = n := by omega
        refine ⟨a, ha, hlength, ?_, ?_⟩
        · simp [hlead, ← hlength]
        · rw [Nat.add_sub_cancel_left, hup 0, Rows.ancestor?]

/-- In the rows of a tree a directory has a later sibling if it goes on. -/
theorem hasLaterSibling_row (h : e ∈ t.branches) :
    Rows.HasLaterSibling t.rows e.row ↔ e.goesOn = true := by
  constructor
  · rintro ⟨s, hlt, hs, hparent⟩
    have hrow := Forest.row_bounds h
    obtain ⟨x, hx, rfl⟩ : ∃ x ∈ t.branches, x.row = s := by
      rw [t.length_rows] at hs
      exact Forest.exists_row_iff.2 (by omega)
    rw [parent?_row h, parent?_row hx, Option.some.injEq] at hparent
    exact Forest.goesOn_of_sibling h hx Nat.zero_lt_one hlt hparent
  · intro hon
    obtain ⟨s, hs, hrow, hparent, -⟩ := Forest.exists_next h hon
    refine ⟨s.row, ?_, ?_, ?_⟩
    · rw [hrow, Branch.stop]
      omega
    · exact (List.getElem?_eq_some_iff.1 (t.getElem?_rows hs)).1
    · rw [parent?_row h, parent?_row hs, hparent]

end Blocks

/-! ## The listing of a tree -/

/-- Lines from which a tree is read: each line below the top is split in one way, the nearest
earlier lines that are one less deep make the tree, in depth-first order, and each block is a bar
exactly if the directory of its depth around the line has a later sibling. -/
structure ReadsBack (ls : List (List Char)) (t : DirectoryTree) : Prop where
  splits : ∀ line ∈ ls.tail, ∃! split : List Bool × List Char,
    line = leadText split.1 ++ ['+', '-'] ++ split.2
  tree : Rows.tree? (readRows ls) = some t
  depthFirst : readRows ls = (0, t.name) :: t.inside.depthFirst 1
  blocks : ∀ i blocks name, ls[i + 1]? = some (leadText blocks ++ ['+', '-'] ++ name) →
    ∀ k (hk : k < blocks.length), ∃ a,
      Rows.ancestor? (readRows ls) (blocks.length - k) (i + 1) = some a ∧
        Rows.depth? (readRows ls) a = some (k + 1) ∧
          (blocks[k] = true ↔ Rows.HasLaterSibling (readRows ls) a)

/-- What is listed of a tree. -/
def DirectoryTree.visible (t : DirectoryTree) : DirectoryTree := ⟨t.name, t.inside.visible⟩

theorem readsBack_lines (t : DirectoryTree) : ReadsBack t.lines t.visible := by
  refine ⟨?_, ?_, ?_, ?_⟩
  · intro line hline
    rw [t.lines_eq_cons, List.tail_cons, List.mem_map] at hline
    obtain ⟨e, -, rfl⟩ := hline
    refine ⟨(e.lead, e.name), rfl, fun split hsplit => ?_⟩
    have hsame := e.splitLine_line.symm.trans (splitLine_eq_some_iff.2 hsplit)
    exact (Option.some.inj hsame).symm
  · rw [readRows_lines]
    exact tree?_rows t
  · rw [readRows_lines, DirectoryTree.rows, DirectoryTree.branches, Forest.map_read]
    rfl
  · intro i blocks name hline k hk
    obtain ⟨e, he, hrow, hsplit⟩ := DirectoryTree.getElem?_lines.1 hline
    obtain ⟨rfl, rfl⟩ : e.lead = blocks ∧ e.name = name := by
      have hsame := e.splitLine_line.symm.trans (splitLine_eq_some_iff.2 hsplit)
      exact Prod.mk.inj (Option.some.inj hsame)
    obtain ⟨a, ha, hlength, hblock, hup⟩ := exists_ancestor he hk
    rw [readRows_lines, ← hrow]
    refine ⟨a.row, hup, ?_, ?_⟩
    · rw [depth?_row ha, hlength]
    · rw [hblock, hasLaterSibling_row ha]

/-- A directory tree is read back from its listing, whatever its names are but for line breaks: the
lines of the text give the tree of the directories that are shown. -/
theorem readsBack_text (t : DirectoryTree) (h : ∀ name ∈ t.names, '\n' ∉ name) :
    ReadsBack (t.text.splitOn '\n') t.visible ∧ t.inside.Shows t.visible.inside ∧
      ((∀ name ∈ t.names, ∀ c ∈ name, Text.isLineBreak c = false) → t.text ≠ [] →
        Text.lines t.text = t.text.splitOn '\n') := by
  have hlines : t.text.splitOn '\n' = t.lines := by
    refine List.splitOn_intercalate '\n' (fun line hline hmem => ?_) (by simp [DirectoryTree.lines])
    exact DirectoryTree.forall_mem_line (P := (· ≠ '\n')) (by decide) (by decide) (by decide)
      (by decide) (fun name hname c hc hbreak => h name hname (hbreak ▸ hc)) line hline _ hmem rfl
  rw [hlines]
  exact ⟨readsBack_lines t, t.inside.shows_visible, DirectoryTree.lines_text⟩

/-- Names that look like parts of a drawing. -/
def imitations : DirectoryTree where
  name := "+-top".toList
  inside := .cons "b".toList .nil (.cons ".git".toList (.cons "c".toList .nil .nil)
    (.cons "a| +-".toList (.cons "|".toList .nil (.cons "  +-".toList .nil .nil)) .nil))

theorem readsBack_imitations :
    (∀ name ∈ imitations.names, '\n' ∉ name) ∧
      imitations.text = "+-top\n+-a| +-\n| +-  +-\n| +-|\n+-b".toList ∧
      ReadsBack (imitations.text.splitOn '\n') imitations.visible :=
  ⟨by decide +kernel, by decide +kernel, (readsBack_text imitations (by decide +kernel)).1⟩

end CellSketch
