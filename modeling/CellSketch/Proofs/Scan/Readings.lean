import CellSketch.Proofs.Scan.Painting

/-!
# Readings — what both ways to read a cell have in common

* `Faithful` — a reading stands for the character it was read from, and a head at the end of a line
  is only read behind a part of that line;
* `Opens` — a head at the start of a line is only read before a part of that line;
* `faithful_ofDiagram`, `faithful_ofTree` — diagrams and trees are read faithfully;
* `opens_ofDiagram`, `opens_ofTree` — their lines open before a shaft.
-/

namespace CellSketch

/-! ## Neighbours along an axis -/

namespace Neighbors

/-- The character before a cell along an axis. -/
def before (n : Neighbors) : Axis → Option Char
  | .horizontal => n.left
  | .vertical => n.up

/-- The character after a cell along an axis. -/
def after (n : Neighbors) : Axis → Option Char
  | .horizontal => n.right
  | .vertical => n.down

end Neighbors

theorem Grid.before_neighbors (g : Grid) (cell : Cell) (axis : Axis) :
    (g.neighbors cell).before axis = g.at? (axis.previous cell) := by
  cases axis <;> rfl

theorem Grid.after_neighbors_previous (g : Grid) (cell : Cell) (axis : Axis) :
    (g.neighbors (axis.previous cell)).after axis = g.at? cell := by
  cases axis <;>
    simp [Grid.neighbors, Neighbors.after, Axis.previous, Axis.cellAt, Axis.lane, Axis.position]

/-! ## Glyphs of characters -/

/-- The character of a glyph that has just one. -/
def Glyph.char? : Glyph → Option Char
  | .lineH => some '-'
  | .lineV => some '|'
  | .arrowLeft => some '<'
  | .arrowRight => some '>'
  | .arrowUp => some '^'
  | .arrowDown => some 'V'
  | .cross => some 'x'
  | .circle => some 'o'
  | .plus => some '+'
  | .slash => some '/'
  | .backslash => some '\\'
  | .crossing => some 'C'
  | .blank | .text => none

theorem Glyph.ofChar_of_isBlank {c : Char} (h : Text.isBlank c = true) :
    Glyph.ofChar c = .blank := by
  unfold Glyph.ofChar
  exact if_pos h

theorem Glyph.ofChar_cases {c : Char} (h : Text.isBlank c ≠ true) :
    Glyph.ofChar c = .text ∨ (Glyph.ofChar c).char? = some c := by
  unfold Glyph.ofChar
  rw [if_neg h]
  clear h
  split
  all_goals first
    | exact Or.inl rfl
    | exact Or.inr rfl

theorem Glyph.ofChar_eq_blank_iff {c : Char} : Glyph.ofChar c = .blank ↔ Text.isBlank c = true := by
  refine ⟨fun h => ?_, Glyph.ofChar_of_isBlank⟩
  by_contra hblank
  rcases Glyph.ofChar_cases hblank with htext | hchar
  · exact Glyph.noConfusion (h.symm.trans htext)
  · rw [h] at hchar
    cases hchar

theorem Glyph.eq_of_char?_ofChar {c d : Char} (h : (Glyph.ofChar c).char? = some d) : c = d := by
  by_cases hblank : Text.isBlank c = true
  · rw [Glyph.ofChar_of_isBlank hblank] at h
    cases h
  · rcases Glyph.ofChar_cases hblank with htext | hchar
    · rw [htext] at h
      cases h
    · exact Option.some.inj (hchar.symm.trans h)

/-! ## Faithful readings -/

/-- The marks that a character can stand for: a single one, or two corners back to back. -/
inductive MarksOf (c : Char) : List MarkForm → Prop where
  | one (form : MarkForm) (h : form.char = c) : MarksOf c [form]
  | two (a b : Corner) (hne : a ≠ b) (ha : (MarkForm.corner a).char = c)
      (hb : (MarkForm.corner b).char = c) : MarksOf c [.corner a, .corner b]

/-- A reading stands for the character it was read from, and a head at the end of a line is only
read behind a part of that line. -/
structure Faithful (read : Char → Neighbors → Reading) : Prop where
  nothing : ∀ c n, read c n = .nothing ↔ Text.isBlank c = true
  marks : ∀ c n forms, read c n = .marks forms → MarksOf c forms
  line : ∀ c n glyph before, read c n = .line glyph before →
    glyph.lineChar = c ∧ before = n.before glyph.axis
  closing : ∀ c n glyph before, read c n = .line glyph before → glyph = glyph.axis.closing →
    before = some glyph.axis.shaftChar ∧ ∀ n', n'.after glyph.axis = some c →
      ∃ glyph' before', read glyph.axis.shaftChar n' = .line glyph' before' ∧
        glyph'.axis = glyph.axis

/-- A head at the start of a line is only read before a part of that line. -/
def Opens (read : Char → Neighbors → Reading) : Prop :=
  ∀ c n glyph before, read c n = .line glyph before → glyph = glyph.axis.opening →
    n.after glyph.axis = some glyph.axis.shaftChar ∧ ∀ n',
      ∃ glyph' before', read glyph.axis.shaftChar n' = .line glyph' before' ∧
        glyph'.axis = glyph.axis

namespace Reading

/-! ## Diagrams -/

theorem marksOf_corners {glyph : Glyph} {n : Neighbors} {c : Char}
    (hc : ∀ d, glyph.char? = some d → c = d) {corner : Corner} {more : List Corner}
    (h : corners glyph n = corner :: more) : MarksOf c ((corner :: more).map .corner) := by
  rw [← h]
  have hne : corners glyph n ≠ [] := by simp [h]
  clear h
  cases glyph
  case slash =>
    obtain rfl : c = '/' := hc _ rfl
    simp only [corners] at hne ⊢
    split <;> split
    · exact .two _ _ (by decide) rfl rfl
    · exact .one _ rfl
    · exact .one _ rfl
    · simp_all
  case backslash =>
    obtain rfl : c = '\\' := hc _ rfl
    simp only [corners] at hne ⊢
    split <;> split
    · exact .two _ _ (by decide) rfl rfl
    · exact .one _ rfl
    · exact .one _ rfl
    · simp_all
  all_goals exact absurd rfl hne

theorem lineBefore?_spec {glyph : Glyph} {n : Neighbors} {before : Option Char}
    (h : lineBefore? glyph n = some before) :
    glyph.char? = some glyph.lineChar ∧ before = n.before glyph.axis ∧
      (glyph = glyph.axis.closing → before = some glyph.axis.shaftChar) ∧
      (glyph = glyph.axis.opening → n.after glyph.axis = some glyph.axis.shaftChar) := by
  cases glyph <;> simp_all [lineBefore?, Glyph.char?, Glyph.lineChar, Glyph.axis, Axis.opening,
    Axis.closing, Axis.openingChar, Axis.closingChar, Axis.shaftChar, Neighbors.before,
    Neighbors.after]

theorem char_of_markerOf? {glyph : Glyph} {marker : Marker} (h : markerOf? glyph = some marker)
    (sides : Sides) : glyph.char? = some (MarkForm.marker marker sides).char := by
  cases glyph <;> cases h <;> rfl

/-- What a diagram's cell is read as, by its glyph. -/
theorem ofDiagram_cases (c : Char) (n : Neighbors) :
    (Text.isBlank c = true ∧ ofDiagram c n = .nothing) ∨
      (¬ Text.isBlank c = true ∧ ((∃ forms, ofDiagram c n = .marks forms ∧ MarksOf c forms) ∨
        (∃ before, lineBefore? (Glyph.ofChar c) n = some before ∧
          ofDiagram c n = .line (Glyph.ofChar c) before) ∨ ofDiagram c n = .text)) := by
  have hchar : ∀ d, (Glyph.ofChar c).char? = some d → c = d := fun d => Glyph.eq_of_char?_ofChar
  have hblank : Glyph.ofChar c = .blank ↔ Text.isBlank c = true := Glyph.ofChar_eq_blank_iff
  unfold ofDiagram
  -- only these two facts on the glyph matter, not which characters have which glyph
  generalize Glyph.ofChar c = glyph at hchar hblank ⊢
  rw [← hblank]
  clear hblank
  by_cases hglyph : glyph = .blank
  · subst hglyph
    exact Or.inl ⟨rfl, rfl⟩
  · refine Or.inr ⟨hglyph, ?_⟩
    dsimp only
    split
    · exact absurd rfl hglyph
    · rename_i corner more _ h
      exact Or.inl ⟨_, rfl, marksOf_corners hchar h⟩
    · rename_i marker _ _ h
      split
      · exact Or.inr (Or.inr rfl)
      · exact Or.inl ⟨_, rfl, .one _ (hchar _ (char_of_markerOf? h _)).symm⟩
    · split
      · exact Or.inl ⟨_, rfl, .one _ (hchar _ rfl).symm⟩
      · exact Or.inr (Or.inr rfl)
    · split
      · rename_i before h
        exact Or.inr (Or.inl ⟨before, h, rfl⟩)
      · exact Or.inr (Or.inr rfl)

/-- In a diagram a dash or a bar is always part of a line. -/
theorem ofDiagram_shaftChar (axis : Axis) (n : Neighbors) :
    ∃ glyph before, ofDiagram axis.shaftChar n = .line glyph before ∧ glyph.axis = axis := by
  cases axis
  · exact ⟨.lineH, n.left, rfl, rfl⟩
  · exact ⟨.lineV, n.up, rfl, rfl⟩

theorem faithful_ofDiagram : Faithful ofDiagram where
  nothing c n := by
    rcases ofDiagram_cases c n with ⟨hblank, h⟩ | ⟨hblank, ⟨forms, h, -⟩ | ⟨before, -, h⟩ | h⟩ <;>
      simp [h, hblank]
  marks c n forms h := by
    rcases ofDiagram_cases c n with ⟨-, h'⟩ | ⟨-, ⟨forms', h', hforms⟩ | ⟨before, -, h'⟩ | h'⟩ <;>
      rw [h'] at h <;> cases h
    exact hforms
  line c n glyph before h := by
    rcases ofDiagram_cases c n with ⟨-, h'⟩ | ⟨-, ⟨forms', h', -⟩ | ⟨before, hbefore, h'⟩ | h'⟩ <;>
      rw [h'] at h <;> cases h
    obtain ⟨hchar, hbefore, -, -⟩ := lineBefore?_spec hbefore
    exact ⟨(Glyph.eq_of_char?_ofChar hchar).symm, hbefore⟩
  closing c n glyph before h hglyph := by
    rcases ofDiagram_cases c n with ⟨-, h'⟩ | ⟨-, ⟨forms', h', -⟩ | ⟨before, hbefore, h'⟩ | h'⟩ <;>
      rw [h'] at h <;> cases h
    exact ⟨(lineBefore?_spec hbefore).2.2.1 hglyph, fun n' _ => ofDiagram_shaftChar _ n'⟩

theorem opens_ofDiagram : Opens ofDiagram := by
  intro c n glyph before h hglyph
  rcases ofDiagram_cases c n with ⟨-, h'⟩ | ⟨-, ⟨forms', h', -⟩ | ⟨before, hbefore, h'⟩ | h'⟩ <;>
    rw [h'] at h <;> cases h
  exact ⟨(lineBefore?_spec hbefore).2.2.2 hglyph, ofDiagram_shaftChar _⟩

/-! ## Trees -/

/-- What a tree's cell is read as. -/
theorem ofTree_cases (c : Char) (n : Neighbors) :
    (Text.isBlank c = true ∧ ofTree c n = .nothing) ∨
      (¬ Text.isBlank c = true ∧ ((∃ forms, ofTree c n = .marks forms ∧ MarksOf c forms) ∨
        (∃ glyph, ofTree c n = .line glyph (n.before glyph.axis) ∧ glyph.lineChar = c ∧
          glyph ≠ glyph.axis.opening ∧
          (glyph = glyph.axis.closing → glyph = .arrowRight ∧ n.left = some '-')) ∨
        ofTree c n = .text)) := by
  unfold ofTree
  dsimp only
  split
  · exact Or.inl ⟨‹_›, rfl⟩
  · refine Or.inr ⟨‹_›, ?_⟩
    split
    · rename_i hplus
      simp only [Bool.and_eq_true, beq_iff_eq] at hplus
      exact Or.inl ⟨_, rfl, .one _ hplus.1.symm⟩
    · refine Or.inr ?_
      split
      · rename_i hdash
        simp only [Bool.and_eq_true, beq_iff_eq] at hdash
        exact Or.inl ⟨.lineH, rfl, hdash.1.symm, by decide, fun h => absurd h (by decide)⟩
      · split
        · rename_i hhead
          simp only [Bool.and_eq_true, beq_iff_eq] at hhead
          exact Or.inl ⟨.arrowRight, rfl, hhead.1.symm, by decide, fun _ => ⟨rfl, hhead.2⟩⟩
        · split
          · rename_i hbar
            simp only [Bool.and_eq_true, beq_iff_eq] at hbar
            exact Or.inl ⟨.lineV, rfl, hbar.1.symm, by decide, fun h => absurd h (by decide)⟩
          · exact Or.inr rfl

/-- A dash before a closing head is read as a line. -/
theorem ofTree_dash {n : Neighbors} (h : n.right = some '>') :
    ofTree '-' n = .line .lineH n.left := by
  have hblank : Text.isBlank '-' = false := by decide
  simp [ofTree, hblank, h]

theorem faithful_ofTree : Faithful ofTree where
  nothing c n := by
    rcases ofTree_cases c n with ⟨hblank, h⟩ | ⟨hblank, ⟨forms, h, -⟩ | ⟨glyph, h, -⟩ | h⟩ <;>
      simp [h, hblank]
  marks c n forms h := by
    rcases ofTree_cases c n with ⟨-, h'⟩ | ⟨-, ⟨forms', h', hforms⟩ | ⟨glyph, h', -⟩ | h'⟩ <;>
      rw [h'] at h <;> cases h
    exact hforms
  line c n glyph before h := by
    rcases ofTree_cases c n with ⟨-, h'⟩ | ⟨-, ⟨forms', h', -⟩ | ⟨glyph, h', hchar, -⟩ | h'⟩ <;>
      rw [h'] at h <;> cases h
    exact ⟨hchar, rfl⟩
  closing c n glyph before h hglyph := by
    rcases ofTree_cases c n with
        ⟨-, h'⟩ | ⟨-, ⟨forms', h', -⟩ | ⟨glyph, h', hchar, -, hclosing⟩ | h'⟩ <;>
      rw [h'] at h <;> cases h
    obtain ⟨rfl, hleft⟩ := hclosing hglyph
    -- in a tree the head itself makes the dash before it part of a line
    refine ⟨hleft, fun n' hn' => ⟨.lineH, n'.left, ?_, rfl⟩⟩
    subst hchar
    exact ofTree_dash hn'

/-- In a tree no line has a head at its start. -/
theorem opens_ofTree : Opens ofTree := by
  intro c n glyph before h hglyph
  rcases ofTree_cases c n with ⟨-, h'⟩ | ⟨-, ⟨forms', h', -⟩ | ⟨glyph, h', -, hopening, -⟩ | h'⟩ <;>
    rw [h'] at h <;> cases h
  exact absurd hglyph hopening

end Reading

end CellSketch
