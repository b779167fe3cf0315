import Mathlib.Tactic.Common
import CellSketch.Files

/-!
# NewFile — a file written where there was none

Writing follows the names of a path to the last directory and puts the file there.  If nothing had
its name, every other file stays as it is, also one that an entry of the same name hides.

* `Folder.find?_write_new`, `Folder.find?_write_inside` — what a directory holds after a write;
* `Folder.entry?_write_eq_file_iff`, `Folder.files_write` — the files after a write, by their names
  and in order;
* `FileSystem.created_of_write` — a write to a path that led nowhere creates the file of that path.
-/

namespace CellSketch

/-! ## One directory -/

namespace Folder

variable {f inside : Folder} {name : List Char} {content : List UInt8}

theorem entry?_cons (f : Folder) (name : List Char) (rest : List (List Char)) :
    f.entry? (name :: rest) =
      match f.find? name with
      | some (.folder inside) => inside.entry? rest
      | found => if rest = [] then found else none := by
  cases h : f.find? name with
  | none => cases rest <;> simp [Folder.entry?, h]
  | some e => cases e <;> cases rest <;> simp [Folder.entry?, h]

theorem entry?_append {first : List (List Char)} (h : f.entry? first = some (.folder inside))
    (second : List (List Char)) : f.entry? (first ++ second) = inside.entry? second := by
  induction first generalizing f with
  | nil =>
      cases h
      rfl
  | cons name rest ih =>
      rw [Folder.entry?_cons] at h
      rw [List.cons_append, entry?_cons]
      split at h
      · exact ih h
      · split at h
        · rename_i hother _
          exact absurd h (hother inside)
        · cases h

theorem entry?_singleton (f : Folder) (name : List Char) : f.entry? [name] = f.find? name := by
  rw [Folder.entry?_cons]
  split
  · rename_i h
    exact h.symm
  · rfl

/-- A new file comes last in its directory. -/
theorem find?_write_new (h : f.find? name = none) (other : List Char) :
    (f.write [name] content).find? other =
      if name = other then some (.file content) else f.find? other := by
  induction f with
  | empty => simp [write, find?]
  | file there old rest ih =>
      rw [find?] at h
      split at h
      · cases h
      · rename_i hne
        have hnames : ¬ [name] = [there] := by simpa using Ne.symm hne
        rw [write, if_neg hnames, find?, find?, ih h]
        grind
  | folder there within rest _ ih | device there rest ih =>
      rw [find?] at h
      split at h
      · cases h
      · simp only [write, find?, ih h]
        grind

theorem files_write_new (h : f.find? name = none) :
    (f.write [name] content).files = f.files ++ [([name], content)] := by
  induction f with
  | empty => rfl
  | file there old rest ih =>
      rw [find?] at h
      split at h
      · cases h
      · rename_i hne
        have hnames : ¬ [name] = [there] := by simpa using Ne.symm hne
        rw [write, if_neg hnames, files, files, ih h, List.cons_append]
  | folder there within rest _ ih | device there rest ih =>
      rw [find?] at h
      split at h
      · cases h
      · simp only [write, files, ih h, List.append_assoc]

variable {first : List Char} {more : List (List Char)}

/-- A write further inside goes to the directory that the first name leads to. -/
theorem find?_write_inside (h : f.find? first = some (.folder inside)) (hmore : more ≠ [])
    (other : List Char) : (f.write (first :: more) content).find? other =
      if first = other then some (.folder (inside.write more content)) else f.find? other := by
  obtain ⟨second, more, rfl⟩ := List.exists_cons_of_ne_nil hmore
  induction f with
  | empty => cases h
  | file there old rest ih =>
      rw [find?] at h
      split at h
      · cases h
      · rw [write, if_neg (by simp), find?, find?, ih h]
        grind
  | folder there within rest _ ih =>
      rw [find?] at h
      rw [write]
      split at h
      · cases h
        grind [find?]
      · rw [if_neg (by grind), find?, find?, ih h]
        grind
  | device there rest ih =>
      rw [find?] at h
      split at h
      · cases h
      · simp only [write, find?, ih h]
        grind

theorem files_write_inside (h : f.find? first = some (.folder inside)) (hmore : more ≠ [])
    (content : List UInt8) : ∃ before after,
      f.files = before ++ inside.files.map (fun file => (first :: file.1, file.2)) ++ after ∧
      (f.write (first :: more) content).files = before ++
        (inside.write more content).files.map (fun file => (first :: file.1, file.2)) ++ after := by
  obtain ⟨second, more, rfl⟩ := List.exists_cons_of_ne_nil hmore
  induction f with
  | empty => cases h
  | file there old rest ih =>
      rw [find?] at h
      split at h
      · cases h
      · obtain ⟨before, after, hfiles, hwritten⟩ := ih h
        refine ⟨([there], old) :: before, after, ?_, ?_⟩
        · rw [files, hfiles, List.cons_append, List.cons_append]
        · rw [write, if_neg (by simp), files, hwritten, List.cons_append, List.cons_append]
  | folder there within rest _ ih =>
      rw [find?] at h
      rw [write]
      split at h
      · rename_i heq
        cases h
        subst heq
        exact ⟨[], rest.files, rfl, by rw [if_pos rfl, files, List.nil_append]⟩
      · rename_i hne
        obtain ⟨before, after, hfiles, hwritten⟩ := ih h
        rw [if_neg (Ne.symm hne), files, files, hfiles, hwritten]
        exact ⟨within.files.map (fun file => (there :: file.1, file.2)) ++ before, after,
          by simp only [List.append_assoc], by simp only [List.append_assoc]⟩
  | device there rest ih =>
      rw [find?] at h
      split at h
      · cases h
      · exact ih h

theorem forest_write (f : Folder) (names : List (List Char)) (content : List UInt8) :
    (f.write names content).forest = f.forest := by
  induction f generalizing names with
  | empty => rcases names with _ | ⟨name, _ | ⟨second, more⟩⟩ <;> rfl
  | file there old rest ih =>
      rw [write]
      split
      · rfl
      · exact ih names
  | folder there within rest ihWithin ihRest =>
      rcases names with _ | ⟨name, _ | ⟨second, more⟩⟩
      · rw [write, forest, forest, ihRest]
        simp
      · rw [write, forest, forest, ihRest]
        simp
      · rw [write]
        split
        · rw [forest, forest, ihWithin]
        · rw [forest, forest, ihRest]
  | device there rest ih => exact ih names

/-! ## Directories inside directories -/

variable {dir : List (List Char)}

/-- A write goes on along names that lead to a directory. -/
theorem write_cons_inside (h : f.entry? (first :: more) = some (.folder inside)) :
    ∃ within, f.find? first = some (.folder within) ∧
      within.entry? more = some (.folder inside) := by
  rw [Folder.entry?_cons] at h
  split at h
  · exact ⟨_, by assumption, h⟩
  · split at h
    · rename_i hother _
      exact absurd h (hother inside)
    · cases h

/-- The files after a write are those from before and the new one. -/
theorem entry?_write_eq_file_iff (hdir : f.entry? dir = some (.folder inside))
    (hname : inside.find? name = none) (content : List UInt8) (other : List (List Char))
    (bytes : List UInt8) :
    Folder.entry? (f.write (dir ++ [name]) content) other = some (.file bytes) ↔
      f.entry? other = some (.file bytes) ∨ other = dir ++ [name] ∧ bytes = content := by
  induction dir generalizing f other with
  | nil =>
      cases hdir
      cases other with
      | nil => simp [Folder.entry?]
      | cons first rest =>
          rw [List.nil_append, entry?_cons, entry?_cons, find?_write_new hname]
          by_cases heq : name = first
          · subst heq
            rw [hname]
            grind
          · grind
  | cons a more ih =>
      obtain ⟨within, hwithin, hmore⟩ := write_cons_inside hdir
      cases other with
      | nil => simp [Folder.entry?]
      | cons first rest =>
          rw [List.cons_append, entry?_cons, entry?_cons,
            find?_write_inside hwithin (List.concat_ne_nil name more)]
          by_cases heq : a = first
          · subst heq
            rw [if_pos rfl, hwithin]
            simpa using ih hmore rest
          · grind

/-- The list of all files gets the new one, and is the same otherwise. -/
theorem files_write (hdir : f.entry? dir = some (.folder inside))
    (hname : inside.find? name = none) :
    ∃ before after, f.files = before ++ after ∧
      (f.write (dir ++ [name]) content).files = before ++ (dir ++ [name], content) :: after := by
  induction dir generalizing f with
  | nil =>
      cases hdir
      exact ⟨inside.files, [], (List.append_nil _).symm, files_write_new hname⟩
  | cons a more ih =>
      obtain ⟨within, hwithin, hmore⟩ := write_cons_inside hdir
      obtain ⟨before, after, hfiles, hwritten⟩ := ih hmore
      obtain ⟨front, back, hall, hnew⟩ :=
        files_write_inside hwithin (List.concat_ne_nil name more) content
      refine ⟨front ++ before.map (fun file => (a :: file.1, file.2)),
        after.map (fun file => (a :: file.1, file.2)) ++ back, ?_, ?_⟩
      · rw [hall, hfiles, List.map_append]
        simp only [List.append_assoc]
      · rw [List.cons_append, hnew, hwritten, List.map_append, List.map_cons]
        simp only [List.append_assoc, List.cons_append]

/-- Directories stay where they are, and nothing is missing in them after a write. -/
theorem entry?_write_folder (hdir : f.entry? dir = some (.folder inside))
    (hname : inside.find? name = none) (content : List UInt8) {here : List (List Char)}
    {old : Folder} (hhere : f.entry? here = some (.folder old)) :
    ∃ grown, Folder.entry? (f.write (dir ++ [name]) content) here = some (.folder grown) ∧
      ∀ other, (old.find? other).isSome → (grown.find? other).isSome := by
  induction dir generalizing f here with
  | nil =>
      cases hdir
      rw [List.nil_append]
      cases here with
      | nil =>
          cases hhere
          refine ⟨_, rfl, fun other hother => ?_⟩
          rw [find?_write_new hname]
          split
          · rfl
          · exact hother
      | cons first rest =>
          rw [Folder.entry?_cons] at hhere ⊢
          have hne : name ≠ first := by
            rintro rfl
            simp [hname] at hhere
          rw [find?_write_new hname, if_neg hne]
          exact ⟨old, hhere, fun _ hother => hother⟩
  | cons a more ih =>
      obtain ⟨within, hwithin, hmore⟩ := write_cons_inside hdir
      rw [List.cons_append]
      cases here with
      | nil =>
          cases hhere
          refine ⟨_, rfl, fun other hother => ?_⟩
          rw [find?_write_inside hwithin (List.concat_ne_nil name more)]
          split
          · rfl
          · exact hother
      | cons first rest =>
          rw [Folder.entry?_cons] at hhere ⊢
          rw [find?_write_inside hwithin (List.concat_ne_nil name more)]
          by_cases heq : a = first
          · subst heq
            rw [hwithin] at hhere
            rw [if_pos rfl]
            exact ih hmore hhere
          · rw [if_neg heq]
            exact ⟨old, hhere, fun _ hother => hother⟩

end Folder

/-! ## File systems -/

namespace FileSystem

variable {fs fs' : FileSystem} {p : FilePath} {content : List UInt8}

theorem follow_append (root : Folder) (here first second : List (List Char)) :
    follow root here (first ++ second) =
      (follow root here first).bind fun there => follow root there second := by
  induction first generalizing here with
  | nil => rfl
  | cons name rest ih =>
      rw [List.cons_append, follow, follow]
      split
      · split
        · exact ih _
        · split
          · rfl
          · split
            · exact ih _
            · rfl
      · rfl
      · rfl

/-- Names lead to the same place in a file system where nothing is missing. -/
theorem follow_grown {root root' : Folder}
    (h : ∀ here old, root.entry? here = some (.folder old) →
      ∃ grown, root'.entry? here = some (.folder grown) ∧
        ∀ other, (old.find? other).isSome → (grown.find? other).isSome)
    {here there names : List (List Char)} (hfollow : follow root here names = .ok there) :
    follow root' here names = .ok there := by
  induction names generalizing here with
  | nil => exact hfollow
  | cons name rest ih =>
      rw [follow] at hfollow ⊢
      split at hfollow
      · rename_i old hold
        obtain ⟨grown, hgrown, hkept⟩ := h here old hold
        rw [hgrown]
        dsimp only
        split at hfollow
        · rw [if_pos (by assumption)]
          exact ih hfollow
        · rw [if_neg (by assumption)]
          split at hfollow
          · cases hfollow
          · rw [if_neg (by assumption)]
            split at hfollow
            · rw [if_pos (hkept name (by assumption))]
              exact ih hfollow
            · cases hfollow
      · cases hfollow
      · cases hfollow

/-- A file system with a file that was not there before, at the end of a path. -/
structure Created (fs fs' : FileSystem) (p : FilePath) (content : List UInt8) : Prop where
  missing : fs.contains p = .ok false
  current : fs'.current = fs.current
  directories : fs'.root.forest = fs.root.forest
  /-- The names that the path leads to now; all other files are found where they were. -/
  file : ∃ names, fs'.locate p p.parts = .ok names ∧ fs.root.entry? names = none ∧
    (∀ other bytes, fs'.root.entry? other = some (.file bytes) ↔
      fs.root.entry? other = some (.file bytes) ∨ other = names ∧ bytes = content) ∧
    ∃ before after, fs.root.files = before ++ after ∧
      fs'.root.files = before ++ (names, content) :: after

theorem locate_append_singleton {dir before : List (List Char)} {inside : Folder} {name : List Char}
    (hlocate : fs.locate p before = .ok dir) (hdir : fs.root.entry? dir = some (.folder inside))
    (hdots : name ≠ ['.', '.']) (hshort : ¬ nameLimit < byteLength name)
    (hname : (inside.find? name).isSome) :
    fs.locate p (before ++ [name]) = .ok (dir ++ [name]) := by
  rw [locate] at hlocate ⊢
  split at hlocate
  · cases hlocate
  · rw [if_neg (by assumption), follow_append, hlocate]
    simp only [Except.bind, follow, hdir, if_neg hdots, if_neg hshort, if_pos hname]

/-- A path that leads nowhere and can be written to has its directory, where its last name is
free. -/
theorem exists_place (hmissing : fs.contains p = .ok false)
    (hwrite : fs.write p content = .ok fs') :
    ∃ dir inside name, p.parts = p.parts.dropLast ++ [name] ∧ name ≠ ['.', '.'] ∧
      ¬ nameLimit < byteLength name ∧ fs.locate p p.parts.dropLast = .ok dir ∧
      fs.root.entry? dir = some (.folder inside) ∧ inside.find? name = none ∧
      fs' = { fs with root := fs.root.write (dir ++ [name]) content } := by
  rw [write] at hwrite
  split at hwrite
  · cases hwrite
  rename_i hpossible
  cases hlocate : fs.locate p p.parts.dropLast with
  | error fault =>
      rw [hlocate] at hwrite
      cases hwrite
  | ok dir =>
      rw [hlocate] at hwrite
      dsimp only [Bind.bind, Except.bind] at hwrite
      split at hwrite
      case h_2 => cases hwrite
      case h_3 => cases hwrite
      case h_4 => cases hwrite
      rename_i inside name hdir hlast
      have hparts : p.parts = p.parts.dropLast ++ [name] := by
        obtain ⟨before, hbefore⟩ := List.getLast?_eq_some_iff.mp hlast
        rw [hbefore, List.dropLast_concat]
      split at hwrite
      · cases hwrite
      rename_i hdots
      split at hwrite
      · cases hwrite
      rename_i hshort
      have hname : inside.find? name = none := by
        by_contra hthere
        obtain ⟨e, he⟩ := Option.ne_none_iff_exists'.mp hthere
        have hentry : fs.entry p = .ok e := by
          rw [entry, hparts, locate_append_singleton hlocate hdir hdots hshort (by simp [he])]
          dsimp only [Bind.bind, Except.bind]
          rw [Folder.entry?_append hdir, Folder.entry?_singleton, he]
        rw [contains, entry?, if_neg hpossible, hentry] at hmissing
        cases hmissing
      rw [hname] at hwrite
      cases hwrite
      exact ⟨dir, inside, name, hparts, hdots, hshort, rfl, hdir, hname, rfl⟩

/-- Writing to a path that led nowhere creates its file. -/
theorem created_of_write (hmissing : fs.contains p = .ok false)
    (hwrite : fs.write p content = .ok fs') : Created fs fs' p content := by
  obtain ⟨dir, inside, name, hparts, hdots, hshort, hlocate, hdir, hname, rfl⟩ :=
    exists_place hmissing hwrite
  have hgrown := fun here old (h : fs.root.entry? here = some (.folder old)) =>
    Folder.entry?_write_folder hdir hname content h
  have hfile := Folder.entry?_write_eq_file_iff hdir hname content
  refine ⟨hmissing, rfl, Folder.forest_write _ _ _, dir ++ [name], ?_, ?_, hfile,
    Folder.files_write hdir hname⟩
  · -- the path leads through the same directories, the last of which has the name now
    obtain ⟨grown, hthere, -⟩ := hgrown dir inside hdir
    have hnew : grown.find? name = some (.file content) := by
      rw [← Folder.entry?_singleton, ← Folder.entry?_append hthere]
      exact (hfile _ _).2 (.inr ⟨rfl, rfl⟩)
    rw [hparts]
    refine locate_append_singleton ?_ hthere hdots hshort (by simp [hnew])
    rw [locate] at hlocate ⊢
    split at hlocate
    · cases hlocate
    · rw [if_neg (by assumption)]
      exact follow_grown hgrown hlocate
  · rw [Folder.entry?_append hdir, Folder.entry?_singleton, hname]

end FileSystem
end CellSketch
