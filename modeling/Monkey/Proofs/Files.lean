import Mathlib.Data.List.Basic
import Monkey.Files

/-!
# Reading back what was written

A path that was written to leads to the file with that content (`find_of_write`). Whether the file
was there before or is a new one, writing it leaves every directory a directory, and on the way
along a path there is nothing else.
-/

namespace Monkey.Files

theorem slash_not_mem_of_mem_parts {path part : Bytes} (h : part ∈ parts path) : 0x2f ∉ part := by
  unfold parts at h
  induction path generalizing part with
  | nil =>
      rw [List.splitOn_nil, List.mem_singleton] at h
      simp [h]
  | cons b path ih =>
      rw [List.splitOn_cons_eq_if_modifyHead] at h
      split at h
      · rcases List.mem_cons.mp h with rfl | hrest
        · exact List.not_mem_nil
        · exact ih hrest
      · next hb =>
          cases hsplit : path.splitOn 0x2f with
          | nil => simp [hsplit] at h
          | cons first rest =>
              rw [hsplit] at ih
              rw [hsplit, List.modifyHead_cons, List.mem_cons] at h
              rcases h with rfl | hrest
              · have hfirst := ih (List.mem_cons_self ..)
                simp only [beq_iff_eq] at hb
                exact List.not_mem_cons_of_ne_of_not_mem (Ne.symm hb) hfirst
              · exact ih (List.mem_cons_of_mem _ hrest)

theorem parts_join {names : List Bytes} (hne : names ≠ []) (h : ∀ name ∈ names, 0x2f ∉ name) :
    parts (Bytes.join (utf8 "/") names) = names := by
  induction names with
  | nil => exact absurd rfl hne
  | cons name names ih =>
      obtain ⟨hname, hnames⟩ := List.forall_mem_cons.mp h
      cases names with
      | nil => exact List.splitOn_eq_singleton hname
      | cons next names =>
          rw [Bytes.join_cons_cons, List.append_assoc]
          exact (List.splitOn_append_cons_self_of_not_mem hname _).trans
            (congrArg _ (ih (List.cons_ne_nil _ _) hnames))

section Follow

/-- Where a part of a path leads from a place. -/
def next (place : Option (List Bytes)) (part : Bytes) : Option (List Bytes) :=
  place.bind fun names =>
    if part.isEmpty || part = utf8 "." then some names
    else if part = utf8 ".." then if names.isEmpty then none else some names.dropLast
    else some (names ++ [part])

/-- A part of a path can be followed: outside it names nothing, and inside the place is a directory
and the name is not too long. -/
inductive Passable (files : Files) (part : Bytes) : Option (List Bytes) → Prop where
  | outside (h : isStep part = true) : Passable files part none
  | inside {names : List Bytes} (hdirectory : files.entryAt? names = some .directory)
      (h : isStep part = true ∨ part.length ≤ 255) : Passable files part (some names)

variable {files files' : Files} {place : Option (List Bytes)} {part : Bytes} {rest : List Bytes}

theorem Passable.follow_cons (h : Passable files part place) (rest : List Bytes) :
    files.follow place (part :: rest) = files.follow (next place part) rest := by
  cases h with
  | outside h => rw [follow, if_pos h]; rfl
  | @inside names hdirectory h =>
      rw [follow, hdirectory]
      dsimp only [next, Option.bind_some]
      split
      · rfl
      · next hnot =>
          split
          · rfl
          · next hup =>
              have hstep : ¬ isStep part = true := by simpa [isStep, hup] using hnot
              rw [if_neg (Nat.not_lt.mpr (h.resolve_left hstep))]

theorem passable_of_follow {found : Option (List Bytes) × Entry}
    (h : files.follow place (part :: rest) = .ok found) : Passable files part place := by
  cases place with
  | none =>
      rw [follow] at h
      split at h
      · next hstep => exact .outside hstep
      · cases h
  | some names =>
      rw [follow] at h
      split at h
      · cases h
      · cases h
      · next hdirectory =>
          refine .inside hdirectory ?_
          by_cases hshort : part.length ≤ 255
          · exact .inr hshort
          · refine .inl ?_
            by_contra hstep
            simp [isStep] at hstep
            simp [hstep, Nat.lt_of_not_le hshort] at h

theorem Passable.of_directories (h : Passable files part place)
    (hstay : ∀ names, files.entryAt? names = some .directory →
      files'.entryAt? names = some .directory) : Passable files' part place := by
  cases h with
  | outside h => exact .outside h
  | inside hdirectory h => exact .inside (hstay _ hdirectory) h

theorem found_of_follow_nil {found : Option (List Bytes) × Entry}
    (h : files.follow place [] = .ok found) : place = found.1 := by
  cases place with
  | none =>
      cases h
      rfl
  | some names =>
      rw [follow] at h
      split at h <;> cases h
      rfl

/-- From the directory at the end of one path another one can be followed. -/
theorem follow_append {first : List Bytes} {found : Option (List Bytes)}
    (h : files.follow place first = .ok (found, .directory)) (second : List Bytes) :
    files.follow place (first ++ second) = files.follow found second := by
  induction first generalizing place with
  | nil => rw [found_of_follow_nil h, List.nil_append]
  | cons part first ih =>
      have hpart := passable_of_follow h
      rw [hpart.follow_cons] at h
      rw [List.cons_append, hpart.follow_cons]
      exact ih h

/-- If directories stay directories, a path leads to the same place. -/
theorem follow_of_directories
    (hstay : ∀ names, files.entryAt? names = some .directory →
      files'.entryAt? names = some .directory)
    {names : List Bytes} {found : Option (List Bytes) × Entry}
    (h : files.follow place names = .ok found) :
    files'.follow place names = files'.follow found.1 [] := by
  induction names generalizing place with
  | nil => rw [found_of_follow_nil h]
  | cons part rest ih =>
      have hpart := passable_of_follow h
      rw [hpart.follow_cons] at h
      rw [(hpart.of_directories hstay).follow_cons]
      exact ih h

theorem mem_next {name : Bytes} (h : name ∈ (next place part).getD []) :
    name ∈ place.getD [] ∨ name = part := by
  cases place with
  | none => exact .inl h
  | some names =>
      dsimp only [next, Option.bind_some] at h
      split at h
      · exact .inl h
      · split at h
        · split at h
          · cases h
          · exact .inl ((List.dropLast_sublist names).subset h)
        · simpa using h

/-- The names of the place that a path leads to come from the path. -/
theorem mem_of_follow {names : List Bytes} {found : Option (List Bytes) × Entry}
    (h : files.follow place names = .ok found) {name : Bytes} (hname : name ∈ found.1.getD []) :
    name ∈ place.getD [] ∨ name ∈ names := by
  induction names generalizing place with
  | nil =>
      rw [← found_of_follow_nil h] at hname
      exact .inl hname
  | cons part rest ih =>
      rw [(passable_of_follow h).follow_cons] at h
      rcases ih h with hnext | hrest
      · rcases mem_next hnext with hplace | rfl
        · exact .inl hplace
        · exact .inr List.mem_cons_self
      · exact .inr (List.mem_cons_of_mem part hrest)

theorem entryAt?_of_follow {names found : List Bytes} {entry : Entry}
    (h : files.follow place names = .ok (some found, entry)) :
    files.entryAt? found = some entry := by
  have hend := follow_of_directories (fun _ => id) h
  rw [h, follow] at hend
  split at hend
  · next found' hfound =>
      cases hend
      exact hfound
  · cases hend

end Follow

section Entries

variable {files files' : Files} {place names : List Bytes} {content : Bytes}

theorem entryAt?_eq_directory_iff : files.entryAt? place = some .directory ↔
    (files.entries.find? fun entry => parts entry.1 = place) = none ∧
      ((files.entries.any fun entry => place.isPrefixOf (parts entry.1)) = true ∨ place = []) := by
  unfold entryAt?
  cases files.entries.find? fun entry => parts entry.1 = place with
  | some entry => simp
  | none =>
      dsimp only
      split
      · next hany => simp [hany]
      · next hany => cases place <;> simp [hany]

theorem entryAt?_eq_file_iff : files.entryAt? place = some (.file content) ↔
    ∃ key, (files.entries.find? fun entry => parts entry.1 = place) = some (key, content) := by
  unfold entryAt?
  cases files.entries.find? fun entry => parts entry.1 = place with
  | some entry => obtain ⟨key, found⟩ := entry; simp
  | none =>
      dsimp only
      split
      · simp
      · split <;> simp

theorem entryAt?_eq_none_iff : files.entryAt? place = none ↔
    (files.entries.find? fun entry => parts entry.1 = place) = none ∧
      (files.entries.any fun entry => place.isPrefixOf (parts entry.1)) = false ∧ place ≠ [] := by
  unfold entryAt?
  cases files.entries.find? fun entry => parts entry.1 = place with
  | some entry => simp
  | none =>
      dsimp only
      split
      · next hany => simp [hany]
      · next hany => cases place <;> simp [hany]

/-- Above a directory there is something. -/
theorem entryAt?_dropLast_ne_none (h : files.entryAt? names = some .directory) :
    files.entryAt? names.dropLast ≠ none := by
  intro hnone
  obtain ⟨-, hany, hne⟩ := entryAt?_eq_none_iff.mp hnone
  rcases (entryAt?_eq_directory_iff.mp h).2 with hentry | rfl
  · obtain ⟨entry, hmem, hentry⟩ := List.any_eq_true.mp hentry
    have hparent : names.dropLast <+: parts entry.1 :=
      (List.dropLast_prefix names).trans (List.isPrefixOf_iff_prefix.mp hentry)
    exact List.any_eq_false.mp hany entry hmem (List.isPrefixOf_iff_prefix.mpr hparent)
  · exact hne rfl

/-- If a name is not found in a directory, nothing stands at its place, and it is the name of a
place. -/
theorem free_of_missing {name : Bytes} (hdirectory : files.entryAt? names = some .directory)
    (h : files.follow (some names) [name] = .error .missing) :
    Passable files name (some names) ∧ next (some names) name = some (names ++ [name]) ∧
      files.entryAt? (names ++ [name]) = none := by
  rw [follow, hdirectory] at h
  dsimp only at h
  split at h
  · rw [follow, hdirectory] at h
    cases h
  · next hhere =>
      split at h
      · split at h
        · cases h
        · rw [follow] at h
          split at h
          · cases h
          · next hparent => exact absurd hparent (entryAt?_dropLast_ne_none hdirectory)
      · next hup =>
          split at h
          · cases h
          · next hshort =>
              rw [follow] at h
              refine ⟨.inside hdirectory (.inr (Nat.not_lt.mp hshort)), ?_, ?_⟩
              · dsimp only [next, Option.bind_some]
                rw [if_neg hhere, if_neg hup]
              · split at h
                · cases h
                · assumption

section Changed

variable (hentries : files'.entries = files.entries.map fun entry =>
  if parts entry.1 = names then (entry.1, content) else entry)

include hentries

theorem find?_of_changed : files'.entries.find? (fun entry => parts entry.1 = place) =
    (files.entries.find? fun entry => parts entry.1 = place).map fun entry =>
      if parts entry.1 = names then (entry.1, content) else entry := by
  rw [hentries, List.find?_map]
  congr 2
  funext entry
  simp only [Function.comp_apply]
  split <;> rfl

theorem directory_of_changed (h : files.entryAt? place = some .directory) :
    files'.entryAt? place = some .directory := by
  obtain ⟨hfind, hany⟩ := entryAt?_eq_directory_iff.mp h
  refine entryAt?_eq_directory_iff.mpr ⟨by rw [find?_of_changed hentries, hfind]; rfl, ?_⟩
  refine hany.imp_left fun hany => ?_
  rw [hentries, List.any_map, ← hany]
  congr 1
  funext entry
  simp only [Function.comp_apply]
  split <;> rfl

theorem file_of_changed {old : Bytes} (h : files.entryAt? names = some (.file old)) :
    files'.entryAt? names = some (.file content) := by
  obtain ⟨key, hfind⟩ := entryAt?_eq_file_iff.mp h
  have hkey : parts key = names := by simpa using List.find?_some hfind
  refine entryAt?_eq_file_iff.mpr ⟨key, ?_⟩
  rw [find?_of_changed hentries, hfind, Option.map_some, if_pos hkey]

end Changed

section Added

variable {key : Bytes} (hentries : files'.entries = files.entries ++ [(key, content)])
  (hkey : parts key = names) (hfree : files.entryAt? names = none)

include hentries hkey hfree

theorem directory_of_added (h : files.entryAt? place = some .directory) :
    files'.entryAt? place = some .directory := by
  obtain ⟨hfind, hany⟩ := entryAt?_eq_directory_iff.mp h
  have hne : names ≠ place := by
    rintro rfl
    rw [hfree] at h
    cases h
  refine entryAt?_eq_directory_iff.mpr ⟨?_, ?_⟩
  · simp [hentries, List.find?_append, hfind, hkey, hne]
  · refine hany.imp_left fun hany => ?_
    rw [hentries, List.any_append, hany]
    rfl

theorem file_of_added : files'.entryAt? names = some (.file content) := by
  refine entryAt?_eq_file_iff.mpr ⟨key, ?_⟩
  rw [hentries, List.find?_append, (entryAt?_eq_none_iff.mp hfree).1]
  simp [hkey]

end Added

end Entries

section Write

variable {files files' : Files} {path content : Bytes}

/-- A path is followed part by part, unless it is refused wherever it is used. -/
theorem locate_cases (path : Bytes) :
    (∀ files : Files, files.locate path = files.follow (origin path) (parts path)) ∨
      ∃ fault, (∀ files : Files, files.locate path = .error fault) ∧
        (fault = .missing → path = []) := by
  unfold locate
  split
  · exact .inr ⟨_, fun _ => rfl, nofun⟩
  · split
    · next hempty => exact .inr ⟨_, fun _ => rfl, fun _ => List.isEmpty_iff.mp hempty⟩
    · split
      · exact .inr ⟨_, fun _ => rfl, nofun⟩
      · exact .inl fun _ => rfl

theorem slash_not_mem_place {before names : List Bytes} {name : Bytes} {entry : Entry}
    (hparts : parts path = before ++ [name])
    (h : files.follow (origin path) before = .ok (some names, entry)) :
    ∀ part ∈ names ++ [name], 0x2f ∉ part := by
  intro part hpart
  refine @slash_not_mem_of_mem_parts path part ?_
  rw [hparts]
  rcases List.mem_append.mp hpart with hplace | hname
  · have horigin : (origin path).getD [] = [] := by
      unfold origin
      split <;> rfl
    have hfrom := mem_of_follow h hplace
    rw [horigin] at hfrom
    exact List.mem_append_left _ (hfrom.resolve_left List.not_mem_nil)
  · exact List.mem_append_right _ hname

/-- What writing a file does: it changes the content of one that is there, or adds a new one to a
directory. -/
theorem write_cases (h : files.write path content = .ok files') :
    (∀ f : Files, f.locate path = f.follow (origin path) (parts path)) ∧
      ((∃ names old, files.follow (origin path) (parts path) = .ok (some names, .file old) ∧
          files'.entries = files.entries.map fun entry =>
            if parts entry.1 = names then (entry.1, content) else entry) ∨
        ∃ before name names, parts path = before ++ [name] ∧
          files.follow (origin path) before = .ok (some names, .directory) ∧
          files.follow (some names) [name] = .error .missing ∧
          files'.entries =
            files.entries ++ [(Bytes.join (utf8 "/") (names ++ [name]), content)]) := by
  unfold write at h
  rcases locate_cases path with hfollow | ⟨fault, hrefused, hempty⟩
  · refine ⟨hfollow, ?_⟩
    rw [hfollow] at h
    split at h
    · next names old hlocate =>
        cases h
        exact .inl ⟨names, old, hlocate, rfl⟩
    · cases h
    · next fault hlocate =>
        dsimp only at h
        split at h
        · next name names hlast hdirectory =>
            have hparts := List.dropLast_append_getLast? name hlast
            split at h
            · cases h
            · cases h
              rw [← hparts, follow_append hdirectory] at hlocate
              exact .inr ⟨_, name, names, hparts.symm, hdirectory, hlocate, rfl⟩
        · cases h
  · rw [hrefused] at h
    dsimp only at h
    split at h
    · next name names hlast hdirectory =>
        rw [hempty rfl] at hlast
        cases hlast
        cases h
    · cases h

/-- A path that was written to leads to the file that was written. -/
theorem find_of_write (h : files.write path content = .ok files') :
    files'.find path = .ok (.file content) := by
  obtain ⟨hlocate, ⟨names, old, hfollow, hentries⟩ |
    ⟨before, name, names, hparts, hdirectory, hmissing, hentries⟩⟩ := write_cases h
  · rw [find, hlocate, follow_of_directories (fun _ => directory_of_changed hentries) hfollow,
      follow, file_of_changed hentries (entryAt?_of_follow hfollow)]
    rfl
  · -- The name is not found, so that it is free and the new entry hides no directory.
    have hplace := entryAt?_of_follow hdirectory
    obtain ⟨hpassable, hnext, hfree⟩ := free_of_missing hplace hmissing
    have hkey : parts (Bytes.join (utf8 "/") (names ++ [name])) = names ++ [name] :=
      parts_join (List.append_ne_nil_of_right_ne_nil names (List.cons_ne_nil name []))
        (slash_not_mem_place hparts hdirectory)
    have hstay : ∀ place, files.entryAt? place = some .directory →
        files'.entryAt? place = some .directory :=
      fun _ => directory_of_added hentries hkey hfree
    have hfollow := follow_of_directories hstay hdirectory
    rw [follow, hstay names hplace] at hfollow
    rw [find, hlocate, hparts, follow_append hfollow, (hpassable.of_directories hstay).follow_cons,
      hnext, follow, file_of_added hentries hkey hfree]
    rfl

/-- Whether a file can be written does not depend on the content. -/
theorem exists_write (h : files.write path content = .ok files') (content' : Bytes) :
    ∃ files'', files.write path content' = .ok files'' := by
  unfold write at h
  split at h
  · next names old hlocate => exact ⟨_, by rw [write, hlocate]⟩
  · cases h
  · next fault hlocate =>
      dsimp only at h
      split at h
      · next name names hlast hdirectory =>
          split at h
          · cases h
          · next hne =>
              refine ⟨⟨files.entries ++ [(Bytes.join (utf8 "/") (names ++ [name]), content')]⟩, ?_⟩
              rw [write, hlocate]
              dsimp only
              rw [hlast, hdirectory]
              exact if_neg hne
      · cases h

theorem path_ne_nil_of_write (h : files.write path content = .ok files') : path ≠ [] := by
  rintro rfl
  cases (write_cases h).1 ⟨[]⟩

end Write

end Monkey.Files
