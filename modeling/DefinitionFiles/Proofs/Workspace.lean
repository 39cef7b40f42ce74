import DefinitionFiles.Proofs.Outline.Entries
import DefinitionFiles.Proofs.Text.Ordering
import DefinitionFiles.Proofs.Uri
import DefinitionFiles.Workspace
import Mathlib.Data.List.Forall2
import Mathlib.Data.List.Nodup

/-!
# The files of a workspace

The files of a workspace are listed once each by their absolute paths, and so they have different
URIs. A scan succeeds exactly if nothing cancels it and every listed file can be read, and gives
what was found in them, file by file.
-/

namespace DefinitionFiles.Workspace

variable {w : Workspace} {d : Disk}

/-- What is known of a file that could be read. -/
theorem exists_definition_of_examine {path : Bytes} {result : FileResult}
    (h : w.examine d path = .ok result) :
    ∃ definition, result.definition? = some definition ∧
      definition.uri = Uri.ofPath d.cwd path := by
  unfold examine at h
  split at h
  next => cases h
  next text hread =>
    cases h
    exact ⟨_, rfl, rfl⟩

theorem path_of_examine {path : Bytes} {result : FileResult}
    (h : w.examine d path = .ok result) : result.path = path := by
  unfold examine at h
  split at h
  next => cases h
  next => cases h; rfl

theorem exists_rootFiles_of_files {files : List Bytes} (h : w.files d = .ok files) :
    ∃ found : List (List Bytes),
      files = Bytes.sort (found.flatten.map (Path.absolute d.cwd)).eraseDups := by
  unfold Workspace.files at h
  cases hfound : w.roots.mapM (w.rootFiles d) with
  | error e =>
      rw [hfound] at h
      cases h
  | ok found =>
      rw [hfound] at h
      cases h
      exact ⟨found, rfl⟩

theorem nodup_files {files : List Bytes} (h : w.files d = .ok files) : files.Nodup := by
  obtain ⟨found, rfl⟩ := exists_rootFiles_of_files h
  exact (Bytes.sort_perm _).nodup_iff.mpr (Section.nodup_eraseDups _)

theorem absolute_of_mem_files (hcwd : Path.isRooted d.cwd = true) {files : List Bytes}
    (h : w.files d = .ok files) {path : Bytes} (hpath : path ∈ files) :
    Path.absolute d.cwd path = path := by
  obtain ⟨found, rfl⟩ := exists_rootFiles_of_files h
  rw [Bytes.mem_sort, List.mem_eraseDups, List.mem_map] at hpath
  obtain ⟨p, -, rfl⟩ := hpath
  exact Path.absolute_absolute hcwd p

/-- No two files of a workspace share a URI. -/
theorem nodup_uris (hcwd : Path.isRooted d.cwd = true) {files : List Bytes}
    (h : w.files d = .ok files) : (files.map (Uri.ofPath d.cwd)).Nodup := by
  refine List.Nodup.map_on ?_ (nodup_files h)
  intro p hp q hq huri
  rw [Uri.ofPath_inj, absolute_of_mem_files hcwd h hp, absolute_of_mem_files hcwd h hq] at huri
  exact huri

/-- What `examine` finds in each of some files. -/
abbrev Examined (w : Workspace) (d : Disk) (files : List Bytes) (results : List FileResult) :
    Prop :=
  List.Forall₂ (fun path result => w.examine d path = .ok result) files results

theorem examineAll_eq_ok_iff {files : List Bytes} {results : List FileResult} :
    w.examineAll d files = .ok results ↔ Examined w d files results := by
  induction files generalizing results with
  | nil =>
      rw [examineAll, Examined, List.forall₂_nil_left_iff, Except.ok.injEq, eq_comm]
  | cons path rest ih =>
      rw [examineAll, Examined, List.forall₂_cons_left_iff]
      cases hpath : w.examine d path with
      | error e =>
          constructor
          · intro h
            cases h
          · rintro ⟨result, others, hresult, -, -⟩
            cases hresult
      | ok result =>
          constructor
          · intro h
            cases hrest : w.examineAll d rest with
            | error e =>
                rw [hrest] at h
                cases h
            | ok others =>
                rw [hrest] at h
                cases h
                exact ⟨result, others, rfl, ih.mp hrest, rfl⟩
          · rintro ⟨_, others, ⟨⟩, hothers, rfl⟩
            rw [ih.mpr hothers]
            rfl

theorem scan_eq_ok_iff {cancelled : Bool} {results : List FileResult} :
    w.scan d cancelled = .ok results ↔
      cancelled = false ∧ ∃ files, w.files d = .ok files ∧ Examined w d files results := by
  unfold scan
  cases hfiles : w.files d with
  | error e =>
      constructor
      · intro h
        cases h
      · rintro ⟨-, files, ⟨⟩, -⟩
  | ok files =>
      cases cancelled with
      | true =>
          constructor
          · intro h
            cases h
          · rintro ⟨⟨⟩, -⟩
      | false =>
          constructor
          · intro h
            exact ⟨rfl, files, rfl, examineAll_eq_ok_iff.mp h⟩
          · rintro ⟨-, _, ⟨⟩, hexamined⟩
            exact examineAll_eq_ok_iff.mpr hexamined

/-! ## What was found in the files -/

namespace Examined

variable {files : List Bytes} {results : List FileResult}

/-- Every file has its own definition, under its own URI. -/
theorem definitions (h : Examined w d files results) :
    results.map FileResult.definition? =
        (results.filterMap FileResult.definition?).map some ∧
      (results.filterMap FileResult.definition?).map Definition.uri =
        files.map (Uri.ofPath d.cwd) := by
  induction h with
  | nil => exact ⟨rfl, rfl⟩
  | cons hresult _ ih =>
      obtain ⟨definition, hdefinition, huri⟩ := exists_definition_of_examine hresult
      constructor
      · simp [hdefinition, ih.1]
      · simp [hdefinition, huri, ih.2]

/-- What was found is in the order of the files. -/
theorem map_path (h : Examined w d files results) : results.map FileResult.path = files := by
  induction h with
  | nil => rfl
  | cons hresult _ ih => rw [List.map_cons, path_of_examine hresult, ih]

theorem ne_error (h : Examined w d files results) {path : Bytes} (hpath : path ∈ files)
    (e : FileError) : w.examine d path ≠ .error e := by
  induction h with
  | nil => cases hpath
  | cons hresult _ ih =>
      rcases List.mem_cons.mp hpath with rfl | hrest
      · rw [hresult]
        exact nofun
      · exact ih hrest

end Examined

end DefinitionFiles.Workspace
