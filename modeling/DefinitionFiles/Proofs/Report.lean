import DefinitionFiles.Proofs.Path.Relative
import DefinitionFiles.Proofs.Workspace
import DefinitionFiles.Report

/-!
# The names of files in reports

A report shows a file under its path relative to a directory, unless that name starts with two dots.
Read from the directory, or as it is, the name stands for the file alone. So no two files of a scan
are shown under one name.
-/

namespace DefinitionFiles

/-- A path from the root down, in its shortest form. -/
structure Path.IsCleaned (p : Bytes) : Prop where
  isRooted : isRooted p = true
  clean_eq : clean p = p

namespace Report

theorem shownPath_eq {base p : Bytes} (hbase : Path.isRooted base = true)
    (hp : Path.isRooted p = true) :
    shownPath base p =
      if Path.dotdot <+: Path.relative base p then p else Path.relative base p := by
  rw [shownPath]
  rcases Path.relative_cases hbase hp with hbelow | ⟨hbelow, hdots⟩
  · simp [hbelow]
  · simp [hbelow, hdots]

variable {base : Bytes} (hbase : Path.IsCleaned base)

include hbase

/-- Joined to the directory, the relative name of a path is the path again. -/
theorem clean_append_relative {p : Bytes} (hp : Path.IsCleaned p) :
    Path.clean (base ++ Path.slash :: Path.relative base p) = p := by
  have habsolute := Path.absolute_relative hp.isRooted hbase.isRooted
  rwa [Path.absolute, if_neg (by simp [Path.isRooted_relative hp.isRooted]), hp.clean_eq]
    at habsolute

theorem shownPath_cases {p : Bytes} (hp : Path.IsCleaned p) :
    shownPath base p = p ∨
      Path.isRooted (shownPath base p) = false ∧ ¬ Path.dotdot <+: shownPath base p ∧
        Path.clean (base ++ Path.slash :: shownPath base p) = p := by
  rw [shownPath_eq hbase.isRooted hp.isRooted]
  split
  next => exact .inl rfl
  next hdots =>
    exact .inr ⟨Path.isRooted_relative hp.isRooted base, hdots, clean_append_relative hbase hp⟩

/-- A name that is rooted is the path itself, and any other one leads to it from the directory: in
both cases the path can be told from its name. -/
theorem shownPath_inj {p q : Bytes} (hp : Path.IsCleaned p) (hq : Path.IsCleaned q)
    (h : shownPath base p = shownPath base q) : p = q := by
  rcases shownPath_cases hbase hp with hsame | ⟨hrelative, -, hjoin⟩ <;>
    rcases shownPath_cases hbase hq with hsame' | ⟨hrelative', -, hjoin'⟩
  · rw [← hsame, h, hsame']
  · rw [← h, hsame, hp.isRooted] at hrelative'
    cases hrelative'
  · rw [h, hsame', hq.isRooted] at hrelative
    cases hrelative
  · rw [← hjoin, h, hjoin']

theorem nodup_shownPath {w : Workspace} {d : Disk} {files : List Bytes}
    (hcwd : Path.isRooted d.cwd = true) (hfiles : w.files d = .ok files) :
    (files.map (shownPath base)).Nodup := by
  have hcleaned : ∀ path ∈ files, Path.IsCleaned path := by
    intro path hpath
    have habsolute := Workspace.absolute_of_mem_files hcwd hfiles hpath
    have hrooted : Path.isRooted path = true := habsolute ▸ Path.isRooted_absolute hcwd path
    exact ⟨hrooted, by rwa [Path.absolute, if_pos hrooted] at habsolute⟩
  refine List.Nodup.map_on ?_ (Workspace.nodup_files hfiles)
  exact fun p hp q hq => shownPath_inj hbase (hcleaned p hp) (hcleaned q hq)

/-- The name a report shows for a path is the relative one where that does not start with two dots,
and the path itself otherwise. It stands for this path alone, and so the files of a scan are all
given different names. This is about the names as such: when a report is laid out in columns or as
JSON, a tab or a stray byte in a name is replaced, and two names can come to look the same. -/
theorem shownPath_identifies :
    (∀ p, Path.IsCleaned p →
      shownPath base p =
        (if Path.dotdot <+: Path.relative base p then p else Path.relative base p)) ∧
    (∀ p, Path.IsCleaned p →
      shownPath base p = p ∨
        Path.isRooted (shownPath base p) = false ∧ ¬ Path.dotdot <+: shownPath base p ∧
          Path.clean (base ++ Path.slash :: shownPath base p) = p) ∧
    (∀ p q, Path.IsCleaned p → Path.IsCleaned q → shownPath base p = shownPath base q → p = q) ∧
    ∀ (w : Workspace) (d : Disk) results, Path.isRooted d.cwd = true →
      w.scan d false = .ok results → (results.map fun r => shownPath base r.path).Nodup := by
  refine ⟨fun p hp => shownPath_eq hbase.isRooted hp.isRooted,
    fun p => shownPath_cases hbase, fun p q => shownPath_inj hbase, ?_⟩
  intro w d results hcwd hscan
  obtain ⟨-, files, hfiles, hexamined⟩ := Workspace.scan_eq_ok_iff.mp hscan
  have hnodup := nodup_shownPath hbase hcwd hfiles
  rwa [← hexamined.map_path, List.map_map] at hnodup

omit hbase in
/-- A file below the directory, one whose name there starts with two dots, one beside it whose name
continues that of the directory, and the directory itself. -/
theorem shownPath_identifies_beside :
    let base := utf8 "/srv/dfn"
    let below := utf8 "/srv/dfn/npc/hag.dfn"
    let dotted := utf8 "/srv/dfn/..hag.dfn"
    let beside := utf8 "/srv/dfn.old/hag.dfn"
    shownPath base below = utf8 "npc/hag.dfn" ∧ shownPath base dotted = dotted ∧
      shownPath base beside = beside ∧ shownPath base base = Path.dot ∧
      Path.clean (base ++ Path.slash :: utf8 "npc/hag.dfn") = below := by
  intro base below dotted beside
  have hcleaned : ∀ p ∈ [base, below, dotted, beside], Path.IsCleaned p := by
    intro p hp
    refine ⟨?_, ?_⟩
    · revert p
      decide +kernel
    · revert p
      decide +kernel
  simp only [List.forall_mem_cons] at hcleaned
  obtain ⟨hbase, hbelow, hdotted, hbeside, -⟩ := hcleaned
  obtain ⟨hshown, hcases, -, -⟩ := shownPath_identifies hbase
  have hname : shownPath base below = utf8 "npc/hag.dfn" := by
    rw [hshown below hbelow]
    decide +kernel
  refine ⟨hname, ?_, ?_, ?_, ?_⟩
  · rw [hshown dotted hdotted]
    decide +kernel
  · rw [hshown beside hbeside]
    decide +kernel
  · rw [hshown base hbase]
    decide +kernel
  · rcases hcases below hbelow with hsame | ⟨-, -, hjoin⟩
    · rw [hname] at hsame
      exact absurd hsame (by decide +kernel)
    · rwa [hname] at hjoin

end Report

end DefinitionFiles
