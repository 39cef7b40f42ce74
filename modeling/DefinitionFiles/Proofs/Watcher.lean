import DefinitionFiles.Proofs.Disk.Walking
import DefinitionFiles.Watcher

/-!
# What a watcher does

The directories of a tree are watched in the order in which they are met, up to the first failure.
An event is handled in one of a few ways: a new directory is watched with those below it, a wanted
file waits to be quiet, a path that is gone is not watched any more, and otherwise nothing happens.
-/

namespace DefinitionFiles

/-- Whether an event tells of nothing but that its path is gone. -/
def DiskEvent.isDeparture (e : DiskEvent) : Bool :=
  !(e.created || e.written) && (e.removed || e.renamed)

namespace Watcher

open Disk

/-- Whether an event makes its path wait: a file that is wanted is new or was changed. -/
def accepts (w : Watcher) (d : Disk) (e : DiskEvent) : Bool :=
  (e.created || e.written) && !w.isNewDirectory d e && w.isWanted e.path

variable {w w' : Watcher} {d : Disk} {e : DiskEvent}

/-! ## Wanted paths -/

theorem isWanted_iff {path : Bytes} :
    w.isWanted path = true ↔
      path ∈ w.files ∨ Path.dir path ∈ w.directories ∧ w.workspace.isMatch path = true := by
  simp [isWanted]

theorem isWanted_ofSegments_iff {place : Place} {name : Bytes}
    (h : ∀ other ∈ place ++ [name], Path.IsName other) :
    w.isWanted (Path.ofSegments true (place ++ [name])) = true ↔
      Path.ofSegments true (place ++ [name]) ∈ w.files ∨
        Path.ofSegments true place ∈ w.directories ∧
          w.workspace.isMatch (Path.ofSegments true (place ++ [name])) = true := by
  rw [isWanted_iff, Path.dir_ofSegments_concat h]

/-! ## Trees -/

/-- How an attempt to watch the directories of a tree ends, and what was met before: it gets through
the whole tour, or it stops at the first directory that cannot be watched. -/
inductive Attempt (d : Disk) (t : Tour) (directories : List Bytes) :
    (front : List (Bytes × Inode)) → Option FileError → Prop where
  | through : Attempt d t directories t.met t.failure?
  | refused {front rest : List (Bytes × Inode)} {path : Bytes} {cause : DiskError}
      (hmet : t.met = front ++ (path, .directory) :: rest) (hnew : path ∉ directories)
      (hcause : d.watchError? path = some cause) :
      Attempt d t directories front (some ⟨"watch", path, cause⟩)

namespace Attempt

variable {t : Tour} {directories : List Bytes} {front : List (Bytes × Inode)}

theorem cons {met : List (Bytes × Inode)} {e? : Option FileError}
    (h : Attempt d { met := met } directories front e?) (entry : Bytes × Inode) :
    Attempt d { met := entry :: met } directories (entry :: front) e? := by
  cases h with
  | through => exact .through
  | refused hmet hnew hcause => exact .refused (congrArg (entry :: ·) hmet) hnew hcause

theorem isPrefix {e? : Option FileError} (h : Attempt d t directories front e?) :
    front <+: t.met := by
  cases h with
  | through => exact List.prefix_rfl
  | refused hmet => exact ⟨_, hmet.symm⟩

theorem complete_eq_ok (h : Attempt d t directories front none) : t.complete = .ok front := by
  generalize he : none = e? at h
  cases h with
  | through => exact Tour.complete_eq_ok_iff.mpr ⟨he.symm, rfl⟩
  | refused => cases he

/-- If the tour is complete, and no directory in it is refused, the attempt succeeds. -/
theorem eq_none {e? : Option FileError} (h : Attempt d t directories front e?)
    {found : List (Bytes × Inode)} (hfound : t.complete = .ok found)
    (hwatch : ∀ path, (path, .directory) ∈ found → path ∉ directories →
      d.watchError? path = none) : e? = none := by
  obtain ⟨hfailure, rfl⟩ := Tour.complete_eq_ok_iff.mp hfound
  cases h with
  | through => exact hfailure
  | refused hmet hnew hcause =>
      have hnone := hwatch _ (by simp [hmet]) hnew
      rw [hnone] at hcause
      cases hcause

end Attempt

/-- What is met is registered if it is a directory that is not watched yet, or the system refuses
it. -/
theorem registerAll_cons_cases (w : Watcher) (d : Disk) (entry : Bytes × Inode)
    (rest : List (Bytes × Inode)) :
    (∃ directories,
      w.registerAll d (entry :: rest) = { w with directories := directories }.registerAll d rest ∧
        ∀ path, path ∈ directories ↔ path ∈ w.directories ∨ (path, .directory) = entry) ∨
      ∃ path cause, entry = (path, .directory) ∧ path ∉ w.directories ∧
        d.watchError? path = some cause ∧
          w.registerAll d (entry :: rest) = (w, some ⟨"watch", path, cause⟩) := by
  obtain ⟨path, inode⟩ := entry
  by_cases hkind : inode = .directory
  · subst hkind
    by_cases hold : path ∈ w.directories
    · refine .inl ⟨w.directories, by simp [registerAll, register, hold], fun other => ?_⟩
      grind
    · cases hcause : d.watchError? path with
      | some cause =>
          exact .inr ⟨path, cause, rfl, hold, hcause, by simp [registerAll, register, hold, hcause]⟩
      | none =>
          exact .inl ⟨w.directories ++ [path], by simp [registerAll, register, hold, hcause],
            by simp⟩
  · refine .inl ⟨w.directories, by simp [registerAll, hkind], fun other => ?_⟩
    grind

/-- Watching directories one after the other changes nothing but what is watched, and of that
everything met before the end is part. -/
theorem exists_registerAll (w : Watcher) (d : Disk) (met : List (Bytes × Inode)) :
    ∃ directories front e?,
      w.registerAll d met = ({ w with directories := directories }, e?) ∧
        (∀ path, path ∈ directories ↔ path ∈ w.directories ∨ (path, .directory) ∈ front) ∧
        Attempt d { met := met } directories front e? := by
  induction met generalizing w with
  | nil => exact ⟨w.directories, [], none, rfl, by simp, .through⟩
  | cons entry rest ih =>
      rcases registerAll_cons_cases w d entry rest with
        ⟨watched, hcons, hwatched⟩ | ⟨path, cause, rfl, hnew, hcause, hcons⟩
      · obtain ⟨directories, front, e?, hall, hmem, hattempt⟩ := ih { w with directories := watched }
        refine ⟨directories, entry :: front, e?, hcons.trans hall, fun path => ?_, hattempt.cons _⟩
        rw [hmem, hwatched, List.mem_cons, or_assoc]
      · exact ⟨w.directories, [], some ⟨"watch", path, cause⟩, hcons, by simp,
          .refused rfl hnew hcause⟩

/-- What becomes of the directories of a tree, and of the attempt to watch them. -/
theorem exists_addTree (w : Watcher) (d : Disk) (root : Bytes) :
    ∃ directories front e?,
      w.addTree d root = ({ w with directories := directories }, e?) ∧
        (∀ path, path ∈ directories ↔ path ∈ w.directories ∨ (path, .directory) ∈ front) ∧
        Attempt d (d.tour root) directories front e? := by
  obtain ⟨directories, front, e?, hall, hmem, hattempt⟩ :=
    exists_registerAll w d (d.tour root).met
  cases hattempt with
  | through => exact ⟨directories, _, _, by simp [addTree, hall], hmem, .through⟩
  | refused hmet hnew hcause =>
      exact ⟨directories, front, _, by simp [addTree, hall], hmem, .refused hmet hnew hcause⟩

/-- All directories of a tree are watched afterwards, and nothing else changes. -/
theorem addTree_of_ok {root : Bytes} {found : List (Bytes × Inode)} (h : d.walk root = .ok found)
    (hwatch : ∀ path, (path, .directory) ∈ found → d.watchError? path = none) :
    ∃ directories, w.addTree d root = ({ w with directories := directories }, none) ∧
      ∀ path, path ∈ directories ↔ path ∈ w.directories ∨ (path, .directory) ∈ found := by
  obtain ⟨directories, front, e?, hadd, hmem, hattempt⟩ := exists_addTree w d root
  obtain rfl := hattempt.eq_none h fun path hpath _ => hwatch path hpath
  obtain rfl := Except.ok.inj (hattempt.complete_eq_ok.symm.trans h)
  exact ⟨directories, hadd, hmem⟩

theorem exists_walk_of_addTree {root : Bytes} (h : w.addTree d root = (w', none)) :
    ∃ directories found, d.walk root = .ok found ∧ w' = { w with directories := directories } ∧
      ∀ path, path ∈ directories ↔ path ∈ w.directories ∨ (path, .directory) ∈ found := by
  obtain ⟨directories, front, e?, hadd, hmem, hattempt⟩ := exists_addTree w d root
  rw [hadd] at h
  obtain ⟨rfl, rfl⟩ := Prod.mk.inj h
  exact ⟨directories, front, hattempt.complete_eq_ok, rfl, hmem⟩

/-! ## Roots -/

/-- What watching some roots adds to a watcher. -/
structure Enrols (w : Watcher) (d : Disk) (roots : List Bytes) (w' : Watcher) : Prop where
  workspace_eq : w'.workspace = w.workspace
  pending_eq : w'.pending = w.pending
  exists_stat : ∀ root ∈ roots, ∃ inode, d.stat (Path.absolute d.cwd root) = .ok inode
  exists_walk : ∀ root ∈ roots, d.stat (Path.absolute d.cwd root) = .ok .directory →
    ∃ found, d.walk (Path.absolute d.cwd root) = .ok found
  mem_files_iff : ∀ path, path ∈ w'.files ↔
    path ∈ w.files ∨ ∃ root ∈ roots, ∃ inode, path = Path.absolute d.cwd root ∧
      d.stat (Path.absolute d.cwd root) = .ok inode ∧ inode ≠ .directory
  mem_directories_iff : ∀ path, path ∈ w'.directories ↔
    path ∈ w.directories ∨ ∃ root ∈ roots, ∃ found,
      d.stat (Path.absolute d.cwd root) = .ok .directory ∧
        d.walk (Path.absolute d.cwd root) = .ok found ∧ (path, .directory) ∈ found

theorem enrols_nil : Enrols w d [] w :=
  ⟨rfl, rfl, by simp, by simp, by simp, by simp⟩

theorem addRoot_of_directory {root : Bytes}
    (h : d.stat (Path.absolute d.cwd root) = .ok .directory) :
    w.addRoot d root =
      ((w.addTree d (Path.absolute d.cwd root)).1,
        (w.addTree d (Path.absolute d.cwd root)).2.map (.walkFailed .directories)) := by
  simp only [addRoot, h]

theorem addRoot_of_file {root : Bytes} {inode : Inode}
    (h : d.stat (Path.absolute d.cwd root) = .ok inode) (hkind : inode ≠ .directory) :
    w.addRoot d root =
      ((w.addFile d (Path.absolute d.cwd root)).1,
        (w.addFile d (Path.absolute d.cwd root)).2.map (.walkFailed .parent)) := by
  cases inode with
  | directory => exact absurd rfl hkind
  | file | link => simp only [addRoot, h]

theorem enrols_addRoot {root : Bytes} (h : w.addRoot d root = (w', none)) :
    Enrols w d [root] w' := by
  cases hstat : d.stat (Path.absolute d.cwd root) with
  | error cause => simp [addRoot, hstat] at h
  | ok inode =>
      by_cases hkind : inode = .directory
      · subst hkind
        rw [addRoot_of_directory hstat, Prod.mk.injEq, Option.map_eq_none_iff] at h
        obtain ⟨directories, found, hwalk, hwatcher, hmem⟩ :=
          exists_walk_of_addTree (Prod.ext h.1 h.2)
        subst hwatcher
        refine ⟨rfl, rfl, by simp [hstat], by simp [hwalk], by simp [hstat], fun path => ?_⟩
        simp [hmem, hstat, hwalk]
      · rw [addRoot_of_file hstat hkind, Prod.mk.injEq] at h
        obtain rfl := h.1
        refine ⟨rfl, rfl, by simp [hstat], by simp [hstat, hkind], fun path => ?_,
          by simp [addFile, hstat, hkind]⟩
        rw [addFile]
        by_cases hold : Path.absolute d.cwd root ∈ w.files
        · simp only [List.contains_iff_mem, hold, if_true, List.mem_singleton, exists_eq_left,
            hstat, Except.ok.injEq, exists_eq_left', exists_and_left]
          grind
        · simp [hold, hstat, hkind]

theorem Enrols.trans {roots others : List Bytes} {u : Watcher} (h : Enrols w d roots u)
    (hothers : Enrols u d others w') : Enrols w d (roots ++ others) w' where
  workspace_eq := hothers.workspace_eq.trans h.workspace_eq
  pending_eq := hothers.pending_eq.trans h.pending_eq
  exists_stat := List.forall_mem_append.mpr ⟨h.exists_stat, hothers.exists_stat⟩
  exists_walk := List.forall_mem_append.mpr ⟨h.exists_walk, hothers.exists_walk⟩
  mem_files_iff := fun path => by
    rw [hothers.mem_files_iff, h.mem_files_iff]
    simp only [List.mem_append, or_and_right, exists_or, or_assoc]
  mem_directories_iff := fun path => by
    rw [hothers.mem_directories_iff, h.mem_directories_iff]
    simp only [List.mem_append, or_and_right, exists_or, or_assoc]

theorem enrols_addRoots {roots : List Bytes} (h : w.addRoots d roots = (w', none)) :
    Enrols w d roots w' := by
  induction roots generalizing w with
  | nil =>
      cases h
      exact enrols_nil
  | cons root rest ih =>
      rw [addRoots] at h
      cases hadd : w.addRoot d root with
      | mk u error? =>
          cases error? with
          | some error => simp [hadd] at h
          | none =>
              rw [hadd] at h
              exact (enrols_addRoot hadd).trans (ih h)

/-- A watcher that has started watches all its roots. -/
theorem enrols_start (h : w.start d = (w', none)) : Enrols w d w.workspace.roots w' := by
  unfold start at h
  cases hadd : w.addRoots d w.workspace.roots with
  | mk u error? =>
      cases error? with
      | some error => simp [hadd] at h
      | none =>
          simp only [hadd, Prod.mk.injEq, and_true] at h
          subst h
          have henrols := enrols_addRoots hadd
          exact ⟨henrols.workspace_eq, henrols.pending_eq, henrols.exists_stat,
            henrols.exists_walk, henrols.mem_files_iff, henrols.mem_directories_iff⟩

/-! ## Events -/

theorem isNewDirectory_iff :
    w.isNewDirectory d e = true ↔
      e.created = true ∧ Path.dir e.path ∈ w.directories ∧ d.stat e.path = .ok .directory := by
  rw [isNewDirectory, Bool.and_eq_true, Bool.and_eq_true, List.contains_iff_mem, and_assoc]
  cases d.stat e.path with
  | error cause => simp
  | ok inode => cases inode <;> simp

theorem accepts_of_isWanted (hevent : e.created = true ∨ e.written = true)
    (hkind : d.stat e.path ≠ .ok .directory) (hwanted : w.isWanted e.path = true) :
    w.accepts d e = true := by
  have hnew : w.isNewDirectory d e = false := by
    rw [Bool.eq_false_iff]
    exact fun hnew => hkind (isNewDirectory_iff.mp hnew).2.2
  simp [accepts, hevent, hnew, hwanted]

theorem isWanted_of_accepts (h : w.accepts d e = true) :
    (e.created = true ∨ e.written = true) ∧ w.isWanted e.path = true := by
  simp only [accepts, Bool.and_eq_true, Bool.or_eq_true] at h
  exact ⟨h.1.1, h.2⟩

theorem handle_of_accepts (h : w.accepts d e = true) : w.handle d e = w.schedule e.path := by
  simp only [accepts, Bool.and_eq_true, Bool.not_eq_true'] at h
  obtain ⟨⟨hevent, hnew⟩, hwanted⟩ := h
  simp [handle, hevent, hnew, hwanted]

theorem handle_of_isNewDirectory (hnew : w.isNewDirectory d e = true) {e? : Option FileError}
    (hadd : w.addTree d e.path = (w', e?)) :
    ∃ log, w.handle d e = { w' with log := log } ∧ (e? = none → log = w'.log) := by
  simp only [handle, (isNewDirectory_iff.mp hnew).1, hnew, hadd, Bool.true_or, if_true]
  cases e? with
  | none => exact ⟨w'.log, rfl, fun _ => rfl⟩
  | some cause => exact ⟨_, rfl, nofun⟩

/-- What is gone is not watched, and nothing else changes but the log. -/
theorem exists_handle_of_isDeparture (h : e.isDeparture = true) :
    ∃ log, w.handle d e =
      { w with directories := w.directories.filter (· != e.path), log := log } := by
  simp only [DiskEvent.isDeparture, Bool.and_eq_true, Bool.not_eq_true'] at h
  obtain ⟨hevent, hgone⟩ := h
  simp only [handle, hevent, hgone, Bool.false_eq_true, if_false, if_true]
  split
  · exact ⟨_, rfl⟩
  · exact ⟨_, rfl⟩

theorem handle_of_ignored (hnew : w.isNewDirectory d e = false)
    (haccepts : w.accepts d e = false) (hgone : e.isDeparture = false) : w.handle d e = w := by
  cases hevent : e.created || e.written with
  | true =>
      have hwanted : w.isWanted e.path = false := by simpa [accepts, hevent, hnew] using haccepts
      simp [handle, hevent, hnew, hwanted]
  | false =>
      have hkept : (e.removed || e.renamed) = false := by
        simpa [DiskEvent.isDeparture, hevent] using hgone
      simp [handle, hevent, hkept]

/-- An event that makes no path wait changes only what is watched, and the log. -/
theorem exists_handle_of_not_accepts (h : w.accepts d e = false) :
    ∃ directories log, w.handle d e = { w with directories := directories, log := log } := by
  cases hnew : w.isNewDirectory d e with
  | true =>
      obtain ⟨directories, front, e?, hadd, -⟩ := exists_addTree w d e.path
      obtain ⟨log, hhandle, -⟩ := handle_of_isNewDirectory hnew hadd
      exact ⟨directories, log, hhandle⟩
  | false =>
      cases hgone : e.isDeparture with
      | true =>
          obtain ⟨log, hhandle⟩ := exists_handle_of_isDeparture (w := w) (d := d) hgone
          exact ⟨_, log, hhandle⟩
      | false => exact ⟨w.directories, w.log, handle_of_ignored hnew h hgone⟩

end Watcher

end DefinitionFiles
