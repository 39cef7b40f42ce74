import DefinitionFiles.Proofs.Watcher
import Mathlib.Data.List.Induction

/-!
# Directories that come and go

A new directory is watched with all those below it, unless the way through them ends early or the
system refuses to watch one of them. The files that came with it are wanted from then on, but none
of them is examined before an event of its own tells of it. A directory that is gone is forgotten
alone: one below it that was moved away with it counts as watched until an event tells that it is
gone as well, and is not watched anew when it comes back.
-/

namespace DefinitionFiles.Watcher

open Disk

/-- Whether something with one of the extensions stands at a place that is no directory. -/
def IsDefinitionFile (w : Watcher) (d : Disk) (place : Place) : Prop :=
  ∃ inode, d.inode? place = some inode ∧ inode ≠ .directory ∧
    w.workspace.isMatch (Path.ofSegments true place) = true

/-- Whether a path is that of a place or of something below it. -/
def IsWithin (place : Place) (path : Bytes) : Prop :=
  ∃ names, (∀ name ∈ names, Path.IsName name) ∧ path = Path.ofSegments true (place ++ names)

/-- Whether a path is watched anew. -/
def Registers (w w' : Watcher) (path : Bytes) : Prop :=
  path ∉ w.directories ∧ path ∈ w'.directories

/-- Handles one event after the other, each on the disk as it was then. -/
def handleAll (w : Watcher) (history : List (Disk × DiskEvent)) : Watcher :=
  history.foldl (fun w happening => w.handle happening.1 happening.2) w

/-- What becomes of a new directory at a place. -/
structure Adopts (w : Watcher) (d : Disk) (e : DiskEvent) (place : Place) : Prop where
  /-- No file that came with the directory waits. -/
  pending_eq : (w.handle d e).pending = w.pending
  results_eq : (w.handle d e).results = w.results
  /-- Whatever goes wrong on the way, what was watched stays so. -/
  subset_directories : w.directories ⊆ (w.handle d e).directories
  /-- Whatever goes wrong on the way, nothing else is watched anew. -/
  exists_of_registers : ∀ path, Registers w (w.handle d e) path →
    ∃ names, d.isDirectory (place ++ names) = true ∧ path = Path.ofSegments true (place ++ names)
  mem_directories_iff : d.IsWatchable place → ∀ path, path ∈ (w.handle d e).directories ↔
    path ∈ w.directories ∨ ∃ names, d.isDirectory (place ++ names) = true ∧
      path = Path.ofSegments true (place ++ names)
  isWanted : d.IsWatchable place → ∀ names, w.IsDefinitionFile d (place ++ names) →
    (w.handle d e).isWanted (Path.ofSegments true (place ++ names)) = true
  /-- A file that came with the directory waits once an event tells of the file itself. -/
  mem_pending : d.IsWatchable place → ∀ names, w.IsDefinitionFile d (place ++ names) →
    ∀ later event, event.path = Path.ofSegments true (place ++ names) →
      event.created = true ∨ event.written = true → later.stat event.path ≠ .ok .directory →
      event.path ∈ ((w.handle d e).handle later event).pending

/-- What is left of the tree at a place after some paths were reported gone. -/
structure Forgets (w : Watcher) (history : List (Disk × DiskEvent)) (place : Place) : Prop where
  mem_directories_iff : ∀ path, path ∈ (w.handleAll history).directories ↔
    path ∈ w.directories ∧ ∀ happening ∈ history, happening.2.path ≠ path
  /-- Nothing at or below the place is watched if every directory there that was watched has been
  reported itself. -/
  cleared_iff : (∀ path, IsWithin place path → path ∉ (w.handleAll history).directories) ↔
    ∀ path, IsWithin place path → path ∈ w.directories →
      ∃ happening ∈ history, happening.2.path = path
  isWanted_iff : ∀ names name, (∀ other ∈ place ++ names ++ [name], Path.IsName other) →
    ((w.handleAll history).isWanted (Path.ofSegments true (place ++ names ++ [name])) = true ↔
      Path.ofSegments true (place ++ names ++ [name]) ∈ w.files ∨
        w.isWanted (Path.ofSegments true (place ++ names ++ [name])) = true ∧
          ∀ happening ∈ history, happening.2.path ≠ Path.ofSegments true (place ++ names))
  /-- Of a directory that comes to the place, those at and below it are watched anew that were not
  watched before or have been reported themselves. -/
  registers_iff : ∀ d e, d.IsTree → d.isDirectory place = true → d.IsWatchable place →
    (w.handleAll history).isNewDirectory d e = true → e.path = Path.ofSegments true place →
    ∀ path, Registers (w.handleAll history) ((w.handleAll history).handle d e) path ↔
      (∃ names, d.isDirectory (place ++ names) = true ∧
          path = Path.ofSegments true (place ++ names)) ∧
        (path ∈ w.directories → ∃ happening ∈ history, happening.2.path = path)

variable {w : Watcher} {d : Disk} {e : DiskEvent} {place : Place}

/-! ## New directories -/

section New

variable (htree : d.IsTree) (hdirectory : d.isDirectory place = true)

include htree hdirectory

/-- A new directory is watched with what was met below it before anything went wrong. -/
theorem exists_handle_of_isNewDirectory (hnew : w.isNewDirectory d e = true)
    (hpath : e.path = Path.ofSegments true place) :
    ∃ directories log, w.handle d e = { w with directories := directories, log := log } ∧
      w.directories ⊆ directories ∧ ∀ path ∈ directories, path ∈ w.directories ∨
        ∃ names, d.isDirectory (place ++ names) = true ∧
          path = Path.ofSegments true (place ++ names) := by
  obtain ⟨directories, front, e?, hadd, hmem, hattempt⟩ := exists_addTree w d e.path
  obtain ⟨log, hhandle, -⟩ := handle_of_isNewDirectory hnew hadd
  obtain ⟨found, hlocate, -⟩ := stat_eq_ok_iff.mp (isNewDirectory_iff.mp hnew).2.2
  have hshort := (resolve_of_locate hlocate).2.2.1
  rw [hpath] at hshort hattempt
  refine ⟨directories, log, hhandle, fun path hold => (hmem path).mpr (.inl hold), ?_⟩
  intro path hwatched
  refine ((hmem path).mp hwatched).imp_right fun hmet => ?_
  exact htree.exists_of_directory_mem_tour hdirectory hshort (hattempt.isPrefix.subset hmet)

theorem exists_handle_of_isWatchable (hnew : w.isNewDirectory d e = true)
    (hpath : e.path = Path.ofSegments true place) (hwatchable : d.IsWatchable place) :
    ∃ directories, w.handle d e = { w with directories := directories } ∧
      ∀ path, path ∈ directories ↔ path ∈ w.directories ∨
        ∃ names, d.isDirectory (place ++ names) = true ∧
          path = Path.ofSegments true (place ++ names) := by
  obtain ⟨found, hwalk⟩ :=
    (htree.exists_walk_iff_isWalkable hdirectory).mpr hwatchable.isWalkable
  have hmet : ∀ path, (path, .directory) ∈ found ↔
      ∃ names, d.isDirectory (place ++ names) = true ∧
        path = Path.ofSegments true (place ++ names) :=
    fun path => htree.directory_mem_walk_iff hdirectory hwalk
  have hwatch : ∀ path, (path, .directory) ∈ found → d.watchError? path = none := by
    intro path hpath
    obtain ⟨names, hnames, rfl⟩ := (hmet path).mp hpath
    exact htree.watchError?_eq_none hwatchable hnames
  obtain ⟨directories, hadd, hmem⟩ := addTree_of_ok (w := w) hwalk hwatch
  rw [← hpath] at hadd
  obtain ⟨log, hhandle, hlog⟩ := handle_of_isNewDirectory hnew hadd
  obtain rfl := hlog rfl
  refine ⟨directories, hhandle, fun path => ?_⟩
  rw [hmem, hmet]

/-- Below a place whose directories are all watched, every definition file is wanted. -/
theorem isWanted_of_mem_directories
    (hwatched : ∀ names, d.isDirectory (place ++ names) = true →
      Path.ofSegments true (place ++ names) ∈ w.directories)
    {names : List Bytes} (hfile : w.IsDefinitionFile d (place ++ names)) :
    w.isWanted (Path.ofSegments true (place ++ names)) = true := by
  obtain ⟨inode, hinode, hkind, hmatch⟩ := hfile
  have hnames := htree.isName_of_mem hinode
  cases names using List.reverseRecOn with
  | nil =>
      rw [List.append_nil, isDirectory_iff.mp hdirectory] at hinode
      exact absurd (Option.some.inj hinode).symm hkind
  | append_singleton front last =>
      rw [← List.append_assoc] at hinode hnames hmatch ⊢
      rw [isWanted_ofSegments_iff hnames]
      exact .inr ⟨hwatched front (htree.isDirectory_of_concat hinode).1, hmatch⟩

theorem isWanted_handle_of_isNewDirectory (hnew : w.isNewDirectory d e = true)
    (hpath : e.path = Path.ofSegments true place) (hwatchable : d.IsWatchable place)
    {names : List Bytes} (hfile : w.IsDefinitionFile d (place ++ names)) :
    (w.handle d e).isWanted (Path.ofSegments true (place ++ names)) = true := by
  obtain ⟨directories, hhandle, hmem⟩ :=
    exists_handle_of_isWatchable htree hdirectory hnew hpath hwatchable
  rw [hhandle]
  refine isWanted_of_mem_directories htree hdirectory (fun names hnames => ?_) hfile
  exact (hmem _).mpr (.inr ⟨names, hnames, rfl⟩)

/-- A directory that comes to a place in a watched directory is adopted: it is watched with what is
below it, but no file that came with it waits until an event tells of the file itself. -/
theorem adopts_of_created (hpath : e.path = Path.ofSegments true place)
    (hcreated : e.created = true) (hparent : Path.dir e.path ∈ w.directories)
    (hstat : d.stat e.path = .ok .directory) : Adopts w d e place := by
  have hnew := isNewDirectory_iff.mpr ⟨hcreated, hparent, hstat⟩
  obtain ⟨directories, log, hhandle, hsubset, hmem⟩ :=
    exists_handle_of_isNewDirectory htree hdirectory hnew hpath
  have hwanted : d.IsWatchable place → ∀ names, w.IsDefinitionFile d (place ++ names) →
      (w.handle d e).isWanted (Path.ofSegments true (place ++ names)) = true :=
    fun hwatchable names hfile =>
      isWanted_handle_of_isNewDirectory htree hdirectory hnew hpath hwatchable hfile
  refine ⟨by rw [hhandle], by rw [hhandle], by rwa [hhandle], fun path hregisters => ?_,
    fun hwatchable => ?_, hwanted, fun hwatchable names hfile later event hevent hkind hstat => ?_⟩
  · rw [Registers, hhandle] at hregisters
    exact (hmem path hregisters.2).resolve_left hregisters.1
  · obtain ⟨watched, hadopted, hmem⟩ :=
      exists_handle_of_isWatchable htree hdirectory hnew hpath hwatchable
    rw [hadopted]
    exact hmem
  · have hfound := hwanted hwatchable names hfile
    rw [← hevent] at hfound
    rw [handle_of_accepts (accepts_of_isWanted hkind hstat hfound)]
    simp [schedule]

end New

/-- A disk before the directory `/t/npc` came, and after it. -/
def meadow : Disk where
  inodes := [([utf8 "t"], .directory)]

@[inherit_doc meadow]
def settled : Disk where
  inodes := [
    ([utf8 "t"], .directory),
    ([utf8 "t", utf8 "npc"], .directory),
    ([utf8 "t", utf8 "npc", utf8 "guard.dfn"], .file []),
    ([utf8 "t", utf8 "npc", utf8 "city"], .directory),
    ([utf8 "t", utf8 "npc", utf8 "city", utf8 "smith.dfn"], .file [])]

/-- The watcher of `/t`, started on a disk. -/
def started (d : Disk) : Watcher :=
  (({ workspace := { roots := [utf8 "/t"] } } : Watcher).start d).1

theorem adopts_settled :
    settled.IsTree ∧ settled.isDirectory [utf8 "t", utf8 "npc"] = true ∧
      settled.IsWatchable [utf8 "t", utf8 "npc"] ∧
      ((started meadow).handle settled { path := utf8 "/t/npc", created := true }).directories =
        [utf8 "/t", utf8 "/t/npc", utf8 "/t/npc/city"] ∧
      Adopts (started meadow) settled { path := utf8 "/t/npc", created := true }
        [utf8 "t", utf8 "npc"] := by
  have htree : settled.IsTree := by decide +kernel
  have hdirectory : settled.isDirectory [utf8 "t", utf8 "npc"] = true := by decide
  have hwatchable : settled.IsWatchable [utf8 "t", utf8 "npc"] :=
    ⟨(htree.exists_walk_iff_isWalkable hdirectory).mp ⟨_, by with_unfolding_all rfl⟩,
      fun _ _ => rfl⟩
  have hdirectories : (started meadow).directories = [utf8 "/t"] := by decide +kernel
  have hparent : Path.dir (utf8 "/t/npc") = utf8 "/t" := by decide +kernel
  refine ⟨htree, hdirectory, hwatchable, by decide +kernel, ?_⟩
  exact adopts_of_created htree hdirectory (by decide) rfl (by simp [hdirectories, hparent])
    (by decide +kernel)

/-- A file that came with the directory, two directories deep, does not wait. -/
theorem pending_settled :
    (started meadow).isNewDirectory settled { path := utf8 "/t/npc", created := true } = true ∧
      (started meadow).IsDefinitionFile settled
        [utf8 "t", utf8 "npc", utf8 "city", utf8 "smith.dfn"] ∧
      ((started meadow).handle settled { path := utf8 "/t/npc", created := true }).pending =
        [] := by
  refine ⟨by decide +kernel, ⟨.file [], by decide, by decide, ?_⟩, ?_⟩ <;> decide +kernel

/-! ## Directories that are gone -/

theorem directories_handle_of_isDeparture (h : e.isDeparture = true) :
    (w.handle d e).directories = w.directories.filter (· != e.path) := by
  obtain ⟨log, hhandle⟩ := exists_handle_of_isDeparture (w := w) (d := d) h
  rw [hhandle]

/-- Of what was watched, exactly what has been reported is not watched any more. -/
theorem exists_handleAll_of_departures {history : List (Disk × DiskEvent)}
    (h : ∀ happening ∈ history, happening.2.isDeparture = true) :
    ∃ directories log,
      w.handleAll history = { w with directories := directories, log := log } ∧
        ∀ path, path ∈ directories ↔
          path ∈ w.directories ∧ ∀ happening ∈ history, happening.2.path ≠ path := by
  induction history generalizing w with
  | nil => exact ⟨w.directories, w.log, rfl, by simp⟩
  | cons happening rest ih =>
      obtain ⟨hfirst, hrest⟩ := List.forall_mem_cons.mp h
      obtain ⟨log, hhandle⟩ := exists_handle_of_isDeparture (w := w) (d := happening.1) hfirst
      obtain ⟨directories, log', hall, hmem⟩ := ih (w := w.handle happening.1 happening.2) hrest
      refine ⟨directories, log', ?_, fun path => ?_⟩
      · change (w.handle happening.1 happening.2).handleAll rest = _
        rw [hall, hhandle]
      · rw [hmem, hhandle]
        simp only [List.mem_filter, bne_iff_ne, List.forall_mem_cons]
        grind

/-- Paths that are reported gone are forgotten, and they alone. -/
theorem forgets_of_departures {history : List (Disk × DiskEvent)}
    (h : ∀ happening ∈ history, happening.2.isDeparture = true) : Forgets w history place := by
  obtain ⟨directories, log, hall, hmem⟩ := exists_handleAll_of_departures (w := w) h
  have hleft : ∀ path, path ∈ (w.handleAll history).directories ↔
      path ∈ w.directories ∧ ∀ happening ∈ history, happening.2.path ≠ path := by
    rw [hall]
    exact hmem
  refine ⟨hleft, ?_, ?_, ?_⟩
  · simp only [hleft, not_and, not_forall, not_not, exists_prop]
  · intro names name hnames
    rw [isWanted_ofSegments_iff hnames, isWanted_ofSegments_iff hnames, hleft, hall]
    grind
  · intro d e htree hdirectory hwatchable hnew hpath path
    obtain ⟨watched, hhandle, hwatched⟩ :=
      exists_handle_of_isWatchable htree hdirectory hnew hpath hwatchable
    rw [Registers, hhandle, hwatched, hleft]
    grind

/-- The directory `/t/npc` and the one in it, each reported to have been moved away. -/
def emptied : List (Disk × DiskEvent) :=
  [(meadow, { path := utf8 "/t/npc/city", renamed := true }),
    (meadow, { path := utf8 "/t/npc", renamed := true })]

theorem directories_started_settled :
    (started settled).directories = [utf8 "/t", utf8 "/t/npc", utf8 "/t/npc/city"] := by
  decide +kernel

theorem forgets_emptied :
    (∀ happening ∈ emptied, happening.2.isDeparture = true) ∧
      (started settled).directories = [utf8 "/t", utf8 "/t/npc", utf8 "/t/npc/city"] ∧
      ((started settled).handleAll emptied).directories = [utf8 "/t"] ∧
      Forgets (started settled) emptied [utf8 "t", utf8 "npc"] := by
  have hgone : ∀ happening ∈ emptied, happening.2.isDeparture = true := by decide
  refine ⟨hgone, directories_started_settled, ?_, forgets_of_departures hgone⟩
  simp only [emptied, List.forall_mem_cons] at hgone
  simp only [emptied, handleAll, List.foldl_cons, List.foldl_nil,
    directories_handle_of_isDeparture hgone.1, directories_handle_of_isDeparture hgone.2.1,
    directories_started_settled]
  decide

/-- If only the directory `/t/npc` is reported, the one in it counts as watched, what is in there is
wanted, and it is not watched anew when both directories come back. -/
theorem not_registers_settled :
    DiskEvent.isDeparture { path := utf8 "/t/npc", renamed := true } = true ∧
      utf8 "/t/npc" ∈ (started settled).directories ∧
      ((started settled).handle meadow { path := utf8 "/t/npc", renamed := true }).directories =
        [utf8 "/t", utf8 "/t/npc/city"] ∧
      ((started settled).handle meadow { path := utf8 "/t/npc", renamed := true }).files = [] ∧
      ((started settled).handle meadow { path := utf8 "/t/npc", renamed := true }).isWanted
        (utf8 "/t/npc/city/smith.dfn") = true ∧
      ¬ Registers ((started settled).handle meadow { path := utf8 "/t/npc", renamed := true })
        (((started settled).handle meadow { path := utf8 "/t/npc", renamed := true }).handle settled
          { path := utf8 "/t/npc", created := true })
        (utf8 "/t/npc/city") := by
  have hgone : DiskEvent.isDeparture { path := utf8 "/t/npc", renamed := true } = true := by decide
  obtain ⟨log, hhandle⟩ := exists_handle_of_isDeparture (w := started settled) (d := meadow) hgone
  have hleft : ((started settled).handle meadow
      { path := utf8 "/t/npc", renamed := true }).directories =
        [utf8 "/t", utf8 "/t/npc/city"] := by
    rw [directories_handle_of_isDeparture hgone, directories_started_settled]
    decide
  have hfiles : (started settled).files = [] := by decide +kernel
  have hdir : Path.dir (utf8 "/t/npc/city/smith.dfn") = utf8 "/t/npc/city" := by decide +kernel
  have hmatch : (started settled).workspace.isMatch (utf8 "/t/npc/city/smith.dfn") = true := by
    decide +kernel
  refine ⟨hgone, by simp [directories_started_settled], hleft, ?_, ?_, fun hregisters => ?_⟩
  · rw [hhandle]
    exact hfiles
  · rw [isWanted_iff, hdir, hleft, hhandle]
    exact .inr ⟨by simp, hmatch⟩
  · exact hregisters.1 (by simp [hleft])

end DefinitionFiles.Watcher
