import DefinitionFiles.Proofs.Disk.Walking
import DefinitionFiles.Proofs.Workspace
import Mathlib.Algebra.GroupWithZero.Nat
import Mathlib.Data.List.Induction

/-!
# Which files a workspace has

A workspace has the files that its roots name and the files with one of its extensions below the
directories that they name. Where no root has a link in its path, the list of files is determined by
the places of the roots: other spellings, another order, repetitions, and directories below others
change nothing, as long as every root can be walked.
-/

namespace DefinitionFiles.Workspace

open Disk

/-- Whether a root cannot be used: nothing is there, or it is a directory that cannot be walked. -/
def IsUnusable (d : Disk) (root : Bytes) : Prop :=
  (∃ e, d.stat root = .error e) ∨ d.stat root = .ok .directory ∧ ∃ e, d.walk root = .error e

/-- The absolute paths that the roots of a workspace stand for. -/
inductive Selects (w : Workspace) (d : Disk) : Bytes → Prop where
  /-- A root that is not a directory, whatever its extension. -/
  | root {root : Bytes} {inode : Inode} (hroot : root ∈ w.roots)
      (hstat : d.stat root = .ok inode) (hkind : inode ≠ .directory) :
      Selects w d (Path.absolute d.cwd root)
  /-- Something with one of the extensions at any depth below a root that is a directory. -/
  | below {root : Bytes} {names : List Bytes} {inode : Inode} (hroot : root ∈ w.roots)
      (hstat : d.stat root = .ok .directory)
      (hinode : d.inode? (d.named root ++ names) = some inode) (hkind : inode ≠ .directory)
      (hmatch : w.isMatch (Path.ofSegments true (d.named root ++ names)) = true) :
      Selects w d (Path.ofSegments true (d.named root ++ names))

/-- Whether each of some roots names the place of another root, or is a directory at or below a
directory that another root names. -/
def Covers (d : Disk) (roots others : List Bytes) : Prop :=
  ∀ root ∈ others, ∃ outer ∈ roots, d.named root = d.named outer ∨
    d.stat root = .ok .directory ∧ d.stat outer = .ok .directory ∧ d.named outer <+: d.named root

variable {w : Workspace} {d : Disk}

/-! ## Roots -/

theorem exists_rootFiles_iff {root : Bytes} :
    (∃ found, w.rootFiles d root = .ok found) ↔ ¬ IsUnusable d root := by
  unfold rootFiles IsUnusable
  cases d.stat root with
  | error e => simp
  | ok inode =>
      cases inode with
      | directory => cases d.walk root <;> simp
      | file | link => simp

theorem exists_files_iff :
    (∃ files, w.files d = .ok files) ↔ ∀ root ∈ w.roots, ¬ IsUnusable d root := by
  simp only [← exists_rootFiles_iff (w := w), ← exists_mapM_eq_ok_iff, files]
  cases w.roots.mapM (w.rootFiles d) with
  | error e => simp [bind, Except.bind]
  | ok found => simp [bind, Except.bind, pure, Except.pure]

theorem files_eq_ok_iff {files : List Bytes} :
    w.files d = .ok files ↔
      ∃ found, w.roots.mapM (w.rootFiles d) = .ok found ∧
        files = Bytes.sort (found.flatten.map (Path.absolute d.cwd)).eraseDups := by
  unfold Workspace.files
  cases w.roots.mapM (w.rootFiles d) with
  | error e => simp [bind, Except.bind]
  | ok found => simp [bind, Except.bind, pure, Except.pure, eq_comm]

theorem pairwise_files {files : List Bytes} (h : w.files d = .ok files) :
    files.Pairwise (· < ·) := by
  obtain ⟨found, -, rfl⟩ := files_eq_ok_iff.mp h
  exact Bytes.pairwise_lt_sort (Section.nodup_eraseDups _)

theorem mem_files_iff {files : List Bytes} (h : w.files d = .ok files) {path : Bytes} :
    path ∈ files ↔ ∃ root ∈ w.roots, ∃ found, w.rootFiles d root = .ok found ∧
      ∃ p ∈ found, Path.absolute d.cwd p = path := by
  obtain ⟨found, hfound, rfl⟩ := files_eq_ok_iff.mp h
  rw [Bytes.mem_sort, List.mem_eraseDups, List.mem_map]
  constructor
  · rintro ⟨p, hp, hpath⟩
    obtain ⟨root, hroot, part, hpart, hmem⟩ := (mem_flatten_of_mapM hfound).mp hp
    exact ⟨root, hroot, part, hpart, p, hmem, hpath⟩
  · rintro ⟨root, hroot, part, hpart, p, hmem, hpath⟩
    exact ⟨p, (mem_flatten_of_mapM hfound).mpr ⟨root, hroot, part, hpart, hmem⟩, hpath⟩

theorem files_eq_of_mem_iff {other : Workspace} {files : List Bytes} (h : w.files d = .ok files)
    (hother : ∀ root ∈ other.roots, ¬ IsUnusable d root)
    (hmem : ∀ others, other.files d = .ok others → ∀ path, path ∈ others ↔ path ∈ files) :
    other.files d = .ok files := by
  obtain ⟨others, hothers⟩ := exists_files_iff.mpr hother
  have hperm : others.Perm files :=
    (List.perm_ext_iff_of_nodup (nodup_files hothers) (nodup_files h)).mpr (hmem others hothers)
  have heq : others = files := by
    apply hperm.eq_of_pairwise _ (pairwise_files hothers) (pairwise_files h)
    intro a b _ _ hab hba
    exact absurd hba (List.lt_asymm hab)
  rw [hothers, heq]

theorem rootFiles_of_ne_directory {root : Bytes} {inode : Inode} (hstat : d.stat root = .ok inode)
    (hkind : inode ≠ .directory) : w.rootFiles d root = .ok [root] := by
  unfold rootFiles
  cases inode with
  | directory => exact absurd rfl hkind
  | file | link => rw [hstat]

/-! ## Roots that open -/

theorem isMatch_congr {p q : Bytes} (h : Path.ext p = Path.ext q) : w.isMatch p = w.isMatch q := by
  rw [isMatch, isMatch, h]

/-- Whether a path has one of the extensions is decided by its last name. -/
theorem isMatch_ofSegments {names : List Bytes} (hne : names ≠ [])
    (hnames : ∀ name ∈ names, Path.IsName name) (rooted other : Bool) (before behind : List Bytes) :
    w.isMatch (Path.ofSegments rooted (before ++ names)) =
      w.isMatch (Path.ofSegments other (behind ++ names)) := by
  apply isMatch_congr
  cases names using List.reverseRecOn with
  | nil => exact absurd rfl hne
  | append_singleton names name =>
      have hname := hnames name (by simp)
      rw [← List.append_assoc, ← List.append_assoc, Path.ext_ofSegments_concat _ _ hname,
        Path.ext_ofSegments_concat _ _ hname]

theorem isMatch_pathBelow {root : Bytes} (hroot : root ≠ []) {names : List Bytes} (hne : names ≠ [])
    (hnames : ∀ name ∈ names, Path.IsName name) (place : Place) :
    w.isMatch (pathBelow root names) = w.isMatch (Path.ofSegments true (place ++ names)) := by
  rw [pathBelow_eq hroot hne hnames]
  exact isMatch_ofSegments hne hnames _ _ _ _

theorem isMatch_concat_iff {place : Place} {name : Bytes} (hname : Path.IsName name) :
    w.isMatch (Path.ofSegments true (place ++ [name])) = true ↔
      ∃ suffix, Path.HasExt name suffix ∧ ∃ e ∈ w.extensions, sameFolded suffix e = true := by
  rw [isMatch, Path.ext_ofSegments_concat _ _ hname, List.any_eq_true]
  simp only [← Path.ext_eq_iff_hasExt hname.slash_notMem, exists_eq_left']

/-- What is no directory stands under some names below a directory. -/
theorem names_of_ne_directory (htree : d.IsTree) {place : Place}
    (hdirectory : d.isDirectory place = true) {names : List Bytes} {inode : Inode}
    (hinode : d.inode? (place ++ names) = some inode) (hkind : inode ≠ .directory) :
    names ≠ [] ∧ ∀ name ∈ names, Path.IsName name := by
  refine ⟨?_, fun name hname => ((htree.above hinode).2 name hname).toIsName⟩
  rintro rfl
  rw [List.append_nil, isDirectory_iff.mp hdirectory] at hinode
  exact hkind (Option.some.inj hinode).symm

theorem rootFiles_eq_ok_iff {root : Bytes} (hstat : d.stat root = .ok .directory)
    {found : List Bytes} :
    w.rootFiles d root = .ok found ↔
      ∃ met, d.walk root = .ok met ∧ found = met.filterMap fun (path, inode) =>
        if inode != .directory && w.isMatch path then some path else none := by
  unfold rootFiles
  rw [hstat]
  cases d.walk root with
  | error e => simp
  | ok met => simp only [Except.ok.injEq, exists_eq_left', eq_comm]

/-- Below a directory that a root opens, everything with one of the extensions is found that is not
a directory. -/
theorem mem_rootFiles_of_opens (htree : d.IsTree) {root : Bytes} {place : Place}
    (hopens : d.Opens root place) {found : List Bytes} (hfound : w.rootFiles d root = .ok found)
    {path : Bytes} :
    (∃ p ∈ found, Path.absolute d.cwd p = path) ↔
      ∃ names inode, d.inode? (place ++ names) = some inode ∧ inode ≠ .directory ∧
        w.isMatch (Path.ofSegments true (d.named root ++ names)) = true ∧
        path = Path.ofSegments true (d.named root ++ names) := by
  have hroot := hopens.root_ne_nil
  have hstat := stat_eq_directory_iff.mpr ⟨place, hopens.locate true, hopens.isDirectory⟩
  obtain ⟨met, hmet, rfl⟩ := (rootFiles_eq_ok_iff hstat).mp hfound
  constructor
  · rintro ⟨p, hp, rfl⟩
    obtain ⟨⟨q, inode⟩, hq, hselected⟩ := List.mem_filterMap.mp hp
    obtain ⟨names, hinode, rfl⟩ := (hopens.mem_walk htree hmet).mp hq
    simp only [Option.ite_none_right_eq_some, Bool.and_eq_true, bne_iff_ne, Option.some.injEq]
      at hselected
    obtain ⟨⟨hkind, hmatch⟩, rfl⟩ := hselected
    obtain ⟨hne, hnames⟩ := names_of_ne_directory htree hopens.isDirectory hinode hkind
    rw [isMatch_pathBelow hroot hne hnames (d.named root)] at hmatch
    exact ⟨names, inode, hinode, hkind, hmatch, htree.absolute_pathBelow hroot hnames⟩
  · rintro ⟨names, inode, hinode, hkind, hmatch, rfl⟩
    obtain ⟨hne, hnames⟩ := names_of_ne_directory htree hopens.isDirectory hinode hkind
    rw [← isMatch_pathBelow hroot hne hnames (d.named root)] at hmatch
    refine ⟨pathBelow root names, ?_, htree.absolute_pathBelow hroot hnames⟩
    refine List.mem_filterMap.mpr ⟨(pathBelow root names, inode), ?_, by simp [hkind, hmatch]⟩
    exact (hopens.mem_walk htree hmet).mpr ⟨names, hinode, rfl⟩

/-! ## Roots without links -/

section LinkFree

variable (htree : d.IsTree)

include htree

/-- Without links the files are those that the roots stand for. -/
theorem mem_files_iff_selects (hlink : ∀ root ∈ w.roots, d.IsLinkFree root) {files : List Bytes}
    (h : w.files d = .ok files) {path : Bytes} : path ∈ files ↔ w.Selects d path := by
  rw [mem_files_iff h]
  constructor
  · rintro ⟨root, hroot, found, hfound, hpath⟩
    cases hstat : d.stat root with
    | error e => simp [rootFiles, hstat] at hfound
    | ok inode =>
        by_cases hkind : inode = .directory
        · subst hkind
          have hopens := htree.opens_of_isLinkFree (hlink root hroot) hstat
          obtain ⟨names, inode, hinode, hkind, hmatch, rfl⟩ :=
            (mem_rootFiles_of_opens htree hopens hfound).mp hpath
          exact .below hroot hstat hinode hkind hmatch
        · rw [rootFiles_of_ne_directory hstat hkind] at hfound
          cases hfound
          obtain ⟨p, hp, rfl⟩ := hpath
          rw [List.mem_singleton.mp hp]
          exact .root hroot hstat hkind
  · intro hselects
    have husable : ∀ root ∈ w.roots, ∃ found, w.rootFiles d root = .ok found :=
      fun root hroot => exists_rootFiles_iff.mpr (exists_files_iff.mp ⟨files, h⟩ root hroot)
    cases hselects with
    | @root root inode hroot hstat hkind =>
        have hself := rootFiles_of_ne_directory (w := w) hstat hkind
        exact ⟨root, hroot, [root], hself, root, List.mem_singleton_self root, rfl⟩
    | @below root names inode hroot hstat hinode hkind hmatch =>
        obtain ⟨found, hfound⟩ := husable root hroot
        have hopens := htree.opens_of_isLinkFree (hlink root hroot) hstat
        exact ⟨root, hroot, found, hfound, (mem_rootFiles_of_opens htree hopens hfound).mpr
          ⟨names, inode, hinode, hkind, hmatch, rfl⟩⟩

theorem stat_of_isLinkFree {root : Bytes} (hlink : d.IsLinkFree root) {inode : Inode}
    (hstat : d.stat root = .ok inode) : d.inode? (d.named root) = some inode := by
  obtain ⟨place, hlocate, hinode⟩ := stat_eq_ok_iff.mp hstat
  rwa [← (htree.locate_of_isLinkFree hlink hlocate true).1]

/-- Roots that cover those of a workspace stand for all of its files. -/
theorem Selects.of_covers {other : Workspace} (hextensions : other.extensions = w.extensions)
    (hlink : ∀ root ∈ w.roots, d.IsLinkFree root)
    (hother : ∀ root ∈ other.roots, d.IsLinkFree root ∧ ∃ inode, d.stat root = .ok inode)
    (hcovers : Covers d other.roots w.roots) {path : Bytes} (h : w.Selects d path) :
    other.Selects d path := by
  have hmatch : other.isMatch = w.isMatch := by
    funext p
    rw [isMatch, isMatch, hextensions]
  -- What stands at the place of one root is found by every other root for that place.
  have hsame : ∀ {root twin inode}, root ∈ w.roots → twin ∈ other.roots →
      d.named root = d.named twin → d.stat root = .ok inode → d.stat twin = .ok inode := by
    intro root twin inode hroot htwin hnamed hstat
    obtain ⟨htwinLink, kind, hkind⟩ := hother twin htwin
    have hinode := stat_of_isLinkFree htree (hlink root hroot) hstat
    have htwinInode := stat_of_isLinkFree htree htwinLink hkind
    rw [hnamed, htwinInode] at hinode
    rw [hkind, Option.some.inj hinode]
  cases h with
  | @root root inode hroot hstat hkind =>
      obtain ⟨twin, htwin, hnamed | ⟨hdirectory, -, -⟩⟩ := hcovers root hroot
      · rw [← Path.ofSegments_cleanSegments_absolute htree.cwd_rooted root]
        change other.Selects d (Path.ofSegments true (d.named root))
        rw [hnamed, named, Path.ofSegments_cleanSegments_absolute htree.cwd_rooted]
        exact .root htwin (hsame hroot htwin hnamed hstat) hkind
      · rw [hstat] at hdirectory
        exact absurd (Except.ok.inj hdirectory) hkind
  | @below root names inode hroot hstat hinode hkind hselected =>
      rw [← hmatch] at hselected
      obtain ⟨outer, houter, hnamed | ⟨-, hdirectory, extra, hextra⟩⟩ := hcovers root hroot
      · have houterStat := hsame hroot houter hnamed hstat
        rw [hnamed] at hinode hselected ⊢
        exact .below houter houterStat hinode hkind hselected
      · -- The names that lead down to the inner directory are put in front of those below it.
        rw [← hextra, List.append_assoc] at hinode hselected ⊢
        exact .below houter hdirectory hinode hkind hselected

/-- Usable roots that cover each other stand for the same files. -/
theorem files_of_covers {roots : List Bytes} (hlink : ∀ root ∈ w.roots, d.IsLinkFree root)
    (hroots : ∀ root ∈ roots, d.IsLinkFree root) (husable : ∀ root ∈ roots, ¬ IsUnusable d root)
    (hcovers : Covers d roots w.roots) (hcovered : Covers d w.roots roots) {files : List Bytes}
    (h : w.files d = .ok files) : { w with roots := roots }.files d = .ok files := by
  have hstat : ∀ root, ¬ IsUnusable d root → ∃ inode, d.stat root = .ok inode := by
    intro root hroot
    cases hstat : d.stat root with
    | error e => exact absurd (.inl ⟨e, hstat⟩) hroot
    | ok inode => exact ⟨inode, rfl⟩
  have hold := exists_files_iff.mp ⟨files, h⟩
  apply files_eq_of_mem_iff h husable
  intro others hothers path
  rw [mem_files_iff_selects htree hroots hothers, mem_files_iff_selects htree hlink h]
  constructor
  · intro hselects
    refine hselects.of_covers htree ?_ hroots ?_ hcovered
    · rfl
    · exact fun root hroot => ⟨hlink root hroot, hstat root (hold root hroot)⟩
  · intro hselects
    refine hselects.of_covers htree ?_ hlink ?_ hcovers
    · rfl
    · exact fun root hroot => ⟨hroots root hroot, hstat root (husable root hroot)⟩

end LinkFree

/-! ## Other roots for the same files -/

/-- What the list of a workspace's files tells about the disk. -/
structure Selection (w : Workspace) (d : Disk) : Prop where
  /-- Files are listed unless a root cannot be used. On a disk without permissions and broken media
  there is no other reason. -/
  fails_iff : (∃ e, w.files d = .error e) ↔ ∃ root ∈ w.roots, IsUnusable d root
  /-- A directory can be walked unless a directory in it is met under a path that is too long. A disk
  knows neither permissions nor broken media, for which a walk could fail as well. -/
  walk_fails_iff : ∀ root ∈ w.roots, d.stat root = .ok .directory →
    ((∃ e, d.walk root = .error e) ↔
      ∃ names, d.isDirectory (d.named root ++ names) = true ∧
        maxPath < (pathBelow root names).length)
  ascending : ∀ files, w.files d = .ok files → files.Pairwise (· < ·)
  mem_iff : ∀ files, w.files d = .ok files → ∀ path, path ∈ files ↔ w.Selects d path
  /-- The extension is that of the last name, and letter case does not matter. -/
  isMatch_iff : ∀ place name, Path.IsName name →
    (w.isMatch (Path.ofSegments true (place ++ [name])) = true ↔
      ∃ suffix, Path.HasExt name suffix ∧ ∃ e ∈ w.extensions, sameFolded suffix e = true)
  /-- The order of the roots and repetitions do not matter. -/
  reordered : ∀ files roots, w.files d = .ok files → (∀ root, root ∈ roots ↔ root ∈ w.roots) →
    { w with roots := roots }.files d = .ok files
  /-- How the roots are spelled does not matter. -/
  respelled : ∀ files roots, w.files d = .ok files →
    (∀ root ∈ roots, d.IsLinkFree root ∧ ¬ IsUnusable d root) →
    roots.map (Path.absolute d.cwd) = w.roots.map (Path.absolute d.cwd) →
    { w with roots := roots }.files d = .ok files
  /-- A directory at or below a root adds nothing. -/
  extended : ∀ files roots outer directory, w.files d = .ok files →
    outer ∈ w.roots → d.stat outer = .ok .directory →
    d.stat directory = .ok .directory → d.named outer <+: d.named directory →
    d.IsLinkFree directory → ¬ IsUnusable d directory →
    (∀ root, root ∈ roots ↔ root = directory ∨ root ∈ w.roots) →
    { w with roots := roots }.files d = .ok files

theorem Covers.of_subset {roots others : List Bytes} (h : ∀ root ∈ others, root ∈ roots) :
    Covers d roots others :=
  fun root hroot => ⟨root, h root hroot, .inl rfl⟩

theorem Covers.of_map_absolute {roots others : List Bytes}
    (h : others.map (Path.absolute d.cwd) = roots.map (Path.absolute d.cwd)) :
    Covers d roots others := by
  intro root hroot
  have hmem : Path.absolute d.cwd root ∈ roots.map (Path.absolute d.cwd) := by
    rw [← h]
    exact List.mem_map_of_mem hroot
  obtain ⟨outer, houter, habsolute⟩ := List.mem_map.mp hmem
  exact ⟨outer, houter, .inl (by rw [named, named, habsolute])⟩

theorem selection_of_isLinkFree (htree : d.IsTree) (hlink : ∀ root ∈ w.roots, d.IsLinkFree root) :
    Selection w d where
  fails_iff := by
    rw [exists_error_iff, exists_files_iff]
    simp only [not_forall, not_not, exists_prop]
  walk_fails_iff root hroot hstat :=
    (htree.opens_of_isLinkFree (hlink root hroot) hstat).walk_eq_error_iff htree
  ascending _ h := pairwise_files h
  mem_iff _ h _ := mem_files_iff_selects htree hlink h
  isMatch_iff _ _ hname := isMatch_concat_iff hname
  reordered files roots h hroots := by
    have husable := exists_files_iff.mp ⟨files, h⟩
    refine files_of_covers htree hlink ?_ ?_ ?_ ?_ h
    · exact fun root hroot => hlink root ((hroots root).mp hroot)
    · exact fun root hroot => husable root ((hroots root).mp hroot)
    · exact .of_subset fun root hroot => (hroots root).mpr hroot
    · exact .of_subset fun root hroot => (hroots root).mp hroot
  respelled files roots h hroots habsolute := by
    refine files_of_covers htree hlink ?_ ?_ ?_ ?_ h
    · exact fun root hroot => (hroots root hroot).1
    · exact fun root hroot => (hroots root hroot).2
    · exact .of_map_absolute habsolute.symm
    · exact .of_map_absolute habsolute
  extended files roots outer directory h houter houterStat hstat hbelow hfree hwalk hroots := by
    have husable := exists_files_iff.mp ⟨files, h⟩
    refine files_of_covers htree hlink ?_ ?_ ?_ ?_ h
    · intro root hroot
      rcases (hroots root).mp hroot with rfl | hold
      · exact hfree
      · exact hlink root hold
    · intro root hroot
      rcases (hroots root).mp hroot with rfl | hold
      · exact hwalk
      · exact husable root hold
    · exact .of_subset fun root hroot => (hroots root).mpr (.inr hroot)
    · intro root hroot
      rcases (hroots root).mp hroot with rfl | hold
      · exact ⟨outer, houter, .inr ⟨hstat, houterStat, hbelow⟩⟩
      · exact ⟨root, hold, .inl rfl⟩

/-- A tree with a link in it, seen from the directory `/t`. -/
def grove : Disk where
  inodes := [
    ([utf8 "t"], .directory),
    ([utf8 "t", utf8 "n.txt"], .file []),
    ([utf8 "t", utf8 "a"], .directory),
    ([utf8 "t", utf8 "a", utf8 "x.dfn"], .file []),
    ([utf8 "t", utf8 "a", utf8 "b"], .directory),
    ([utf8 "t", utf8 "a", utf8 "b", utf8 "y.DFN"], .file []),
    ([utf8 "t", utf8 "a", utf8 "b", utf8 "l.dfn"], .link (utf8 "nowhere"))]
  cwd := utf8 "/t"

/-- Roots that overlap: a directory on a detour, a file with another extension, and a directory in
the first one. -/
def overlapping : Workspace where
  roots := [utf8 ".//a/../a", utf8 "n.txt", utf8 "a/b/"]

theorem selection_overlapping :
    grove.IsTree ∧ (∀ root ∈ overlapping.roots, grove.IsLinkFree root) ∧
      overlapping.files grove =
        .ok [utf8 "/t/a/b/l.dfn", utf8 "/t/a/b/y.DFN", utf8 "/t/a/x.dfn", utf8 "/t/n.txt"] ∧
      Selection overlapping grove := by
  have htree : grove.IsTree := by decide +kernel
  have hlink : ∀ root ∈ overlapping.roots, grove.IsLinkFree root := by decide +kernel
  exact ⟨htree, hlink, by decide +kernel, selection_of_isLinkFree htree hlink⟩

/-! ## Spellings that are too long

A path that starts with `..` can be short enough itself and too long in front of the names of what
is below the directory it leads to: cleaning takes none of the `..` away. -/

theorem length_join {sep : UInt8} {pieces : List Bytes} (hne : pieces ≠ []) :
    (Bytes.join [sep] pieces).length + 1 = (pieces.map fun piece => piece.length + 1).sum := by
  induction pieces with
  | nil => exact absurd rfl hne
  | cons piece rest ih =>
      cases rest with
      | nil => simp [Bytes.join]
      | cons next rest =>
          rw [List.map_cons, List.sum_cons, ← ih (List.cons_ne_nil _ _),
            Bytes.join_cons piece (List.cons_ne_nil _ _), List.length_append, List.length_cons]
          omega

/-- The relative path that goes up a number of times and then down to the given names. -/
def climbing (times : Nat) (names : List Bytes) : Bytes :=
  Path.ofSegments false (List.replicate times Path.dotdot ++ names)

section Climbing

variable {times : Nat} {names : List Bytes}

theorem isNormal_climbing (hnames : ∀ name ∈ names, Path.IsName name) :
    Path.IsNormal false (List.replicate times Path.dotdot ++ names).reverse := by
  rw [List.reverse_append, List.reverse_replicate]
  have hups : Path.IsNormal false (List.replicate times Path.dotdot) := by
    induction times with
    | zero => exact Path.isNormal_nil false
    | succ times ih =>
        rw [List.replicate_succ]
        exact ⟨.inr ⟨rfl, rfl, fun _ => List.eq_of_mem_replicate⟩, ih⟩
  induction names using List.reverseRecOn with
  | nil => exact hups
  | append_singleton names name ih =>
      rw [List.reverse_append]
      exact ⟨.inl (hnames name (by simp)), ih fun other hother => hnames other (by simp [hother])⟩

theorem cleanSegments_climbing (hnames : ∀ name ∈ names, Path.IsName name) :
    Path.cleanSegments (climbing times names) = List.replicate times Path.dotdot ++ names :=
  Path.cleanSegments_ofSegments_of_isNormal (isNormal_climbing hnames)

theorem isRooted_climbing (hnames : ∀ name ∈ names, Path.IsName name) :
    Path.isRooted (climbing times names) = false :=
  Path.isRooted_ofSegments_of_isNormal (isNormal_climbing hnames)

theorem length_climbing (hne : names ≠ []) :
    (climbing times names).length + 1 =
      3 * times + (names.map fun name => name.length + 1).sum := by
  have hsegments : List.replicate times Path.dotdot ++ names ≠ [] := by simp [hne]
  rw [climbing, Path.ofSegments, if_neg Bool.false_ne_true, if_neg hsegments,
    length_join hsegments, List.map_append, List.map_replicate, List.sum_append,
    List.sum_replicate_nat, Nat.mul_comm]
  rfl

theorem pathBelow_climbing (hroot : climbing times names ≠ []) {more : List Bytes}
    (hnames : ∀ name ∈ names ++ more, Path.IsName name) :
    pathBelow (climbing times names) more = climbing times (names ++ more) := by
  obtain ⟨hbefore, hafter⟩ := List.forall_mem_append.mp hnames
  by_cases hmore : more = []
  · rw [hmore, pathBelow_nil, List.append_nil]
  · rw [pathBelow_eq hroot hmore hafter, isRooted_climbing hbefore, cleanSegments_climbing hbefore,
      List.append_assoc, climbing]

/-- Going up often enough leads to the top, wherever one starts. -/
theorem foldl_descend_climbing {here : Place} (h : here.length ≤ times)
    (hnames : ∀ name ∈ names, Path.IsName name) :
    (List.replicate times Path.dotdot ++ names).foldl Path.descend here = names := by
  rw [List.foldl_append]
  have htop : (List.replicate times Path.dotdot).foldl Path.descend here = [] := by
    induction times generalizing here with
    | zero => exact List.eq_nil_of_length_eq_zero (Nat.le_zero.mp h)
    | succ times ih =>
        rw [List.replicate_succ, List.foldl_cons, Path.descend_dotdot]
        apply ih
        rw [List.length_dropLast]
        omega
  rw [htop, Path.foldl_descend_of_isName hnames, List.nil_append]

variable (htree : d.IsTree) (htimes : (Path.cleanSegments d.cwd).length ≤ times)

include htree htimes

theorem named_climbing (hnames : ∀ name ∈ names, Path.IsName name) :
    d.named (climbing times names) = names := by
  rw [htree.named_eq, origin, isRooted_climbing hnames, if_neg Bool.false_ne_true,
    ← Path.foldl_descend_cleanSegments (by simp [isRooted_climbing hnames]),
    cleanSegments_climbing hnames, foldl_descend_climbing htimes hnames]

theorem stat_climbing (hne : names ≠ []) (hdirectory : d.isDirectory names = true)
    (hshort : (climbing times names).length ≤ maxPath) :
    d.stat (climbing times names) = .ok .directory := by
  have hentries := htree.isEntryName_of_mem (isDirectory_iff.mp hdirectory)
  have hnames := htree.isName_of_mem (isDirectory_iff.mp hdirectory)
  have hnamed := named_climbing htree htimes hnames
  have hleads := htree.leads_cleanSegments (by rwa [hnamed]) maxLinks
  rw [hnamed, cleanSegments_climbing hnames] at hleads
  refine stat_eq_directory_iff.mpr ⟨names, ?_, hdirectory⟩
  refine hleads.locate_ofSegments htree (by simp [hne]) (isNormal_climbing hnames) ?_ hshort
  intro segment hsegment
  rcases List.mem_append.mp hsegment with hup | hname
  · rw [List.eq_of_mem_replicate hup]
    decide
  · exact (hentries segment hname).nul_notMem

end Climbing

/-- A directory `/a` with a file and a directory in it. -/
def thicket : Disk where
  inodes := [
    ([utf8 "a"], .directory),
    ([utf8 "a", utf8 "x.dfn"], .file []),
    ([utf8 "a", utf8 "bb"], .directory)]

/-- The directory `/a` has a spelling that leads to it but cannot be walked by. -/
theorem exists_files_error_of_climbing :
    thicket.IsTree ∧ (∀ root, thicket.IsLinkFree root) ∧
      Path.absolute thicket.cwd (climbing 1364 [utf8 "a"]) = Path.absolute thicket.cwd (utf8 "a") ∧
      thicket.stat (climbing 1364 [utf8 "a"]) = .ok .directory ∧
      { roots := [utf8 "a"] : Workspace }.files thicket = .ok [utf8 "/a/x.dfn"] ∧
      ∃ e, { roots := [climbing 1364 [utf8 "a"]] : Workspace }.files thicket = .error e := by
  have htree : thicket.IsTree := by decide +kernel
  have hlink : ∀ root, thicket.IsLinkFree root := isLinkFree_of_forall (by decide)
  have hdirectory : thicket.isDirectory [utf8 "a"] = true := by decide
  have hnames := htree.isName_of_mem (isDirectory_iff.mp hdirectory)
  have hnamed := named_climbing htree (Nat.zero_le 1364) hnames
  have hlength : (climbing 1364 [utf8 "a"]).length + 1 = 4094 :=
    length_climbing (List.cons_ne_nil _ _)
  have hstat := stat_climbing htree (Nat.zero_le 1364) (List.cons_ne_nil _ _) hdirectory
    (by change _ ≤ 4095; omega)
  refine ⟨htree, hlink, ?_, hstat, by decide +kernel, ?_⟩
  · rw [← Path.ofSegments_cleanSegments_absolute htree.cwd_rooted]
    exact congrArg (Path.ofSegments true) hnamed
  · have hopens := htree.opens_of_isLinkFree (hlink _) hstat
    have hbelow : thicket.isDirectory [utf8 "a", utf8 "bb"] = true := by decide
    have hwalk : ∃ e, thicket.walk (climbing 1364 [utf8 "a"]) = .error e := by
      rw [hopens.walk_eq_error_iff htree, hnamed]
      refine ⟨[utf8 "bb"], hbelow, ?_⟩
      rw [pathBelow_climbing hopens.root_ne_nil (htree.isName_of_mem (isDirectory_iff.mp hbelow))]
      have hlong : (climbing 1364 [utf8 "a", utf8 "bb"]).length + 1 = 4097 :=
        length_climbing (List.cons_ne_nil _ _)
      change 4095 < (climbing 1364 [utf8 "a", utf8 "bb"]).length
      omega
    rw [exists_error_iff, exists_files_iff]
    exact fun husable => husable _ (List.mem_singleton_self _) (.inr ⟨hstat, hwalk⟩)

end DefinitionFiles.Workspace
