import DefinitionFiles.Proofs.Workspace.Selection

/-!
# Roots that are links

Whether a root is a directory is decided behind links, and a walk does not follow them. A root that
is itself a link to a directory is therefore met as a link, and nothing of the directory is found. A
root that is no link, and leads to the same directory when it is cleaned, finds everything in the
directory that has one of the extensions: what is found depends on the directory, not on the root.
-/

namespace DefinitionFiles.Workspace

open Disk

/-- The workspace with one root only. -/
def only (w : Workspace) (root : Bytes) : Workspace :=
  { w with roots := [root] }

/-- Whether names lead to something with one of the extensions in the tree at a place. -/
def Holds (w : Workspace) (d : Disk) (place : Place) (names : List Bytes) : Prop :=
  ∃ inode, d.inode? (place ++ names) = some inode ∧ inode ≠ .directory ∧
    w.isMatch (Path.ofSegments false names) = true

/-- What a root that leads to the directory at a place finds. -/
structure Listing (w : Workspace) (d : Disk) (root : Bytes) (place : Place) : Prop where
  /-- Not followed, the root leads to the directory as well, unless it is a link itself. -/
  link_or_place : d.locate false root = .ok place ∨
    ∃ link target, d.locate false root = .ok link ∧ d.inode? link = some (.link target)
  /-- A link is not entered, and is found itself if it has one of the extensions. -/
  of_link : ∀ link target, d.locate false root = .ok link → d.inode? link = some (.link target) →
    (w.only root).files d =
      .ok (if w.isMatch root = true then [Path.absolute d.cwd root] else [])
  /-- The directory is entered by any other path that cleaning does not lead elsewhere. -/
  opens : d.locate false root = .ok place →
    Path.dotdot ∉ Bytes.split Path.slash root ∨ d.locate true (Path.clean root) = .ok place →
    d.Opens root place
  /-- The length of a path is the only reason for which a walk fails, as long as a disk has neither
  permissions nor broken media. -/
  fails_iff : d.Opens root place →
    ((∃ e, (w.only root).files d = .error e) ↔
      ∃ names, d.isDirectory (place ++ names) = true ∧ maxPath < (pathBelow root names).length)
  mem_iff : d.Opens root place → ∀ files, (w.only root).files d = .ok files → ∀ path,
    path ∈ files ↔
      ∃ names, w.Holds d place names ∧ path = Path.ofSegments true (d.named root ++ names)
  /-- Other roots take nothing away. -/
  listed : d.Opens root place → root ∈ w.roots → ∀ files, w.files d = .ok files →
    ∀ names, w.Holds d place names → Path.ofSegments true (d.named root ++ names) ∈ files

variable {w : Workspace} {d : Disk} {root : Bytes} {place : Place}

/-! ## Links -/

theorem locate_false_cases (h : d.locate true root = .ok place) :
    d.locate false root = .ok place ∨
      ∃ link target, d.locate false root = .ok link ∧ d.inode? link = some (.link target) := by
  obtain ⟨hne, hnul, hlength, hresolve⟩ := resolve_of_locate h
  obtain ⟨left, hleads⟩ := exists_leads hresolve
  rw [locate_eq_resolve hne hnul hlength]
  exact hleads.exists_resolve

@[simp]
theorem roots_only : (w.only root).roots = [root] :=
  rfl

@[simp]
theorem rootFiles_only (other : Bytes) : (w.only root).rootFiles d other = w.rootFiles d other :=
  rfl

theorem mem_files_only {found files : List Bytes} (hfound : w.rootFiles d root = .ok found)
    (h : (w.only root).files d = .ok files) {path : Bytes} :
    path ∈ files ↔ ∃ p ∈ found, Path.absolute d.cwd p = path := by
  rw [mem_files_iff h]
  simp [hfound]

theorem files_only_of_rootFiles {found : List Bytes} (h : w.rootFiles d root = .ok found) :
    (w.only root).files d = .ok (Bytes.sort (found.map (Path.absolute d.cwd)).eraseDups) := by
  refine files_eq_ok_iff.mpr ⟨[found], ?_, by simp⟩
  exact mapM_eq_ok_iff.mpr (.cons h .nil)

theorem rootFiles_of_link (hstat : d.stat root = .ok .directory) {link : Place} {target : Bytes}
    (hlocate : d.locate false root = .ok link) (hlink : d.inode? link = some (.link target)) :
    w.rootFiles d root = .ok (if w.isMatch root = true then [root] else []) := by
  have hwalk : d.walk root = .ok [(root, .link target)] := by
    rw [walk, tour, hlocate]
    simp only [hlink]
    rfl
  rw [rootFiles_eq_ok_iff hstat]
  refine ⟨_, hwalk, ?_⟩
  cases hmatch : w.isMatch root <;> simp [hmatch]

theorem files_only_of_link (hstat : d.stat root = .ok .directory) {link : Place} {target : Bytes}
    (hlocate : d.locate false root = .ok link) (hlink : d.inode? link = some (.link target)) :
    (w.only root).files d =
      .ok (if w.isMatch root = true then [Path.absolute d.cwd root] else []) := by
  rw [files_only_of_rootFiles (rootFiles_of_link hstat hlocate hlink)]
  split <;> simp [List.eraseDups_cons]

/-! ## Roots that open -/

theorem opens_of_locate_clean (hlocate : ∀ follow, d.locate follow root = .ok place)
    (hclean : d.locate true (Path.clean root) = .ok place)
    (hdirectory : d.isDirectory place = true) : d.Opens root place := by
  obtain ⟨-, -, -, hresolve⟩ := resolve_of_locate hclean
  obtain ⟨left, hleads⟩ := exists_leads hresolve
  refine ⟨hlocate, hdirectory, left, ?_⟩
  rw [origin, Path.isRooted_clean_eq, ← origin] at hleads
  rw [← Path.filter_split_ofSegments (Path.isNormal_cleanSegments root)]
  exact hleads.filter_skip []

theorem holds_iff (htree : d.IsTree) (hdirectory : d.isDirectory place = true) {names : List Bytes}
    (before : Place) :
    w.Holds d place names ↔
      ∃ inode, d.inode? (place ++ names) = some inode ∧ inode ≠ .directory ∧
        w.isMatch (Path.ofSegments true (before ++ names)) = true := by
  unfold Holds
  refine exists_congr fun inode => and_congr_right fun hinode => and_congr_right fun hkind => ?_
  obtain ⟨hne, hnames⟩ := names_of_ne_directory htree hdirectory hinode hkind
  rw [isMatch_ofSegments hne hnames true false before [], List.nil_append]

theorem mem_rootFiles_iff_holds (htree : d.IsTree) (hopens : d.Opens root place)
    {found : List Bytes} (hfound : w.rootFiles d root = .ok found) {path : Bytes} :
    (∃ p ∈ found, Path.absolute d.cwd p = path) ↔
      ∃ names, w.Holds d place names ∧ path = Path.ofSegments true (d.named root ++ names) := by
  rw [mem_rootFiles_of_opens htree hopens hfound]
  constructor
  · rintro ⟨names, inode, hinode, hkind, hmatch, rfl⟩
    have hholds := (holds_iff htree hopens.isDirectory _).mpr ⟨inode, hinode, hkind, hmatch⟩
    exact ⟨names, hholds, rfl⟩
  · rintro ⟨names, hholds, rfl⟩
    obtain ⟨inode, hinode, hkind, hmatch⟩ := (holds_iff htree hopens.isDirectory _).mp hholds
    exact ⟨names, inode, hinode, hkind, hmatch, rfl⟩

theorem isUnusable_iff_of_opens (htree : d.IsTree) (hopens : d.Opens root place) :
    IsUnusable d root ↔
      ∃ names, d.isDirectory (place ++ names) = true ∧ maxPath < (pathBelow root names).length := by
  have hstat := stat_eq_directory_iff.mpr ⟨place, hopens.locate true, hopens.isDirectory⟩
  rw [← hopens.walk_eq_error_iff htree]
  constructor
  · rintro (⟨e, herror⟩ | ⟨-, hwalk⟩)
    · rw [hstat] at herror
      cases herror
    · exact hwalk
  · exact fun hwalk => .inr ⟨hstat, hwalk⟩

theorem listing_of_locate (htree : d.IsTree) (hlocate : d.locate true root = .ok place)
    (hdirectory : d.isDirectory place = true) : Listing w d root place where
  link_or_place := locate_false_cases hlocate
  of_link _ _ hfalse hlink :=
    files_only_of_link (stat_eq_directory_iff.mpr ⟨place, hlocate, hdirectory⟩) hfalse hlink
  opens hfalse hclean := by
    have hboth : ∀ follow, d.locate follow root = .ok place :=
      Bool.forall_bool.mpr ⟨hfalse, hlocate⟩
    rcases hclean with hup | hclean
    · exact opens_of_dotdot_notMem hup hboth hdirectory
    · exact opens_of_locate_clean hboth hclean hdirectory
  fails_iff hopens := by
    rw [exists_error_iff, exists_files_iff, ← isUnusable_iff_of_opens htree hopens]
    simp
  mem_iff hopens files hfiles path := by
    obtain ⟨found, hfound⟩ :=
      exists_rootFiles_iff.mpr (exists_files_iff.mp ⟨files, hfiles⟩ root (List.mem_singleton_self _))
    rw [mem_files_only hfound hfiles, mem_rootFiles_iff_holds htree hopens hfound]
  listed hopens hroot files hfiles names hholds := by
    obtain ⟨found, hfound⟩ :=
      exists_rootFiles_iff.mpr (exists_files_iff.mp ⟨files, hfiles⟩ root hroot)
    rw [mem_files_iff hfiles]
    exact ⟨root, hroot, found, hfound,
      (mem_rootFiles_iff_holds htree hopens hfound).mpr ⟨names, hholds, rfl⟩⟩

/-- A directory, and a link to it. -/
def linked : Disk where
  inodes := [
    ([utf8 "items"], .directory),
    ([utf8 "items", utf8 "a.dfn"], .file []),
    ([utf8 "ln"], .link (utf8 "items"))]

theorem listing_linked :
    linked.IsTree ∧ linked.locate true (utf8 "ln/.") = .ok [utf8 "items"] ∧
      linked.isDirectory [utf8 "items"] = true ∧
      Listing { roots := [utf8 "ln/."] } linked (utf8 "ln/.") [utf8 "items"] := by
  have htree : linked.IsTree := by decide +kernel
  have hlocate : linked.locate true (utf8 "ln/.") = .ok [utf8 "items"] := by decide +kernel
  have hdirectory : linked.isDirectory [utf8 "items"] = true := by decide
  exact ⟨htree, hlocate, hdirectory, listing_of_locate htree hlocate hdirectory⟩

/-- The link leads to the directory, but nothing in the directory is found by it. -/
theorem files_linked :
    linked.stat (utf8 "ln") = .ok .directory ∧
      linked.locate true (utf8 "ln") = linked.locate true (utf8 "items") ∧
      { roots := [utf8 "items"] : Workspace }.files linked = .ok [utf8 "/items/a.dfn"] ∧
      { roots := [utf8 "ln"] : Workspace }.files linked = .ok [] := by
  refine ⟨?_, ?_, ?_, ?_⟩ <;> decide +kernel

end DefinitionFiles.Workspace
