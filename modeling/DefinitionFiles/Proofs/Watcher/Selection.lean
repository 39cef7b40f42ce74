import DefinitionFiles.Proofs.Watcher
import DefinitionFiles.Proofs.Workspace.Selection

/-!
# Watching and scanning

A workspace lists its files by walking the roots as they are spelled. A watcher walks their absolute
paths and asks of a file whether its directory was met. On a disk without links both select the same
files. Only how a root is spelled can make a difference: it can be watched and still not be listed
if its spelling makes the path of some directory in its tree too long.
-/

namespace DefinitionFiles.Watcher

open Disk Workspace

/-- What the files of a workspace and those that its watcher wants have to do with each other. -/
structure Accords (ws : Workspace) (w : Watcher) (d : Disk) : Prop where
  /-- A file is wanted if the roots stand for it, whether or not they can be listed. -/
  isWanted_iff_selects : ∀ place inode, d.inode? place = some inode → inode ≠ .directory →
    (w.isWanted (Path.ofSegments true place) = true ↔ ws.Selects d (Path.ofSegments true place))
  /-- The files are listed unless a directory is met under a path that is too long; permissions and
  broken media are left out. -/
  fails_iff : (∃ e, ws.files d = .error e) ↔
    ∃ root ∈ ws.roots, ∃ names, d.isDirectory (d.named root ++ names) = true ∧
      maxPath < (pathBelow root names).length
  isWanted_iff_mem : ∀ files, ws.files d = .ok files → ∀ place inode,
    d.inode? place = some inode → inode ≠ .directory →
    (w.isWanted (Path.ofSegments true place) = true ↔ Path.ofSegments true place ∈ files)

variable {ws : Workspace} {w : Watcher} {d : Disk}

section LinkFree

variable (htree : d.IsTree) (hlink : ∀ path, d.IsLinkFree path)

include htree

theorem absolute_eq_ofSegments (root : Bytes) :
    Path.absolute d.cwd root = Path.ofSegments true (d.named root) :=
  (Path.ofSegments_cleanSegments_absolute htree.cwd_rooted root).symm

theorem named_absolute (root : Bytes) : d.named (Path.absolute d.cwd root) = d.named root := by
  rw [named, Path.absolute_absolute htree.cwd_rooted, named]

include hlink

theorem stat_eq_ok_iff_of_exists {path : Bytes} (h : ∃ inode, d.stat path = .ok inode)
    {inode : Inode} : d.stat path = .ok inode ↔ d.inode? (d.named path) = some inode := by
  obtain ⟨found, hfound⟩ := h
  rw [hfound, stat_of_isLinkFree htree (hlink path) hfound, Except.ok.injEq, Option.some.injEq]

/-! ## Roots that exist -/

variable (hroots : ∀ root ∈ ws.roots, ∃ inode, d.stat root = .ok inode)

include hroots

theorem exists_files_error_iff :
    (∃ e, ws.files d = .error e) ↔
      ∃ root ∈ ws.roots, ∃ names, d.isDirectory (d.named root ++ names) = true ∧
        maxPath < (pathBelow root names).length := by
  rw [exists_error_iff, exists_files_iff]
  simp only [not_forall, not_not, exists_prop]
  refine exists_congr fun root => and_congr_right fun hroot => ?_
  constructor
  · rintro (⟨e, herror⟩ | ⟨hstat, hwalk⟩)
    · obtain ⟨inode, hstat⟩ := hroots root hroot
      rw [hstat] at herror
      cases herror
    · exact ((htree.opens_of_isLinkFree (hlink root) hstat).walk_eq_error_iff htree).mp hwalk
  · rintro ⟨names, hnames, hlong⟩
    have hdirectory := isDirectory_iff.mp (htree.isDirectory_of_append hnames)
    have hstat := (stat_eq_ok_iff_of_exists htree hlink (hroots root hroot)).mpr hdirectory
    have hopens := htree.opens_of_isLinkFree (hlink root) hstat
    exact .inr ⟨hstat, (hopens.walk_eq_error_iff htree).mpr ⟨names, hnames, hlong⟩⟩

variable (hstart : ({ workspace := ws } : Watcher).start d = (w, none))

include hstart

/-- A root that is watched is the same thing by its absolute path. -/
theorem stat_absolute_iff {root : Bytes} (hroot : root ∈ ws.roots) {inode : Inode} :
    d.stat (Path.absolute d.cwd root) = .ok inode ↔ d.stat root = .ok inode := by
  have hexists := (enrols_start hstart).exists_stat root hroot
  rw [stat_eq_ok_iff_of_exists htree hlink hexists, named_absolute htree,
    stat_eq_ok_iff_of_exists htree hlink (hroots root hroot)]

theorem mem_files_iff_of_start {path : Bytes} :
    path ∈ w.files ↔ ∃ root ∈ ws.roots, ∃ inode, path = Path.absolute d.cwd root ∧
      d.stat root = .ok inode ∧ inode ≠ .directory := by
  rw [(enrols_start hstart).mem_files_iff]
  simp only [List.not_mem_nil, false_or]
  refine exists_congr fun root => and_congr_right fun hroot => ?_
  simp only [stat_absolute_iff htree hlink hroots hstart hroot]

/-- The directories at and below the roots are watched. -/
theorem mem_directories_iff_of_start {path : Bytes} :
    path ∈ w.directories ↔ ∃ root ∈ ws.roots, ∃ names, d.stat root = .ok .directory ∧
      d.isDirectory (d.named root ++ names) = true ∧
        path = Path.ofSegments true (d.named root ++ names) := by
  have henrols := enrols_start hstart
  rw [henrols.mem_directories_iff]
  simp only [List.not_mem_nil, false_or]
  refine exists_congr fun root => and_congr_right fun hroot => ?_
  simp only [stat_absolute_iff htree hlink hroots hstart hroot, exists_and_left]
  refine and_congr_right fun hstat => ?_
  have hexists := hroots root hroot
  have hdirectory := isDirectory_iff.mpr ((stat_eq_ok_iff_of_exists htree hlink hexists).mp hstat)
  -- The watcher would not have started if the tree could not be walked.
  obtain ⟨found, hwalk⟩ := henrols.exists_walk root hroot
    ((stat_absolute_iff htree hlink hroots hstart hroot).mpr hstat)
  rw [absolute_eq_ofSegments htree] at hwalk ⊢
  rw [← htree.directory_mem_walk_iff hdirectory hwalk, hwalk]
  simp

theorem isWanted_iff_selects {place : Place} {inode : Inode} (hinode : d.inode? place = some inode)
    (hkind : inode ≠ .directory) :
    w.isWanted (Path.ofSegments true place) = true ↔ ws.Selects d (Path.ofSegments true place) := by
  have hnames := htree.isName_of_mem hinode
  obtain ⟨parent, name, rfl⟩ : ∃ parent name, place = parent ++ [name] := by
    cases place using List.reverseRecOn with
    | nil => exact absurd (Option.some.inj hinode).symm hkind
    | append_singleton parent name => exact ⟨parent, name, rfl⟩
  have hworkspace : w.workspace = ws := (enrols_start hstart).workspace_eq
  rw [isWanted_ofSegments_iff hnames, mem_files_iff_of_start htree hlink hroots hstart,
    mem_directories_iff_of_start htree hlink hroots hstart, hworkspace]
  constructor
  · rintro (⟨root, hroot, kind, hpath, hstat, hfile⟩ |
      ⟨⟨root, hroot, names, hstat, hdirectory, hpath⟩, hmatch⟩)
    · rw [hpath]
      exact .root hroot hstat hfile
    · have hfound := htree.isName_of_mem (isDirectory_iff.mp hdirectory)
      obtain rfl := (Path.ofSegments_inj (List.forall_mem_append.mp hnames).1 hfound).mp hpath
      rw [List.append_assoc] at hinode hmatch ⊢
      exact .below hroot hstat hinode hkind hmatch
  · intro hselects
    generalize hpath : Path.ofSegments true (parent ++ [name]) = path at hselects
    cases hselects with
    | @root root kind hroot hstat hfile => exact .inl ⟨root, hroot, kind, rfl, hstat, hfile⟩
    | @below root names kind hroot hstat hfound hfile hmatch =>
        have hroot' := hroots root hroot
        have hdirectory := isDirectory_iff.mpr
          ((stat_eq_ok_iff_of_exists htree hlink hroot').mp hstat)
        obtain ⟨hne, -⟩ := names_of_ne_directory htree hdirectory hfound hfile
        have hplace := (Path.ofSegments_inj hnames (htree.isName_of_mem hfound)).mp hpath
        -- The last name is that of the file, and the others lead to its directory.
        obtain ⟨front, last, rfl⟩ := (List.eq_nil_or_concat' names).resolve_left hne
        rw [← List.append_assoc] at hplace hfound
        obtain ⟨rfl, -⟩ := List.append_inj' hplace rfl
        have hparent := (htree.isDirectory_of_concat hfound).1
        exact .inr ⟨⟨root, hroot, front, hstat, hparent, rfl⟩, hmatch⟩

end LinkFree

theorem accords_of_start (htree : d.IsTree)
    (hlink : ∀ place ∈ d.inodes.map Prod.fst, d.isLink place = false)
    (hroots : ∀ root ∈ ws.roots, ∃ inode, d.stat root = .ok inode)
    (hstart : ({ workspace := ws } : Watcher).start d = (w, none)) : Accords ws w d := by
  have hfree := isLinkFree_of_forall hlink
  refine ⟨fun place inode hinode hkind => ?_, ?_, fun files hfiles place inode hinode hkind => ?_⟩
  · exact isWanted_iff_selects htree hfree hroots hstart hinode hkind
  · exact exists_files_error_iff htree hfree hroots
  · rw [mem_files_iff_selects htree (fun root _ => hfree root) hfiles]
    exact isWanted_iff_selects htree hfree hroots hstart hinode hkind

/-- A tree seen from a directory in it. -/
def orchard : Disk where
  inodes := [
    ([utf8 "t"], .directory),
    ([utf8 "t", utf8 "n.txt"], .file []),
    ([utf8 "t", utf8 "m.txt"], .file []),
    ([utf8 "t", utf8 "a"], .directory),
    ([utf8 "t", utf8 "a", utf8 "x.dfn"], .file []),
    ([utf8 "t", utf8 "a", utf8 "b"], .directory),
    ([utf8 "t", utf8 "a", utf8 "b", utf8 "y.DFN"], .file [])]
  cwd := utf8 "/t/a"

/-- A directory below another root, a file with another extension, and the directory itself. -/
def tended : Workspace where
  roots := [utf8 "b/", utf8 "../n.txt", utf8 ".././a"]

theorem accords_tended :
    orchard.IsTree ∧ (∀ place ∈ orchard.inodes.map Prod.fst, orchard.isLink place = false) ∧
      ∃ w, ({ workspace := tended } : Watcher).start orchard = (w, none) ∧
        tended.files orchard =
          .ok [utf8 "/t/a/b/y.DFN", utf8 "/t/a/x.dfn", utf8 "/t/n.txt"] ∧
        w.isWanted (utf8 "/t/m.txt") = false ∧ w.isWanted (utf8 "/t/n.txt") = true ∧
        Accords tended w orchard := by
  have htree : orchard.IsTree := by decide +kernel
  have hlink : ∀ place ∈ orchard.inodes.map Prod.fst, orchard.isLink place = false := by decide
  have hroots : ∀ root ∈ tended.roots, ∃ inode, orchard.stat root = .ok inode := by
    have hb : orchard.stat (utf8 "b/") = .ok .directory := by decide +kernel
    have hn : orchard.stat (utf8 "../n.txt") = .ok (.file []) := by decide +kernel
    have ha : orchard.stat (utf8 ".././a") = .ok .directory := by decide +kernel
    simp [tended, hb, hn, ha]
  have hnone : (({ workspace := tended } : Watcher).start orchard).2 = none := by decide +kernel
  have hstart : ({ workspace := tended } : Watcher).start orchard =
      ((({ workspace := tended } : Watcher).start orchard).1, none) := Prod.ext rfl hnone
  have haccords := accords_of_start htree hlink hroots hstart
  have hfiles : tended.files orchard =
      .ok [utf8 "/t/a/b/y.DFN", utf8 "/t/a/x.dfn", utf8 "/t/n.txt"] := by decide +kernel
  refine ⟨htree, hlink, _, hstart, hfiles, ?_, ?_, haccords⟩
  · rw [Bool.eq_false_iff, ne_eq, show utf8 "/t/m.txt" = Path.ofSegments true
      [utf8 "t", utf8 "m.txt"] by decide]
    rw [haccords.isWanted_iff_mem _ hfiles _ (.file []) (by decide) (by decide)]
    decide
  · rw [show utf8 "/t/n.txt" = Path.ofSegments true [utf8 "t", utf8 "n.txt"] by decide]
    rw [haccords.isWanted_iff_mem _ hfiles _ (.file []) (by decide) (by decide)]
    decide

/-- A directory whose spelling makes the path of the directory in it too long. -/
def overgrown : Workspace where
  roots := [climbing 1364 [utf8 "a"]]

/-- The directory is watched, but its files cannot be listed. -/
theorem isWanted_of_climbing :
    thicket.IsTree ∧ (∀ place ∈ thicket.inodes.map Prod.fst, thicket.isLink place = false) ∧
      thicket.stat (climbing 1364 [utf8 "a"]) = .ok .directory ∧
      thicket.inode? [utf8 "a", utf8 "x.dfn"] = some (.file []) ∧
      ∃ w, ({ workspace := overgrown } : Watcher).start thicket = (w, none) ∧
        w.isWanted (Path.ofSegments true [utf8 "a", utf8 "x.dfn"]) = true ∧
        ∃ e, overgrown.files thicket = .error e := by
  have htree : thicket.IsTree := by decide +kernel
  have hlink : ∀ place ∈ thicket.inodes.map Prod.fst, thicket.isLink place = false := by decide
  have hdirectory : thicket.isDirectory [utf8 "a"] = true := by decide
  have hnames := htree.isName_of_mem (isDirectory_iff.mp hdirectory)
  have hnamed := named_climbing htree (Nat.zero_le 1364) hnames
  have hlength : (climbing 1364 [utf8 "a"]).length + 1 = 4094 :=
    length_climbing (List.cons_ne_nil _ _)
  have hstat := stat_climbing htree (Nat.zero_le 1364) (List.cons_ne_nil _ _) hdirectory
    (by change _ ≤ 4095; omega)
  have habsolute : Path.absolute thicket.cwd (climbing 1364 [utf8 "a"]) = utf8 "/a" := by
    rw [absolute_eq_ofSegments htree, hnamed]
    decide
  have habsoluteStat : thicket.stat (utf8 "/a") = .ok .directory := by decide +kernel
  have hwalk : thicket.walk (utf8 "/a") = .ok [(utf8 "/a", .directory),
      (utf8 "/a/bb", .directory), (utf8 "/a/x.dfn", .file [])] := by decide +kernel
  have houter : thicket.watchError? (utf8 "/a") = none := by decide +kernel
  have hinner : thicket.watchError? (utf8 "/a/bb") = none := by decide +kernel
  have hextension :
      overgrown.isMatch (Path.ofSegments true [utf8 "a", utf8 "x.dfn"]) = true := by
    change [utf8 ".dfn"].any (sameFolded (Path.ext (Path.ofSegments true [utf8 "a", utf8 "x.dfn"])))
      = true
    decide +kernel
  obtain ⟨w, hstart⟩ : ∃ w, ({ workspace := overgrown } : Watcher).start thicket = (w, none) := by
    obtain ⟨directories, hadd, -⟩ :=
      addTree_of_ok (w := { workspace := overgrown }) hwalk (by simp [houter, hinner])
    simp only [start, overgrown, addRoots, addRoot, habsolute, habsoluteStat] at hadd ⊢
    simp only [hadd]
    exact ⟨_, rfl⟩
  have henrols := enrols_start hstart
  have hwatched : utf8 "/a" ∈ w.directories := by
    rw [henrols.mem_directories_iff]
    refine .inr ⟨climbing 1364 [utf8 "a"], List.mem_singleton_self _, ?_⟩
    rw [habsolute]
    exact ⟨_, habsoluteStat, hwalk, List.mem_cons_self⟩
  refine ⟨htree, hlink, hstat, by decide, w, hstart, ?_, ?_⟩
  · rw [isWanted_iff, henrols.workspace_eq]
    exact .inr ⟨hwatched, hextension⟩
  · have hfree := isLinkFree_of_forall hlink
    rw [exists_files_error_iff htree hfree (by simp [overgrown, hstat])]
    have hbelow : thicket.isDirectory [utf8 "a", utf8 "bb"] = true := by decide
    have hlong : (climbing 1364 [utf8 "a", utf8 "bb"]).length + 1 = 4097 :=
      length_climbing (List.cons_ne_nil _ _)
    have hne := (htree.opens_of_isLinkFree (hfree _) hstat).root_ne_nil
    refine ⟨climbing 1364 [utf8 "a"], List.mem_singleton_self _, [utf8 "bb"], ?_, ?_⟩
    · rw [hnamed]
      exact hbelow
    rw [pathBelow_climbing hne (htree.isName_of_mem (isDirectory_iff.mp hbelow))]
    change 4095 < (climbing 1364 [utf8 "a", utf8 "bb"]).length
    omega

end DefinitionFiles.Watcher
