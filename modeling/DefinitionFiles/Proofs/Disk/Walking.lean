import DefinitionFiles.Proofs.Disk
import DefinitionFiles.Proofs.Text.Ordering
import Mathlib.Data.List.Forall2

/-!
# Walking file trees

A directory is walked by the paths of what is below it. If the path of its root and the cleaned form
of that path lead to one directory, the walk meets everything below this directory, each thing under
the cleaned path made of the root and the names that lead to it. It fails only where a directory is
met under a path that is too long.
-/

namespace DefinitionFiles

section Except

variable {ε α β : Type} {f : α → Except ε β}

theorem exists_error_iff {x : Except ε α} : (∃ e, x = .error e) ↔ ¬ ∃ a, x = .ok a := by
  cases x <;> simp

theorem mapM_eq_ok_iff {items : List α} {results : List β} :
    items.mapM f = .ok results ↔ List.Forall₂ (fun a b => f a = .ok b) items results := by
  induction items generalizing results with
  | nil => simp [pure, Except.pure, eq_comm]
  | cons a items ih =>
      rw [List.mapM_cons, List.forall₂_cons_left_iff]
      cases ha : f a with
      | error e =>
          constructor
          · intro h
            cases h
          · rintro ⟨b, rest, hb, -, -⟩
            cases hb
      | ok b =>
          cases hitems : items.mapM f with
          | error e =>
              constructor
              · intro h
                cases h
              · rintro ⟨b', rest, -, hrest, -⟩
                rw [ih.mpr hrest] at hitems
                cases hitems
          | ok rest =>
              constructor
              · intro h
                cases h
                exact ⟨b, rest, rfl, ih.mp hitems, rfl⟩
              · rintro ⟨_, rest', ⟨⟩, hrest, rfl⟩
                rw [ih.mpr hrest] at hitems
                cases hitems
                rfl

theorem exists_mapM_eq_ok_iff {items : List α} :
    (∃ results, items.mapM f = .ok results) ↔ ∀ a ∈ items, ∃ b, f a = .ok b := by
  simp only [mapM_eq_ok_iff]
  induction items with
  | nil => simp
  | cons a items ih =>
      rw [List.forall_mem_cons, ← ih]
      constructor
      · rintro ⟨results, hresults⟩
        obtain ⟨b, rest, hb, hrest, -⟩ := List.forall₂_cons_left_iff.mp hresults
        exact ⟨⟨b, hb⟩, rest, hrest⟩
      · rintro ⟨⟨b, hb⟩, rest, hrest⟩
        exact ⟨b :: rest, .cons hb hrest⟩

theorem mem_flatten_of_mapM {γ : Type} {g : α → Except ε (List γ)} {items : List α}
    {results : List (List γ)} (h : items.mapM g = .ok results) {c : γ} :
    c ∈ results.flatten ↔ ∃ a ∈ items, ∃ found, g a = .ok found ∧ c ∈ found := by
  rw [mapM_eq_ok_iff] at h
  induction h with
  | nil => simp
  | cons ha _ ih => simp [ih, ha]

end Except

namespace Disk

/-- The path that something below a directory is met under when the directory is walked by the path
`root`. -/
def pathBelow (root : Bytes) (names : List Bytes) : Bytes :=
  if names = [] then root else Path.clean (root ++ Path.slash :: Bytes.join [Path.slash] names)

/-- A path that a directory can be walked by: neither does the path end in a link, nor does cleaning
make it lead elsewhere. -/
structure Opens (d : Disk) (root : Bytes) (place : Place) : Prop where
  locate : ∀ follow, d.locate follow root = .ok place
  isDirectory : d.isDirectory place = true
  leads : ∃ left, d.Leads maxLinks (d.origin root) (Path.cleanSegments root) place left

variable {d : Disk}

/-! ## Looking paths up -/

theorem locate_eq_resolve {path : Bytes} (hne : path ≠ []) (hnul : 0 ∉ path)
    (hlength : path.length ≤ maxPath) (follow : Bool) :
    d.locate follow path =
      d.resolve follow maxLinks (d.origin path) (Bytes.split Path.slash path) := by
  simp [locate, hne, hnul, Nat.not_lt.mpr hlength, origin]

theorem resolve_of_locate {path : Bytes} {follow : Bool} {place : Place}
    (h : d.locate follow path = .ok place) :
    path ≠ [] ∧ 0 ∉ path ∧ path.length ≤ maxPath ∧
      d.resolve follow maxLinks (d.origin path) (Bytes.split Path.slash path) = .ok place := by
  unfold locate at h
  split at h
  · cases h
  next hne =>
    split at h
    · cases h
    next hnul =>
      split at h
      · cases h
      next hlength => exact ⟨hne, by simpa using hnul, Nat.not_lt.mp hlength, h⟩

theorem stat_eq_ok_iff {path : Bytes} {inode : Inode} :
    d.stat path = .ok inode ↔
      ∃ place, d.locate true path = .ok place ∧ d.inode? place = some inode := by
  unfold stat
  cases d.locate true path with
  | error e => simp
  | ok place => cases hinode : d.inode? place <;> simp [hinode]

theorem stat_eq_directory_iff {path : Bytes} :
    d.stat path = .ok .directory ↔
      ∃ place, d.locate true path = .ok place ∧ d.isDirectory place = true := by
  simp only [stat_eq_ok_iff, isDirectory_iff]

/-! ## Paths below a root -/

theorem pathBelow_nil (root : Bytes) : pathBelow root [] = root :=
  rfl

theorem pathBelow_eq {root : Bytes} (hroot : root ≠ []) {names : List Bytes} (hne : names ≠ [])
    (h : ∀ name ∈ names, Path.IsName name) :
    pathBelow root names =
      Path.ofSegments (Path.isRooted root) (Path.cleanSegments root ++ names) := by
  rw [pathBelow, if_neg hne, Path.clean, Path.isRooted_append_slash hroot,
    Path.cleanSegments_append_names hroot hne h]

theorem isNormal_append_names {root : Bytes} {names : List Bytes}
    (h : ∀ name ∈ names, Path.IsName name) :
    Path.IsNormal (Path.isRooted root) (Path.cleanSegments root ++ names).reverse := by
  induction names using List.reverseRecOn with
  | nil =>
      rw [List.append_nil]
      exact Path.isNormal_cleanSegments root
  | append_singleton names name ih =>
      rw [← List.append_assoc, List.reverse_append]
      exact ⟨.inl (h name (by simp)), ih fun other hother => h other (by simp [hother])⟩

theorem isRooted_pathBelow {root : Bytes} (hroot : root ≠ []) {names : List Bytes}
    (h : ∀ name ∈ names, Path.IsName name) :
    Path.isRooted (pathBelow root names) = Path.isRooted root := by
  by_cases hne : names = []
  · rw [hne, pathBelow_nil]
  · rw [pathBelow_eq hroot hne h, Path.isRooted_ofSegments_of_isNormal (isNormal_append_names h)]

theorem cleanSegments_pathBelow {root : Bytes} (hroot : root ≠ []) {names : List Bytes}
    (h : ∀ name ∈ names, Path.IsName name) :
    Path.cleanSegments (pathBelow root names) = Path.cleanSegments root ++ names := by
  by_cases hne : names = []
  · rw [hne, pathBelow_nil, List.append_nil]
  · rw [pathBelow, if_neg hne, Path.cleanSegments_clean,
      Path.cleanSegments_append_names hroot hne h]

theorem pathBelow_ofSegments {place : Place} {names : List Bytes}
    (h : ∀ name ∈ place ++ names, Path.IsName name) :
    pathBelow (Path.ofSegments true place) names = Path.ofSegments true (place ++ names) := by
  obtain ⟨hplace, hnames⟩ := List.forall_mem_append.mp h
  have hroot : Path.ofSegments true place ≠ [] := List.cons_ne_nil _ _
  by_cases hne : names = []
  · rw [hne, pathBelow_nil, List.append_nil]
  · rw [pathBelow_eq hroot hne hnames, Path.isRooted_ofSegments,
      Path.cleanSegments_ofSegments hplace]

theorem pathBelow_ne_nil {root : Bytes} (hroot : root ≠ []) {names : List Bytes}
    (h : ∀ name ∈ names, Path.IsName name) : pathBelow root names ≠ [] := by
  intro hnil
  by_cases hne : names = []
  · exact hroot (by rwa [hne] at hnil)
  · have hsegments := cleanSegments_pathBelow hroot h
    rw [hnil] at hsegments
    exact hne (List.append_eq_nil_iff.mp hsegments.symm).2

theorem childPath_pathBelow {root : Bytes} (hroot : root ≠ []) {names : List Bytes} {name : Bytes}
    (h : ∀ other ∈ names ++ [name], Path.IsName other) :
    childPath (pathBelow root names) name = pathBelow root (names ++ [name]) := by
  have hnames : ∀ other ∈ names, Path.IsName other := fun other hother => h other (by simp [hother])
  have hname := h name (by simp)
  have hbelow := pathBelow_ne_nil hroot hnames
  rw [childPath, Path.clean, Path.isRooted_append_slash hbelow, isRooted_pathBelow hroot hnames,
    Path.cleanSegments_append_name hbelow hname, cleanSegments_pathBelow hroot hnames,
    pathBelow_eq hroot (by simp) h, List.append_assoc]

/-- What is below a root is named by the names that are added to its own. -/
theorem IsTree.absolute_pathBelow (h : d.IsTree) {root : Bytes} (hroot : root ≠ [])
    {names : List Bytes} (hnames : ∀ name ∈ names, Path.IsName name) :
    Path.absolute d.cwd (pathBelow root names) = Path.ofSegments true (d.named root ++ names) := by
  have horigin : d.origin (pathBelow root names) = d.origin root := by
    rw [origin, origin, isRooted_pathBelow hroot hnames]
  have hstart : ∀ path, Path.isRooted path = true → d.origin path = [] :=
    fun path hrooted => by rw [origin, if_pos hrooted]
  have hnamed : d.named (pathBelow root names) = d.named root ++ names := by
    rw [h.named_eq, h.named_eq, ← Path.foldl_descend_cleanSegments (hstart _),
      ← Path.foldl_descend_cleanSegments (hstart _), cleanSegments_pathBelow hroot hnames,
      List.foldl_append, Path.foldl_descend_of_isName hnames, horigin]
  rw [← hnamed]
  exact (Path.ofSegments_cleanSegments_absolute h.cwd_rooted _).symm

theorem mem_join {segments : List Bytes} {b : UInt8}
    (h : b ∈ Bytes.join [Path.slash] segments) :
    b = Path.slash ∨ ∃ segment ∈ segments, b ∈ segment := by
  induction segments with
  | nil => cases h
  | cons first rest ih =>
      cases rest with
      | nil => exact .inr ⟨first, List.mem_cons_self, by simpa [Bytes.join] using h⟩
      | cons next rest =>
          rw [Bytes.join_cons first (List.cons_ne_nil _ _), List.mem_append, List.mem_cons] at h
          rcases h with hfirst | hslash | hrest
          · exact .inr ⟨first, List.mem_cons_self, hfirst⟩
          · exact .inl hslash
          · rcases ih hrest with hslash | ⟨segment, hsegment, hb⟩
            · exact .inl hslash
            · exact .inr ⟨segment, List.mem_cons_of_mem _ hsegment, hb⟩

theorem nul_notMem_ofSegments (rooted : Bool) {segments : List Bytes}
    (h : ∀ segment ∈ segments, 0 ∉ segment) : 0 ∉ Path.ofSegments rooted segments := by
  have hjoin : 0 ∉ Bytes.join [Path.slash] segments := by
    intro hmem
    rcases mem_join hmem with hslash | ⟨segment, hsegment, hzero⟩
    · exact absurd hslash (by decide)
    · exact h segment hsegment hzero
  unfold Path.ofSegments
  split
  next =>
    rw [List.mem_cons, not_or]
    exact ⟨by decide, hjoin⟩
  next =>
    split
    · decide
    · exact hjoin

theorem nul_notMem_of_mem_cleanSegments {path segment : Bytes} (hnul : 0 ∉ path)
    (h : segment ∈ Path.cleanSegments path) : 0 ∉ segment := by
  obtain ⟨earlier, later, hsplit⟩ := List.append_of_mem (Path.mem_split_of_mem_cleanSegments h)
  obtain ⟨front, rest, rfl, -⟩ := Bytes.exists_append_of_split hsplit
  exact fun hzero => hnul (by simp [hzero])

/-! ## Listing directories -/

theorem IsTree.mem_children (h : d.IsTree) {place : Place} {name : Bytes} {inode : Inode} :
    (name, inode) ∈ d.children place ↔ d.inode? (place ++ [name]) = some inode := by
  rw [children, Bytes.mem_sortOn, List.mem_filterMap, h.inode?_eq_some_iff (by simp)]
  constructor
  · rintro ⟨⟨found, other⟩, hfound, hchild⟩
    cases hlast : found.getLast? with
    | none => simp [hlast] at hchild
    | some last =>
        simp only [hlast, Option.ite_none_right_eq_some, Option.some.injEq, Prod.mk.injEq] at hchild
        obtain ⟨hplace, rfl, rfl⟩ := hchild
        rwa [← hplace, List.dropLast_append_getLast? last hlast]
  · intro hmem
    exact ⟨(place ++ [name], inode), hmem, by simp⟩

theorem short_of_list {path : Bytes} {entries : List (Bytes × Inode)}
    (hlist : d.list path = .ok entries) : path.length ≤ maxPath := by
  unfold list at hlist
  split at hlist
  · cases hlist
  next place hlocate => exact (resolve_of_locate hlocate).2.2.1

theorem short_of_walk {root : Bytes} {found : List (Bytes × Inode)}
    (hwalk : d.walk root = .ok found) : root.length ≤ maxPath := by
  unfold walk tour at hwalk
  split at hwalk
  · cases hwalk
  next place hlocate => exact (resolve_of_locate hlocate).2.2.1

/-! ## Tours -/

namespace Tour

theorem complete_eq_ok_iff {t : Tour} {found : List (Bytes × Inode)} :
    t.complete = .ok found ↔ t.failure? = none ∧ t.met = found := by
  rw [complete]
  cases t.failure? <;> simp

theorem complete_andThen_eq_ok_iff {first next : Tour} {found : List (Bytes × Inode)} :
    (first.andThen next).complete = .ok found ↔
      ∃ front rest, first.complete = .ok front ∧ next.complete = .ok rest ∧
        found = front ++ rest := by
  simp only [complete_eq_ok_iff, andThen]
  cases hfailure : first.failure? with
  | some e => simp [hfailure]
  | none => simp [eq_comm]

theorem mem_met_of_mem_andThen {first next : Tour} {entry : Bytes × Inode}
    (h : entry ∈ (first.andThen next).met) : entry ∈ first.met ∨ entry ∈ next.met := by
  rw [andThen] at h
  split at h
  · exact .inl h
  · exact List.mem_append.mp h

variable {α : Type} {f : α → Tour} {items : List α}

theorem exists_mem_met_of_mem_foldr {entry : Bytes × Inode}
    (h : entry ∈ (items.foldr (fun a rest => (f a).andThen rest) {}).met) :
    ∃ a ∈ items, entry ∈ (f a).met := by
  induction items with
  | nil => cases h
  | cons a items ih =>
      rcases mem_met_of_mem_andThen h with hfirst | hrest
      · exact ⟨a, List.mem_cons_self, hfirst⟩
      · obtain ⟨b, hb, hmem⟩ := ih hrest
        exact ⟨b, List.mem_cons_of_mem a hb, hmem⟩

/-- Tours one after the other are complete if each of them is. -/
theorem complete_foldr_andThen_eq_ok_iff {found : List (Bytes × Inode)} :
    (items.foldr (fun a rest => (f a).andThen rest) {}).complete = .ok found ↔
      ∃ parts, items.mapM (fun a => (f a).complete) = .ok parts ∧ found = parts.flatten := by
  simp only [mapM_eq_ok_iff]
  induction items generalizing found with
  | nil =>
      rw [List.foldr_nil, complete_eq_ok_iff]
      simp [eq_comm]
  | cons a items ih =>
      rw [List.foldr_cons, complete_andThen_eq_ok_iff]
      simp only [ih, List.forall₂_cons_left_iff]
      constructor
      · rintro ⟨front, rest, hfront, ⟨parts, hparts, rfl⟩, rfl⟩
        exact ⟨front :: parts, ⟨front, parts, hfront, hparts, rfl⟩, rfl⟩
      · rintro ⟨_, ⟨front, parts, hfront, hparts, rfl⟩, rfl⟩
        exact ⟨front, parts.flatten, hfront, ⟨parts, hparts, rfl⟩, rfl⟩

end Tour

/-- What is met at something in a directory that is walked. -/
def visit (d : Disk) (depth : Nat) (path : Bytes) (entry : Bytes × Inode) : Tour :=
  let child := childPath path entry.1
  let inner := if entry.2 = .directory then d.below depth child else {}
  ({ met := [(child, entry.2)] } : Tour).andThen inner

theorem below_succ_eq_ok_iff {depth : Nat} {path : Bytes} {found : List (Bytes × Inode)} :
    (d.below (depth + 1) path).complete = .ok found ↔
      ∃ entries parts, d.list path = .ok entries ∧
        entries.mapM (fun entry => (d.visit depth path entry).complete) = .ok parts ∧
        found = parts.flatten := by
  rw [below]
  cases hlist : d.list path with
  | error e => simp [Tour.complete]
  | ok entries =>
      simp only [Except.ok.injEq, exists_and_left, exists_eq_left']
      exact Tour.complete_foldr_andThen_eq_ok_iff (f := d.visit depth path)

theorem Leads.split_ofSegments {links left : Nat} {here place : Place} {segments : List Bytes}
    (h : d.Leads links here segments place left) (hhere : d.isDirectory here = true)
    (hne : segments ≠ []) (hslash : ∀ segment ∈ segments, Path.slash ∉ segment) (rooted : Bool) :
    d.Leads links here (Bytes.split Path.slash (Path.ofSegments rooted segments)) place left := by
  cases rooted with
  | true =>
      rw [Path.ofSegments, if_pos rfl, Bytes.split_cons, if_pos rfl, Bytes.split_join hne hslash]
      exact .skip hhere (.inl rfl) h
  | false =>
      rw [Path.ofSegments, if_neg Bool.false_ne_true, if_neg hne, Bytes.split_join hne hslash]
      exact h

/-- A cleaned path finds what its segments lead to, unless it is too long. -/
theorem Leads.locate_ofSegments {left : Nat} {place : Place} {rooted : Bool}
    {segments : List Bytes} (h : d.IsTree) (hne : segments ≠ [])
    (hnormal : Path.IsNormal rooted segments.reverse) (hnul : ∀ segment ∈ segments, 0 ∉ segment)
    (hshort : (Path.ofSegments rooted segments).length ≤ maxPath)
    (hleads : d.Leads maxLinks (d.origin (Path.ofSegments rooted segments)) segments place left) :
    d.locate true (Path.ofSegments rooted segments) = .ok place := by
  have hpath : Path.ofSegments rooted segments ≠ [] := by
    intro hnil
    have hclean := Path.cleanSegments_ofSegments_of_isNormal hnormal
    rw [hnil] at hclean
    exact hne hclean.symm
  rw [locate_eq_resolve hpath (nul_notMem_ofSegments rooted hnul) hshort]
  refine (hleads.split_ofSegments (h.isDirectory_origin _) hne ?_ rooted).resolve_eq
  exact fun segment hsegment => hnormal.slash_notMem segment (List.mem_reverse.mpr hsegment)

theorem IsTree.length_names_le (h : d.IsTree) {place : Place} {names : List Bytes} {inode : Inode}
    (hinode : d.inode? (place ++ names) = some inode) : names.length ≤ d.inodes.length := by
  have hle := h.length_le hinode
  rw [List.length_append] at hle
  omega

section Walk

variable {root : Bytes} {place : Place} (hroot : d.Opens root place)

include hroot

theorem Opens.root_ne_nil : root ≠ [] :=
  (resolve_of_locate (hroot.locate true)).1

theorem Opens.tour_eq :
    d.tour root = ({ met := [(root, .directory)] } : Tour).andThen
      (d.below (d.inodes.length + 1) root) := by
  rw [tour, hroot.locate false]
  simp [isDirectory_iff.mp hroot.isDirectory]

theorem Opens.walk_eq_ok_iff {found : List (Bytes × Inode)} :
    d.walk root = .ok found ↔ ∃ rest, (d.below (d.inodes.length + 1) root).complete = .ok rest ∧
      found = (root, .directory) :: rest := by
  rw [walk, hroot.tour_eq, Tour.complete_andThen_eq_ok_iff]
  simp [Tour.complete]

variable (h : d.IsTree)

include h

/-- A directory below the root is found by the path it is met under, unless that is too long. -/
theorem Opens.locate_pathBelow {names : List Bytes}
    (hdirectory : d.isDirectory (place ++ names) = true)
    (hshort : (pathBelow root names).length ≤ maxPath) :
    d.locate true (pathBelow root names) = .ok (place ++ names) := by
  by_cases hne : names = []
  · rw [hne, pathBelow_nil, List.append_nil]
    exact hroot.locate true
  · obtain ⟨-, hnul, -⟩ := resolve_of_locate (hroot.locate true)
    have hentries := (h.above (isDirectory_iff.mp hdirectory)).2
    have hnames : ∀ name ∈ names, Path.IsName name :=
      fun name hname => (hentries name hname).toIsName
    obtain ⟨left, hleads⟩ := hroot.leads
    have hrooted := isRooted_pathBelow hroot.root_ne_nil hnames
    rw [pathBelow_eq hroot.root_ne_nil hne hnames] at hshort hrooted ⊢
    have horigin : d.origin (Path.ofSegments (Path.isRooted root) (Path.cleanSegments root ++ names)) =
        d.origin root := by
      rw [origin, hrooted, origin]
    have hfound := hleads.append (h.leads_names hdirectory)
    rw [← horigin] at hfound
    refine hfound.locate_ofSegments h (by simp [hne]) (isNormal_append_names hnames) ?_ hshort
    intro segment hsegment
    rcases List.mem_append.mp hsegment with hclean | hname
    · exact nul_notMem_of_mem_cleanSegments hnul hclean
    · exact (hentries segment hname).nul_notMem

theorem Opens.list_pathBelow {names : List Bytes}
    (hdirectory : d.isDirectory (place ++ names) = true)
    (hshort : (pathBelow root names).length ≤ maxPath) :
    d.list (pathBelow root names) = .ok (d.children (place ++ names)) := by
  rw [list, hroot.locate_pathBelow h hdirectory hshort]
  simp [isDirectory_iff.mp hdirectory]

/-! ## Everything below -/

theorem Opens.childPath_eq {names : List Bytes} {name : Bytes} {inode : Inode}
    (hinode : d.inode? (place ++ names ++ [name]) = some inode) :
    childPath (pathBelow root names) name = pathBelow root (names ++ [name]) := by
  rw [List.append_assoc] at hinode
  apply childPath_pathBelow hroot.root_ne_nil
  exact fun other hother => ((h.above hinode).2 other hother).toIsName

theorem Opens.visit_eq {depth : Nat} {names : List Bytes} {name : Bytes} {kind : Inode}
    (hkind : d.inode? (place ++ names ++ [name]) = some kind) :
    d.visit depth (pathBelow root names) (name, kind) =
      ({ met := [(pathBelow root (names ++ [name]), kind)] } : Tour).andThen
        (if kind = .directory then d.below depth (pathBelow root (names ++ [name])) else {}) := by
  rw [visit, hroot.childPath_eq h hkind]

theorem Opens.visit_eq_ok_iff {depth : Nat} {names : List Bytes} {name : Bytes} {kind : Inode}
    (hkind : d.inode? (place ++ names ++ [name]) = some kind) {part : List (Bytes × Inode)} :
    (d.visit depth (pathBelow root names) (name, kind)).complete = .ok part ↔
      ∃ found, part = (pathBelow root (names ++ [name]), kind) :: found ∧
        (kind = .directory ∧
            (d.below depth (pathBelow root (names ++ [name]))).complete = .ok found ∨
          kind ≠ .directory ∧ found = []) := by
  rw [hroot.visit_eq h hkind, Tour.complete_andThen_eq_ok_iff]
  by_cases hdirectory : kind = .directory
  · simp [hdirectory, Tour.complete, and_comm]
  · simp [hdirectory, Tour.complete]

theorem Opens.exists_visit_iff {depth : Nat} {names : List Bytes} {name : Bytes} {kind : Inode}
    (hkind : d.inode? (place ++ names ++ [name]) = some kind) :
    (∃ part, (d.visit depth (pathBelow root names) (name, kind)).complete = .ok part) ↔
      (kind = .directory →
        ∃ found, (d.below depth (pathBelow root (names ++ [name]))).complete = .ok found) := by
  simp only [hroot.visit_eq_ok_iff h hkind]
  by_cases hdirectory : kind = .directory <;> simp [hdirectory]

/-- Nothing is met but what is below the directory, even if the way ends early. -/
theorem Opens.exists_of_mem_below {depth : Nat} {names : List Bytes}
    (hdirectory : d.isDirectory (place ++ names) = true) {path : Bytes} {inode : Inode}
    (hmet : (path, inode) ∈ (d.below depth (pathBelow root names)).met) :
    ∃ more, more ≠ [] ∧ more.length ≤ depth ∧
      d.inode? (place ++ names ++ more) = some inode ∧ path = pathBelow root (names ++ more) := by
  induction depth generalizing names with
  | zero => cases hmet
  | succ depth ih =>
      cases hlist : d.list (pathBelow root names) with
      | error e =>
          rw [below, hlist] at hmet
          cases hmet
      | ok entries =>
          rw [below, hlist] at hmet
          -- That the directory was listed tells that its path is not too long.
          rw [hroot.list_pathBelow h hdirectory (short_of_list hlist)] at hlist
          cases hlist
          obtain ⟨⟨name, kind⟩, hentry, hvisit⟩ :=
            Tour.exists_mem_met_of_mem_foldr (f := d.visit depth (pathBelow root names)) hmet
          have hkind := h.mem_children.mp hentry
          rw [hroot.visit_eq h hkind] at hvisit
          rcases Tour.mem_met_of_mem_andThen hvisit with hhere | hinner
          · cases List.mem_singleton.mp hhere
            exact ⟨[name], by simp, by simp, hkind, rfl⟩
          · by_cases hinside : kind = .directory
            · rw [if_pos hinside] at hinner
              rw [hinside, List.append_assoc, ← isDirectory_iff] at hkind
              obtain ⟨more, -, hlength, hinode, hpath⟩ := ih hkind hinner
              refine ⟨name :: more, by simp, by simpa using hlength, ?_, ?_⟩
              · simpa using hinode
              · simpa using hpath
            · rw [if_neg hinside] at hinner
              cases hinner

/-- What is below a directory is met, down to the given depth. -/
theorem Opens.mem_below {depth : Nat} {names : List Bytes}
    (hdirectory : d.isDirectory (place ++ names) = true) {found : List (Bytes × Inode)}
    (hfound : (d.below depth (pathBelow root names)).complete = .ok found) {path : Bytes}
    {inode : Inode} :
    (path, inode) ∈ found ↔
      ∃ more, more ≠ [] ∧ more.length ≤ depth ∧
        d.inode? (place ++ names ++ more) = some inode ∧ path = pathBelow root (names ++ more) := by
  constructor
  · intro hmem
    rw [← (Tour.complete_eq_ok_iff.mp hfound).2] at hmem
    exact hroot.exists_of_mem_below h hdirectory hmem
  · rintro ⟨more, hne, hlength, hinode, rfl⟩
    induction depth generalizing names found more with
    | zero => exact absurd (List.eq_nil_of_length_eq_zero (Nat.le_zero.mp hlength)) hne
    | succ depth ih =>
        obtain ⟨entries, parts, hlist, hparts, rfl⟩ := below_succ_eq_ok_iff.mp hfound
        rw [hroot.list_pathBelow h hdirectory (short_of_list hlist)] at hlist
        cases hlist
        rw [mem_flatten_of_mapM hparts]
        obtain ⟨name, more, rfl⟩ := List.exists_cons_of_ne_nil hne
        -- The first name is met in the directory itself, and the others below what it names.
        rw [List.append_cons] at hinode
        have hentered : ∃ kind, d.inode? (place ++ names ++ [name]) = some kind ∧
            (more = [] ∧ kind = inode ∨ more ≠ [] ∧ kind = .directory) := by
          by_cases hmore : more = []
          · exact ⟨inode, by simpa [hmore] using hinode, .inl ⟨hmore, rfl⟩⟩
          · exact ⟨.directory, isDirectory_iff.mp ((h.above hinode).1 hmore), .inr ⟨hmore, rfl⟩⟩
        obtain ⟨kind, hkind, hcases⟩ := hentered
        have hentry := h.mem_children.mpr hkind
        obtain ⟨part, hpart⟩ := exists_mapM_eq_ok_iff.mp ⟨parts, hparts⟩ _ hentry
        obtain ⟨found, rfl, hbelow⟩ := (hroot.visit_eq_ok_iff h hkind).mp hpart
        refine ⟨_, hentry, _, hpart, ?_⟩
        rcases hcases with ⟨rfl, rfl⟩ | ⟨hmore, rfl⟩
        · exact List.mem_cons_self
        · have hfound := (hbelow.resolve_right fun hfile => hfile.1 rfl).2
          rw [List.append_assoc, ← isDirectory_iff] at hkind
          refine List.mem_cons_of_mem _ ?_
          rw [List.append_cons]
          refine ih hkind hfound more hmore ?_ ?_
          · simpa using hlength
          · simpa using hinode

/-- The tree below a directory can be met down to the given depth if no directory is met under a
path that is too long. -/
theorem Opens.exists_below_iff (depth : Nat) {names : List Bytes}
    (hdirectory : d.isDirectory (place ++ names) = true) :
    (∃ found, (d.below depth (pathBelow root names)).complete = .ok found) ↔
      ∀ more, more.length < depth → d.isDirectory (place ++ names ++ more) = true →
        (pathBelow root (names ++ more)).length ≤ maxPath := by
  induction depth generalizing names with
  | zero => simp [below, Tour.complete]
  | succ depth ih =>
      have hlist := hroot.list_pathBelow h hdirectory
      constructor
      · rintro ⟨found, hfound⟩ more hlength hmore
        obtain ⟨entries, parts, hentries, hparts, -⟩ := below_succ_eq_ok_iff.mp hfound
        have hshort := short_of_list hentries
        rw [hlist hshort] at hentries
        cases hentries
        cases more with
        | nil => rwa [List.append_nil]
        | cons name more =>
            rw [List.append_cons] at hmore
            have hkind := isDirectory_iff.mp (h.isDirectory_of_append hmore)
            have hvisit := exists_mapM_eq_ok_iff.mp ⟨parts, hparts⟩ _ (h.mem_children.mpr hkind)
            have hbelow := (hroot.exists_visit_iff h hkind).mp hvisit rfl
            rw [List.append_assoc, ← isDirectory_iff] at hkind
            rw [List.append_cons]
            exact (ih hkind).mp hbelow more (by simpa using hlength) (by simpa using hmore)
      · intro hshort
        have hvisit : ∀ entry ∈ d.children (place ++ names),
            ∃ part, (d.visit depth (pathBelow root names) entry).complete = .ok part := by
          rintro ⟨name, kind⟩ hentry
          have hkind := h.mem_children.mp hentry
          rw [hroot.exists_visit_iff h hkind]
          rintro rfl
          rw [List.append_assoc, ← isDirectory_iff] at hkind
          refine (ih hkind).mpr fun more hlength hmore => ?_
          rw [← List.append_cons]
          exact hshort (name :: more) (by simpa using hlength) (by simpa using hmore)
        obtain ⟨parts, hparts⟩ := exists_mapM_eq_ok_iff.mpr hvisit
        have hhere := hshort [] (Nat.succ_pos depth) (by simpa using hdirectory)
        rw [List.append_nil] at hhere
        exact ⟨parts.flatten, below_succ_eq_ok_iff.mpr ⟨_, parts, hlist hhere, hparts, rfl⟩⟩

/-! ## Walks -/

/-- A walk meets the root and everything below it. -/
theorem Opens.mem_walk {found : List (Bytes × Inode)} (hfound : d.walk root = .ok found)
    {path : Bytes} {inode : Inode} :
    (path, inode) ∈ found ↔
      ∃ names, d.inode? (place ++ names) = some inode ∧ path = pathBelow root names := by
  have hplace : d.isDirectory (place ++ []) = true := by simpa using hroot.isDirectory
  obtain ⟨rest, hbelow, rfl⟩ := hroot.walk_eq_ok_iff.mp hfound
  rw [← pathBelow_nil root] at hbelow
  rw [List.mem_cons, hroot.mem_below h hplace hbelow]
  constructor
  · rintro (heq | ⟨names, -, -, hinode, hpath⟩)
    · cases heq
      exact ⟨[], isDirectory_iff.mp hplace, rfl⟩
    · exact ⟨names, by simpa using hinode, hpath⟩
  · rintro ⟨names, hinode, rfl⟩
    by_cases hne : names = []
    · subst hne
      rw [isDirectory_iff.mp hplace] at hinode
      cases hinode
      exact .inl rfl
    · -- No name is out of reach: a walk may go as deep as there are things on disk.
      have hlength := h.length_names_le hinode
      exact .inr ⟨names, hne, by omega, by simpa using hinode, rfl⟩

/-- Nothing is met but what is in the tree, even if the way ends early. -/
theorem Opens.exists_of_mem_tour {path : Bytes} {inode : Inode}
    (hmet : (path, inode) ∈ (d.tour root).met) :
    ∃ names, d.inode? (place ++ names) = some inode ∧ path = pathBelow root names := by
  have hplace : d.isDirectory (place ++ []) = true := by simpa using hroot.isDirectory
  rw [hroot.tour_eq] at hmet
  rcases Tour.mem_met_of_mem_andThen hmet with hhere | hbelow
  · cases List.mem_singleton.mp hhere
    exact ⟨[], isDirectory_iff.mp hplace, rfl⟩
  · rw [← pathBelow_nil root] at hbelow
    obtain ⟨names, -, -, hinode, hpath⟩ := hroot.exists_of_mem_below h hplace hbelow
    exact ⟨names, by simpa using hinode, hpath⟩

/-- A walk fails only where a directory is met under a path that is too long. -/
theorem Opens.walk_eq_error_iff :
    (∃ e, d.walk root = .error e) ↔
      ∃ names, d.isDirectory (place ++ names) = true ∧
        maxPath < (pathBelow root names).length := by
  have hplace : d.isDirectory (place ++ []) = true := by simpa using hroot.isDirectory
  have hbelow := hroot.exists_below_iff h (d.inodes.length + 1) hplace
  rw [pathBelow_nil] at hbelow
  have herror : (∃ e, d.walk root = .error e) ↔
      ¬ ∃ found, (d.below (d.inodes.length + 1) root).complete = .ok found := by
    simp [exists_error_iff, hroot.walk_eq_ok_iff]
  rw [herror, hbelow]
  simp only [List.append_nil, List.nil_append, not_forall, Nat.not_le]
  constructor
  · rintro ⟨names, -, hdirectory, hlong⟩
    exact ⟨names, hdirectory, hlong⟩
  · rintro ⟨names, hdirectory, hlong⟩
    have hlength := h.length_names_le (isDirectory_iff.mp hdirectory)
    exact ⟨names, by omega, hdirectory, hlong⟩

end Walk

/-! ## Roots that open -/

/-- A path without links leads to the place of its absolute form, whether or not a link at its end
is followed. -/
theorem IsTree.locate_of_isLinkFree (h : d.IsTree) {path : Bytes} (hlink : d.IsLinkFree path)
    {place : Place} (hlocate : d.locate true path = .ok place) (follow : Bool) :
    place = d.named path ∧ d.locate follow path = .ok place := by
  obtain ⟨hne, hnul, hlength, hresolve⟩ := resolve_of_locate hlocate
  obtain ⟨left, hleads⟩ := exists_leads hresolve
  rw [h.named_eq, locate_eq_resolve hne hnul hlength]
  exact hleads.resolve_of_meetsNoLink hlink follow

/-- A path without links that leads to a directory opens it. -/
theorem IsTree.opens_of_isLinkFree (h : d.IsTree) {root : Bytes} (hlink : d.IsLinkFree root)
    (hstat : d.stat root = .ok .directory) : d.Opens root (d.named root) := by
  obtain ⟨place, hlocate, hdirectory⟩ := stat_eq_directory_iff.mp hstat
  obtain ⟨rfl, -⟩ := h.locate_of_isLinkFree hlink hlocate true
  refine ⟨fun follow => (h.locate_of_isLinkFree hlink hlocate follow).2, hdirectory, maxLinks, ?_⟩
  exact h.leads_cleanSegments hdirectory maxLinks

/-- A path without `..` that leads to a directory opens it, unless it ends in a link. -/
theorem opens_of_dotdot_notMem {root : Bytes} {place : Place}
    (hup : Path.dotdot ∉ Bytes.split Path.slash root)
    (hlocate : ∀ follow, d.locate follow root = .ok place)
    (hdirectory : d.isDirectory place = true) : d.Opens root place := by
  obtain ⟨-, -, -, hresolve⟩ := resolve_of_locate (hlocate true)
  obtain ⟨left, hleads⟩ := exists_leads hresolve
  refine ⟨hlocate, hdirectory, left, ?_⟩
  rw [Path.cleanSegments_of_dotdot_notMem hup]
  exact hleads.filter_skip []

/-- The path of a directory opens it, unless it is too long. -/
theorem IsTree.opens_ofSegments (h : d.IsTree) {place : Place}
    (hdirectory : d.isDirectory place = true)
    (hshort : (Path.ofSegments true place).length ≤ maxPath) :
    d.Opens (Path.ofSegments true place) place := by
  have hentries := h.isEntryName_of_mem (isDirectory_iff.mp hdirectory)
  have hnames := h.isName_of_mem (isDirectory_iff.mp hdirectory)
  have horigin : d.origin (Path.ofSegments true place) = [] := by
    rw [origin, if_pos (Path.isRooted_ofSegments place)]
  have hleads : d.Leads maxLinks [] place place maxLinks := h.leads_names hdirectory
  have hlink : d.MeetsNoLink [] place := h.meetsNoLink_names hdirectory
  have hsplit : d.Leads maxLinks [] (Bytes.split Path.slash (Path.ofSegments true place)) place
      maxLinks ∧ d.MeetsNoLink [] (Bytes.split Path.slash (Path.ofSegments true place)) := by
    by_cases hne : place = []
    · subst hne
      have hroot : Bytes.split Path.slash (Path.ofSegments true []) = [[], []] := by decide
      rw [hroot]
      refine ⟨.skip isDirectory_nil (.inl rfl) (.skip isDirectory_nil (.inl rfl) hleads), ?_⟩
      exact (hlink.cons_of_skip (.inl rfl)).cons_of_skip (.inl rfl)
    · have hslash : ∀ name ∈ place, Path.slash ∉ name := fun name hname =>
        (hnames name hname).slash_notMem
      refine ⟨hleads.split_ofSegments isDirectory_nil hne hslash true, ?_⟩
      rw [Path.ofSegments, if_pos rfl, Bytes.split_cons, if_pos rfl, Bytes.split_join hne hslash]
      exact hlink.cons_of_skip (.inl rfl)
  refine ⟨fun follow => ?_, hdirectory, maxLinks, ?_⟩
  · have hnul := nul_notMem_ofSegments true fun name hname => (hentries name hname).nul_notMem
    have hne : Path.ofSegments true place ≠ [] := List.cons_ne_nil _ _
    rw [locate_eq_resolve hne hnul hshort, horigin]
    exact (hsplit.1.resolve_of_meetsNoLink hsplit.2 follow).2
  · rwa [horigin, Path.cleanSegments_ofSegments hnames]

/-! ## Trees at a place -/

/-- Whether the tree at a place can be walked: no directory in it has a path that is too long. -/
def IsWalkable (d : Disk) (place : Place) : Prop :=
  ∀ names, d.isDirectory (place ++ names) = true →
    (Path.ofSegments true (place ++ names)).length ≤ maxPath

/-- Whether the tree at a place can be watched: it can be walked, and the system refuses none of the
directories in it. -/
structure IsWatchable (d : Disk) (place : Place) : Prop where
  isWalkable : d.IsWalkable place
  lookup_refusals : ∀ names, d.isDirectory (place ++ names) = true →
    d.refusals.lookup (Path.ofSegments true (place ++ names)) = none

namespace IsTree

variable (h : d.IsTree) {place : Place} (hdirectory : d.isDirectory place = true)

include h

theorem pathBelow_eq_ofSegments {names : List Bytes} {inode : Inode}
    (hinode : d.inode? (place ++ names) = some inode) :
    pathBelow (Path.ofSegments true place) names = Path.ofSegments true (place ++ names) :=
  pathBelow_ofSegments (h.isName_of_mem hinode)

include hdirectory

theorem exists_walk_iff_isWalkable :
    (∃ found, d.walk (Path.ofSegments true place) = .ok found) ↔ d.IsWalkable place := by
  constructor
  · rintro ⟨found, hwalk⟩ names hnames
    by_contra hlong
    have hopens := h.opens_ofSegments hdirectory (short_of_walk hwalk)
    rw [← h.pathBelow_eq_ofSegments (isDirectory_iff.mp hnames), Nat.not_le] at hlong
    obtain ⟨e, herror⟩ := (hopens.walk_eq_error_iff h).mpr ⟨names, hnames, hlong⟩
    rw [hwalk] at herror
    cases herror
  · intro hwalkable
    have hshort := hwalkable [] (by rwa [List.append_nil])
    rw [List.append_nil] at hshort
    have hopens := h.opens_ofSegments hdirectory hshort
    cases hwalk : d.walk (Path.ofSegments true place) with
    | ok found => exact ⟨found, rfl⟩
    | error e =>
        obtain ⟨names, hnames, hlong⟩ := (hopens.walk_eq_error_iff h).mp ⟨e, hwalk⟩
        rw [h.pathBelow_eq_ofSegments (isDirectory_iff.mp hnames)] at hlong
        exact absurd (hwalkable names hnames) (Nat.not_le.mpr hlong)

/-- A walk meets the directories at and below its place by their paths. -/
theorem directory_mem_walk_iff {found : List (Bytes × Inode)}
    (hwalk : d.walk (Path.ofSegments true place) = .ok found) {path : Bytes} :
    (path, .directory) ∈ found ↔
      ∃ names, d.isDirectory (place ++ names) = true ∧
        path = Path.ofSegments true (place ++ names) := by
  have hopens := h.opens_ofSegments hdirectory (short_of_walk hwalk)
  rw [hopens.mem_walk h hwalk]
  refine exists_congr fun names => ?_
  rw [isDirectory_iff]
  refine and_congr_right fun hnames => ?_
  rw [h.pathBelow_eq_ofSegments hnames]

/-- Only the directories at and below its place are met on a tour, by their paths. -/
theorem exists_of_directory_mem_tour
    (hshort : (Path.ofSegments true place).length ≤ maxPath) {path : Bytes}
    (hmet : (path, .directory) ∈ (d.tour (Path.ofSegments true place)).met) :
    ∃ names, d.isDirectory (place ++ names) = true ∧
      path = Path.ofSegments true (place ++ names) := by
  obtain ⟨names, hnames, hpath⟩ := (h.opens_ofSegments hdirectory hshort).exists_of_mem_tour h hmet
  rw [h.pathBelow_eq_ofSegments hnames] at hpath
  exact ⟨names, isDirectory_iff.mpr hnames, hpath⟩

omit hdirectory in
theorem watchError?_eq_none (hwatchable : d.IsWatchable place) {names : List Bytes}
    (hnames : d.isDirectory (place ++ names) = true) :
    d.watchError? (Path.ofSegments true (place ++ names)) = none := by
  have hopens := h.opens_ofSegments hnames (hwatchable.isWalkable names hnames)
  simp only [watchError?, hopens.locate true, hwatchable.lookup_refusals names hnames]

end IsTree

end Disk

end DefinitionFiles
