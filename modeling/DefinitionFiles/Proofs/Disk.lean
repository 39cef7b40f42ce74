import DefinitionFiles.Disk
import DefinitionFiles.Proofs.Path.Segments
import Mathlib.Data.List.Infix
import Mathlib.Data.List.Nodup
import Mathlib.Data.List.Perm.Subperm

/-!
# File trees

On a disk that holds a file tree everything stands in a directory, so that everything above a place
is a directory. A path is followed segment by segment, and what it leads to is followed further
from there. As long as no link is met, a path leads where it says lexically, and so does its cleaned
form; a path without `..` leads to the same place as its cleaned form even through links.
-/

namespace DefinitionFiles.Disk

/-- A name that something on disk can have. -/
structure IsEntryName (name : Bytes) : Prop extends Path.IsName name where
  nul_notMem : 0 ∉ name
  length_le : name.length ≤ maxName

instance (name : Bytes) : Decidable (IsEntryName name) :=
  decidable_of_iff
    (name ≠ [] ∧ name ≠ Path.dot ∧ name ≠ Path.dotdot ∧ Path.slash ∉ name ∧ 0 ∉ name ∧
      name.length ≤ maxName)
    ⟨fun ⟨hnil, hdot, hdotdot, hslash, hnul, hlength⟩ =>
      ⟨⟨hnil, hdot, hdotdot, hslash⟩, hnul, hlength⟩,
    fun h => ⟨h.ne_nil, h.ne_dot, h.ne_dotdot, h.slash_notMem, h.nul_notMem, h.length_le⟩⟩

/-- Whether what is listed makes up a file tree that the working directory belongs to. -/
structure IsTree (d : Disk) : Prop where
  /-- No two things stand at one place. -/
  nodup : (d.inodes.map Prod.fst).Nodup
  /-- The root is not listed. -/
  ne_nil : ∀ place ∈ d.inodes.map Prod.fst, place ≠ []
  /-- Whatever is listed stands in a directory. -/
  parent : ∀ place ∈ d.inodes.map Prod.fst, d.isDirectory place.dropLast = true
  /-- Whatever is listed has a name that it can have. -/
  name : ∀ place ∈ d.inodes.map Prod.fst, ∀ name ∈ place.getLast?, IsEntryName name
  cwd_rooted : Path.isRooted d.cwd = true
  cwd_directory : d.isDirectory (Path.cleanSegments d.cwd) = true

instance (d : Disk) : Decidable d.IsTree :=
  decidable_of_iff
    ((d.inodes.map Prod.fst).Nodup ∧ (∀ place ∈ d.inodes.map Prod.fst, place ≠ []) ∧
      (∀ place ∈ d.inodes.map Prod.fst, d.isDirectory place.dropLast = true) ∧
      (∀ place ∈ d.inodes.map Prod.fst, ∀ name ∈ place.getLast?, IsEntryName name) ∧
      Path.isRooted d.cwd = true ∧ d.isDirectory (Path.cleanSegments d.cwd) = true)
    ⟨fun ⟨hnodup, hnil, hparent, hname, hrooted, hcwd⟩ =>
      ⟨hnodup, hnil, hparent, hname, hrooted, hcwd⟩,
    fun h => ⟨h.nodup, h.ne_nil, h.parent, h.name, h.cwd_rooted, h.cwd_directory⟩⟩

/-- A segment that is looked up in the directory it follows. -/
structure IsLookup (segment : Bytes) : Prop where
  ne_nil : segment ≠ []
  ne_dot : segment ≠ Path.dot
  ne_dotdot : segment ≠ Path.dotdot
  length_le : segment.length ≤ maxName

/-- How segments lead from one place to another, following every link. The numbers are those of the
links that may be followed before and after. -/
inductive Leads (d : Disk) : Nat → Place → List Bytes → Place → Nat → Prop where
  | done {links : Nat} {here : Place} : Leads d links here [] here links
  | skip {links left : Nat} {here place : Place} {segment : Bytes} {rest : List Bytes}
      (hhere : d.isDirectory here = true) (hskip : segment = [] ∨ segment = Path.dot)
      (hrest : Leads d links here rest place left) : Leads d links here (segment :: rest) place left
  | up {links left : Nat} {here place : Place} {rest : List Bytes}
      (hhere : d.isDirectory here = true) (hrest : Leads d links here.dropLast rest place left) :
      Leads d links here (Path.dotdot :: rest) place left
  | enter {links left : Nat} {here place : Place} {segment : Bytes} {rest : List Bytes}
      {inode : Inode} (hhere : d.isDirectory here = true) (hsegment : IsLookup segment)
      (hinode : d.inode? (here ++ [segment]) = some inode)
      (hlink : ∀ target, inode ≠ .link target)
      (hrest : Leads d links (here ++ [segment]) rest place left) :
      Leads d links here (segment :: rest) place left
  | follow {links left : Nat} {here place : Place} {segment target : Bytes} {rest : List Bytes}
      (hhere : d.isDirectory here = true) (hsegment : IsLookup segment)
      (hinode : d.inode? (here ++ [segment]) = some (.link target))
      (hrest : Leads d links (if Path.isRooted target then [] else here)
        (Bytes.split Path.slash target ++ rest) place left) :
      Leads d (links + 1) here (segment :: rest) place left

/-- Where the segments of a path start. -/
def origin (d : Disk) (path : Bytes) : Place :=
  if Path.isRooted path then [] else Path.cleanSegments d.cwd

/-- Whether a place is a link. -/
def isLink (d : Disk) (place : Place) : Bool :=
  match d.inode? place with
  | some (.link _) => true
  | _ => false

/-- Whether no link stands at any of the places that segments lead through. -/
def MeetsNoLink (d : Disk) (here : Place) (segments : List Bytes) : Prop :=
  ∀ before ∈ segments.inits, d.isLink (before.foldl Path.descend here) = false

/-- Whether a path has no symbolic link in it. -/
def IsLinkFree (d : Disk) (path : Bytes) : Prop :=
  d.MeetsNoLink (d.origin path) (Bytes.split Path.slash path)

instance (d : Disk) (path : Bytes) : Decidable (d.IsLinkFree path) :=
  inferInstanceAs (Decidable (∀ before ∈ (Bytes.split Path.slash path).inits,
    d.isLink (before.foldl Path.descend (d.origin path)) = false))

/-- The place of the absolute form of a path. -/
def named (d : Disk) (path : Bytes) : Place :=
  Path.cleanSegments (Path.absolute d.cwd path)

variable {d : Disk}

/-! ## Places -/

@[simp]
theorem isDirectory_nil : d.isDirectory [] = true := by
  simp [isDirectory, inode?]

theorem isDirectory_iff {place : Place} :
    d.isDirectory place = true ↔ d.inode? place = some .directory := by
  simp [isDirectory]

namespace IsTree

variable (h : d.IsTree)

include h

theorem inode?_eq_some_iff {place : Place} (hne : place ≠ []) {inode : Inode} :
    d.inode? place = some inode ↔ (place, inode) ∈ d.inodes := by
  rw [inode?, if_neg hne, List.lookup_eq_some_iff]
  constructor
  · rintro ⟨before, after, heq, -⟩
    rw [heq]
    exact List.mem_append_right _ List.mem_cons_self
  · intro hmem
    obtain ⟨before, after, heq⟩ := List.append_of_mem hmem
    refine ⟨before, after, heq, ?_⟩
    have hnodup := h.nodup
    rw [heq, List.map_append, List.map_cons, List.nodup_middle, List.nodup_cons] at hnodup
    intro other hother
    rw [bne_iff_ne]
    intro hsame
    have hmap : other.1 ∈ before.map Prod.fst := List.mem_map_of_mem hother
    exact hnodup.1 (List.mem_append_left _ (hsame ▸ hmap))

theorem mem_places {place : Place} (hne : place ≠ []) {inode : Inode}
    (hinode : d.inode? place = some inode) : place ∈ d.inodes.map Prod.fst :=
  List.mem_map_of_mem ((h.inode?_eq_some_iff hne).mp hinode)

theorem isDirectory_of_concat {place : Place} {name : Bytes} {inode : Inode}
    (hinode : d.inode? (place ++ [name]) = some inode) :
    d.isDirectory place = true ∧ IsEntryName name := by
  have hmem := h.mem_places (List.append_ne_nil_of_right_ne_nil _ (List.cons_ne_nil _ _)) hinode
  have hparent := h.parent _ hmem
  have hname := h.name _ hmem name
  rw [List.dropLast_concat] at hparent
  rw [List.getLast?_concat] at hname
  exact ⟨hparent, hname rfl⟩

/-- Above a place there are only directories, and its names can all be had. -/
theorem above {place : Place} {names : List Bytes} {inode : Inode}
    (hinode : d.inode? (place ++ names) = some inode) :
    (names ≠ [] → d.isDirectory place = true) ∧ ∀ name ∈ names, IsEntryName name := by
  induction names using List.reverseRecOn generalizing inode with
  | nil => exact ⟨fun hne => absurd rfl hne, fun _ hnil => absurd hnil List.not_mem_nil⟩
  | append_singleton names name ih =>
      rw [← List.append_assoc] at hinode
      obtain ⟨hdirectory, hname⟩ := h.isDirectory_of_concat hinode
      obtain ⟨habove, hnames⟩ := ih (isDirectory_iff.mp hdirectory)
      refine ⟨fun _ => ?_, ?_⟩
      · by_cases hne : names = []
        · rwa [hne, List.append_nil] at hdirectory
        · exact habove hne
      · intro other hother
        rcases List.mem_append.mp hother with hmem | hmem
        · exact hnames other hmem
        · rwa [List.mem_singleton.mp hmem]

theorem isDirectory_of_append {place : Place} {names : List Bytes}
    (hdirectory : d.isDirectory (place ++ names) = true) : d.isDirectory place = true := by
  by_cases hne : names = []
  · rwa [hne, List.append_nil] at hdirectory
  · exact (h.above (isDirectory_iff.mp hdirectory)).1 hne

theorem isDirectory_dropLast {place : Place} (hdirectory : d.isDirectory place = true) :
    d.isDirectory place.dropLast = true := by
  cases place using List.reverseRecOn with
  | nil => exact isDirectory_nil
  | append_singleton place name =>
      rw [List.dropLast_concat]
      exact h.isDirectory_of_append hdirectory

theorem isEntryName_of_mem {place : Place} {inode : Inode} (hinode : d.inode? place = some inode) :
    ∀ name ∈ place, IsEntryName name := by
  rw [← List.nil_append place] at hinode
  exact (h.above hinode).2

theorem isName_of_mem {place : Place} {inode : Inode} (hinode : d.inode? place = some inode) :
    ∀ name ∈ place, Path.IsName name :=
  fun name hname => (h.isEntryName_of_mem hinode name hname).toIsName

/-- A place is not deeper than there are things on disk. -/
theorem length_le {place : Place} {inode : Inode} (hinode : d.inode? place = some inode) :
    place.length ≤ d.inodes.length := by
  let above := (List.range place.length).map fun n => place.take (n + 1)
  have hnodup : above.Nodup := by
    refine List.Nodup.map_on ?_ List.nodup_range
    intro m hm n hn heq
    have hlength := congrArg List.length heq
    rw [List.mem_range] at hm hn
    simp only [List.length_take] at hlength
    omega
  have hsubset : above ⊆ d.inodes.map Prod.fst := by
    intro outer houter
    obtain ⟨n, hn, rfl⟩ := List.mem_map.mp houter
    have hne : place.take (n + 1) ≠ [] := by
      rw [List.mem_range] at hn
      apply List.ne_nil_of_length_pos
      rw [List.length_take]
      omega
    rw [← List.take_append_drop (n + 1) place] at hinode
    by_cases hdrop : place.drop (n + 1) = []
    · rw [hdrop, List.append_nil] at hinode
      exact h.mem_places hne hinode
    · exact h.mem_places hne (isDirectory_iff.mp ((h.above hinode).1 hdrop))
  have hle := (List.subperm_of_subset hnodup hsubset).length_le
  simpa [above] using hle

end IsTree

/-! ## Following segments -/

theorem IsEntryName.isLookup {name : Bytes} (h : IsEntryName name) : IsLookup name :=
  ⟨h.ne_nil, h.ne_dot, h.ne_dotdot, h.length_le⟩

theorem resolve_nil (follow : Bool) (links : Nat) (here : Place) :
    d.resolve follow links here [] = .ok here := by
  cases links <;> rfl

theorem resolve_skip {follow : Bool} {links : Nat} {here : Place}
    (hhere : d.isDirectory here = true) {segment : Bytes} (h : segment = [] ∨ segment = Path.dot)
    (rest : List Bytes) :
    d.resolve follow links here (segment :: rest) = d.resolve follow links here rest := by
  have hskip : (segment = [] || segment = Path.dot) = true := by simpa using h
  cases links <;> simp [resolve, resolveBy, hhere, hskip]

theorem resolve_dotdot {follow : Bool} {links : Nat} {here : Place}
    (hhere : d.isDirectory here = true) (rest : List Bytes) :
    d.resolve follow links here (Path.dotdot :: rest) =
      d.resolve follow links here.dropLast rest := by
  cases links <;> simp [resolve, resolveBy, hhere]

section Lookup

variable {follow : Bool} {links : Nat} {here : Place} (hhere : d.isDirectory here = true)
  {segment : Bytes} (h : IsLookup segment)

include hhere h

theorem IsLookup.resolveBy_enter {inode : Inode}
    (hinode : d.inode? (here ++ [segment]) = some inode) (hlink : ∀ target, inode ≠ .link target)
    (jump : Place → List Bytes → Except DiskError Place) (rest : List Bytes) :
    d.resolveBy follow jump here (segment :: rest) =
      d.resolveBy follow jump (here ++ [segment]) rest := by
  have hshort : ¬ maxName < segment.length := Nat.not_lt.mpr h.length_le
  cases inode with
  | link target => exact absurd rfl (hlink target)
  | file | directory =>
      simp [resolveBy, hhere, h.ne_nil, h.ne_dot, h.ne_dotdot, hshort, hinode]

theorem IsLookup.resolveBy_link {target : Bytes}
    (hinode : d.inode? (here ++ [segment]) = some (.link target))
    (jump : Place → List Bytes → Except DiskError Place) (rest : List Bytes) :
    d.resolveBy follow jump here (segment :: rest) =
      if rest = [] && !follow then .ok (here ++ [segment])
      else jump (if Path.isRooted target then [] else here)
        (Bytes.split Path.slash target ++ rest) := by
  have hshort : ¬ maxName < segment.length := Nat.not_lt.mpr h.length_le
  simp [resolveBy, hhere, h.ne_nil, h.ne_dot, h.ne_dotdot, hshort, hinode]

theorem IsLookup.resolve_enter {inode : Inode} (hinode : d.inode? (here ++ [segment]) = some inode)
    (hlink : ∀ target, inode ≠ .link target) (rest : List Bytes) :
    d.resolve follow links here (segment :: rest) =
      d.resolve follow links (here ++ [segment]) rest := by
  cases links with
  | zero | succ => exact h.resolveBy_enter hhere hinode hlink _ rest

theorem IsLookup.resolve_follow {target : Bytes}
    (hinode : d.inode? (here ++ [segment]) = some (.link target)) {rest : List Bytes}
    (hfollow : follow = true ∨ rest ≠ []) :
    d.resolve follow (links + 1) here (segment :: rest) =
      d.resolve follow links (if Path.isRooted target then [] else here)
        (Bytes.split Path.slash target ++ rest) := by
  rw [resolve, h.resolveBy_link hhere hinode]
  rcases hfollow with rfl | hrest
  · simp
  · simp [hrest]

theorem IsLookup.resolve_keep {target : Bytes}
    (hinode : d.inode? (here ++ [segment]) = some (.link target)) :
    d.resolve false links here [segment] = .ok (here ++ [segment]) := by
  cases links with
  | zero | succ => exact h.resolveBy_link hhere hinode _ []

end Lookup

theorem Leads.resolve_eq {links left : Nat} {here place : Place} {segments : List Bytes}
    (h : d.Leads links here segments place left) :
    d.resolve true links here segments = .ok place := by
  induction h with
  | done => exact resolve_nil _ _ _
  | skip hhere hskip _ ih => rw [resolve_skip hhere hskip, ih]
  | up hhere _ ih => rw [resolve_dotdot hhere, ih]
  | enter hhere hsegment hinode hlink _ ih =>
      rw [hsegment.resolve_enter hhere hinode hlink, ih]
  | follow hhere hsegment hinode _ ih =>
      rw [hsegment.resolve_follow hhere hinode (.inl rfl), ih]

/-- Segments lead where they are followed to, if what goes on at a link does so with one link
less. -/
theorem exists_leads_of_resolveBy {links : Nat} {here place : Place} {segments : List Bytes}
    {jump : Place → List Bytes → Except DiskError Place}
    (hjump : ∀ here segments place, jump here segments = .ok place →
      ∃ fewer left, links = fewer + 1 ∧ d.Leads fewer here segments place left)
    (h : d.resolveBy true jump here segments = .ok place) :
    ∃ left, d.Leads links here segments place left := by
  fun_induction d.resolveBy true jump here segments with
  | case1 here =>
      cases h
      exact ⟨links, .done⟩
  | case3 here segment rest hhere hskip ih =>
      obtain ⟨left, hleads⟩ := ih h
      exact ⟨left, .skip (by simpa using hhere) (by simpa using hskip) hleads⟩
  | case4 here rest hhere _ ih =>
      obtain ⟨left, hleads⟩ := ih h
      exact ⟨left, .up (by simpa using hhere) hleads⟩
  | case8 here segment rest hhere hskip hup hshort target hinode _ =>
      obtain ⟨fewer, left, rfl, hleads⟩ := hjump _ _ _ h
      have hsegment : segment ≠ [] ∧ segment ≠ Path.dot := by simpa using hskip
      exact ⟨left, .follow (by simpa using hhere)
        ⟨hsegment.1, hsegment.2, hup, Nat.not_lt.mp hshort⟩ hinode hleads⟩
  | case9 here segment rest hhere hskip hup hshort inode hlink hinode ih =>
      obtain ⟨left, hleads⟩ := ih h
      have hsegment : segment ≠ [] ∧ segment ≠ Path.dot := by simpa using hskip
      exact ⟨left, .enter (by simpa using hhere)
        ⟨hsegment.1, hsegment.2, hup, Nat.not_lt.mp hshort⟩ hinode hlink hleads⟩
  | case7 _ _ _ _ _ _ _ _ _ hlast => simp at hlast
  | case2 | case5 | case6 => cases h

theorem exists_leads {links : Nat} {here place : Place} {segments : List Bytes}
    (h : d.resolve true links here segments = .ok place) :
    ∃ left, d.Leads links here segments place left := by
  induction links generalizing here segments place with
  | zero =>
      refine exists_leads_of_resolveBy ?_ h
      intro _ _ _ hnone
      cases hnone
  | succ links ih =>
      refine exists_leads_of_resolveBy ?_ h
      intro here segments place hresolve
      obtain ⟨left, hleads⟩ := ih hresolve
      exact ⟨links, left, rfl, hleads⟩

namespace Leads

theorem append {links middle left : Nat} {here through place : Place} {front rest : List Bytes}
    (h : d.Leads links here front through middle) (hrest : d.Leads middle through rest place left) :
    d.Leads links here (front ++ rest) place left := by
  induction h with
  | done => exact hrest
  | skip hhere hskip _ ih => exact .skip hhere hskip (ih hrest)
  | up hhere _ ih => exact .up hhere (ih hrest)
  | enter hhere hsegment hinode hlink _ ih => exact .enter hhere hsegment hinode hlink (ih hrest)
  | follow hhere hsegment hinode _ ih =>
      have happend := ih hrest
      rw [List.append_assoc] at happend
      exact .follow hhere hsegment hinode happend

theorem exists_of_append {links left : Nat} {here place : Place} {front rest : List Bytes}
    (h : d.Leads links here (front ++ rest) place left) :
    ∃ through middle, d.Leads links here front through middle ∧
      d.Leads middle through rest place left := by
  generalize hsegments : front ++ rest = segments at h
  induction h generalizing front with
  | @done links here =>
      obtain ⟨rfl, rfl⟩ := List.append_eq_nil_iff.mp hsegments
      exact ⟨here, links, .done, .done⟩
  | @skip links left here place segment tail hhere hskip htail ih =>
      rcases List.append_eq_cons_iff.mp hsegments with ⟨rfl, rfl⟩ | ⟨front, rfl, rfl⟩
      · exact ⟨here, links, .done, .skip hhere hskip htail⟩
      · obtain ⟨through, middle, hfront, hrest⟩ := ih rfl
        exact ⟨through, middle, .skip hhere hskip hfront, hrest⟩
  | @up links left here place tail hhere htail ih =>
      rcases List.append_eq_cons_iff.mp hsegments with ⟨rfl, rfl⟩ | ⟨front, rfl, rfl⟩
      · exact ⟨here, links, .done, .up hhere htail⟩
      · obtain ⟨through, middle, hfront, hrest⟩ := ih rfl
        exact ⟨through, middle, .up hhere hfront, hrest⟩
  | @enter links left here place segment tail inode hhere hsegment hinode hlink htail ih =>
      rcases List.append_eq_cons_iff.mp hsegments with ⟨rfl, rfl⟩ | ⟨front, rfl, rfl⟩
      · exact ⟨here, links, .done, .enter hhere hsegment hinode hlink htail⟩
      · obtain ⟨through, middle, hfront, hrest⟩ := ih rfl
        exact ⟨through, middle, .enter hhere hsegment hinode hlink hfront, hrest⟩
  | @follow links left here place segment target tail hhere hsegment hinode htail ih =>
      rcases List.append_eq_cons_iff.mp hsegments with ⟨rfl, rfl⟩ | ⟨front, rfl, rfl⟩
      · exact ⟨here, links + 1, .done, .follow hhere hsegment hinode htail⟩
      · obtain ⟨through, middle, hfront, hrest⟩ := ih (List.append_assoc _ _ _)
        exact ⟨through, middle, .follow hhere hsegment hinode hfront, hrest⟩

theorem filter_skip {links left : Nat} {here place : Place} (front : List Bytes)
    {segments : List Bytes} (h : d.Leads links here (front ++ segments) place left) :
    d.Leads links here (front ++ segments.filter fun segment => segment ≠ [] ∧ segment ≠ Path.dot)
      place left := by
  induction segments generalizing front with
  | nil => exact h
  | cons segment rest ih =>
      by_cases hskip : segment = [] ∨ segment = Path.dot
      · have hfilter : (segment :: rest).filter (fun s => s ≠ [] ∧ s ≠ Path.dot) =
            rest.filter fun s => s ≠ [] ∧ s ≠ Path.dot := by
          rcases hskip with rfl | rfl <;> rfl
        rw [hfilter]
        apply ih
        obtain ⟨through, middle, hfront, hrest⟩ := h.exists_of_append
        refine hfront.append ?_
        cases hrest with
        | skip _ _ hrest => exact hrest
        | up => simp at hskip
        | enter _ hsegment => exact absurd hskip (not_or.mpr ⟨hsegment.ne_nil, hsegment.ne_dot⟩)
        | follow _ hsegment => exact absurd hskip (not_or.mpr ⟨hsegment.ne_nil, hsegment.ne_dot⟩)
      · have hfilter : (segment :: rest).filter (fun s => s ≠ [] ∧ s ≠ Path.dot) =
            segment :: rest.filter fun s => s ≠ [] ∧ s ≠ Path.dot := by
          rw [List.filter_cons_of_pos]
          simpa using hskip
        rw [hfilter, List.append_cons]
        apply ih
        rwa [← List.append_cons]

end Leads

/-! ## Paths without links -/

theorem MeetsNoLink.of_cons {here : Place} {segment : Bytes} {rest : List Bytes}
    (h : d.MeetsNoLink here (segment :: rest)) : d.MeetsNoLink (Path.descend here segment) rest := by
  intro before hbefore
  apply h (segment :: before)
  rw [List.mem_inits] at hbefore ⊢
  exact (List.prefix_cons_inj segment).mpr hbefore

theorem MeetsNoLink.isLink_eq {here : Place} {segment : Bytes} {rest : List Bytes}
    (h : d.MeetsNoLink here (segment :: rest)) : d.isLink (Path.descend here segment) = false := by
  apply h [segment]
  rw [List.mem_inits]
  exact ⟨rest, rfl⟩

theorem MeetsNoLink.cons_of_skip {here : Place} {segment : Bytes} {rest : List Bytes}
    (h : d.MeetsNoLink here rest) (hskip : segment = [] ∨ segment = Path.dot) :
    d.MeetsNoLink here (segment :: rest) := by
  intro before hbefore
  rw [List.mem_inits, List.prefix_cons_iff] at hbefore
  rcases hbefore with rfl | ⟨before, rfl, hbefore⟩
  · exact h [] ((List.mem_inits _ _).mpr List.nil_prefix)
  · rw [List.foldl_cons, Path.descend_of_skip hskip]
    exact h before ((List.mem_inits _ _).mpr hbefore)

theorem isLink_of_isDirectory {place : Place} (h : d.isDirectory place = true) :
    d.isLink place = false := by
  rw [isLink, isDirectory_iff.mp h]

theorem isLinkFree_of_forall (h : ∀ place ∈ d.inodes.map Prod.fst, d.isLink place = false)
    (path : Bytes) : d.IsLinkFree path := by
  intro before _
  by_cases hmem : before.foldl Path.descend (d.origin path) ∈ d.inodes.map Prod.fst
  · exact h _ hmem
  · have hnone : d.inodes.lookup (before.foldl Path.descend (d.origin path)) = none := by
      rw [List.lookup_eq_none_iff]
      intro entry hentry
      rw [bne_iff_ne]
      exact fun heq => hmem (heq ▸ List.mem_map_of_mem hentry)
    unfold isLink inode?
    split_ifs
    · rfl
    · rw [hnone]

theorem IsLookup.descend_eq {segment : Bytes} (h : IsLookup segment) (here : Place) :
    Path.descend here segment = here ++ [segment] := by
  simp [Path.descend, h.ne_nil, h.ne_dot, h.ne_dotdot]

/-- Without links segments lead where they say, whether or not a link at the end is followed. -/
theorem Leads.resolve_of_meetsNoLink {links left : Nat} {here place : Place}
    {segments : List Bytes} (h : d.Leads links here segments place left)
    (hlink : d.MeetsNoLink here segments) (follow : Bool) :
    place = segments.foldl Path.descend here ∧
      d.resolve follow links here segments = .ok place := by
  induction h with
  | done => exact ⟨rfl, resolve_nil _ _ _⟩
  | skip hhere hskip _ ih =>
      have hrest := hlink.of_cons
      rw [Path.descend_of_skip hskip] at hrest
      rw [List.foldl_cons, Path.descend_of_skip hskip, resolve_skip hhere hskip]
      exact ih hrest
  | up hhere _ ih =>
      rw [resolve_dotdot hhere]
      exact ih hlink.of_cons
  | enter hhere hsegment hinode hkind _ ih =>
      have hrest := hlink.of_cons
      rw [hsegment.descend_eq] at hrest
      rw [List.foldl_cons, hsegment.descend_eq, hsegment.resolve_enter hhere hinode hkind]
      exact ih hrest
  | follow _ hsegment hinode =>
      have hmet := hlink.isLink_eq
      rw [hsegment.descend_eq, isLink, hinode] at hmet
      cases hmet

/-- A path that leads somewhere leads to the same place if a link at its end is not followed,
unless there is one. -/
theorem Leads.exists_resolve {links left : Nat} {here place : Place} {segments : List Bytes}
    (h : d.Leads links here segments place left) :
    d.resolve false links here segments = .ok place ∨
      ∃ link target, d.resolve false links here segments = .ok link ∧
        d.inode? link = some (.link target) := by
  induction h with
  | done => exact .inl (resolve_nil _ _ _)
  | skip hhere hskip _ ih => rwa [resolve_skip hhere hskip]
  | up hhere _ ih => rwa [resolve_dotdot hhere]
  | enter hhere hsegment hinode hlink _ ih => rwa [hsegment.resolve_enter hhere hinode hlink]
  | @follow _ _ here _ segment target rest hhere hsegment hinode _ ih =>
      by_cases hrest : rest = []
      · subst hrest
        exact .inr ⟨here ++ [segment], target, hsegment.resolve_keep hhere hinode, hinode⟩
      · rwa [hsegment.resolve_follow hhere hinode (.inr hrest)]

/-! ## Trees -/

namespace IsTree

variable (h : d.IsTree)

include h

theorem isDirectory_origin (path : Bytes) : d.isDirectory (d.origin path) = true := by
  unfold origin
  split
  next => exact isDirectory_nil
  next => exact h.cwd_directory

theorem leads_names {links : Nat} {here : Place} {names : List Bytes}
    (hdirectory : d.isDirectory (here ++ names) = true) :
    d.Leads links here names (here ++ names) links := by
  induction names generalizing here with
  | nil =>
      rw [List.append_nil]
      exact .done
  | cons name names ih =>
      rw [List.append_cons] at hdirectory ⊢
      have hentered := isDirectory_iff.mp (h.isDirectory_of_append hdirectory)
      obtain ⟨hhere, hname⟩ := h.isDirectory_of_concat hentered
      exact .enter hhere hname.isLookup hentered (fun _ => nofun) (ih hdirectory)

/-- On the way to a directory there are only directories. -/
theorem meetsNoLink_names {here : Place} {names : List Bytes}
    (hdirectory : d.isDirectory (here ++ names) = true) : d.MeetsNoLink here names := by
  intro before hbefore
  obtain ⟨after, rfl⟩ := (List.mem_inits _ _).mp hbefore
  have hnames := (h.above (isDirectory_iff.mp hdirectory)).2
  rw [Path.foldl_descend_of_isName fun name hname => (hnames name (by simp [hname])).toIsName]
  rw [← List.append_assoc] at hdirectory
  exact isLink_of_isDirectory (h.isDirectory_of_append hdirectory)

theorem isDirectory_foldl_dotdot {here : Place} (hhere : d.isDirectory here = true)
    {segments : List Bytes} (hup : ∀ segment ∈ segments, segment = Path.dotdot) :
    d.isDirectory (segments.foldl Path.descend here) = true := by
  induction segments generalizing here with
  | nil => exact hhere
  | cons segment rest ih =>
      obtain ⟨rfl, hrest⟩ := List.forall_mem_cons.mp hup
      exact ih (h.isDirectory_dropLast hhere) hrest

/-- In a tree what cleaning leaves leads to the directory it says. -/
theorem leads_of_isNormal {rooted : Bool} {links : Nat} {here : Place} {segments : List Bytes}
    (hnormal : Path.IsNormal rooted segments.reverse) (hhere : d.isDirectory here = true)
    (hdirectory : d.isDirectory (segments.foldl Path.descend here) = true) :
    d.Leads links here segments (segments.foldl Path.descend here) links := by
  induction segments using List.reverseRecOn with
  | nil => exact .done
  | append_singleton segments segment ih =>
      rw [List.reverse_append, List.reverse_singleton, List.singleton_append] at hnormal
      rw [List.foldl_concat] at hdirectory ⊢
      rcases hnormal.1 with hname | ⟨rfl, -, hup⟩
      · rw [hname.descend_eq] at hdirectory ⊢
        have habove := h.isDirectory_of_append hdirectory
        exact (ih hnormal.2 habove).append (h.leads_names hdirectory)
      · -- What stands in front of `..` goes up as well.
        have habove := h.isDirectory_foldl_dotdot hhere (by simpa using hup)
        exact (ih hnormal.2 habove).append (.up habove .done)

theorem named_eq (path : Bytes) :
    d.named path = (Bytes.split Path.slash path).foldl Path.descend (d.origin path) :=
  Path.cleanSegments_absolute h.cwd_rooted path

/-- The cleaned form of a path leads to the directory at the place of its absolute form. -/
theorem leads_cleanSegments {path : Bytes} (hdirectory : d.isDirectory (d.named path) = true)
    (links : Nat) :
    d.Leads links (d.origin path) (Path.cleanSegments path) (d.named path) links := by
  have hnamed : d.named path = (Path.cleanSegments path).foldl Path.descend (d.origin path) := by
    rw [h.named_eq, Path.foldl_descend_cleanSegments fun hrooted => by simp [origin, hrooted]]
  rw [hnamed] at hdirectory ⊢
  exact h.leads_of_isNormal (Path.isNormal_cleanSegments path) (h.isDirectory_origin path) hdirectory

end IsTree

end DefinitionFiles.Disk
