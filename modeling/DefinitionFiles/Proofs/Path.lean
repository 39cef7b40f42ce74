import DefinitionFiles.Path
import DefinitionFiles.Proofs.Text.Cutting

/-!
# Cleaned paths

A rooted path is cleaned to the names from the root down, and the path these names give is its own
cleaned form. The absolute form of a path is therefore the absolute form of itself, from wherever
it is seen.
-/

namespace DefinitionFiles.Path

/-- A segment that names something in a directory. -/
structure IsName (segment : Bytes) : Prop where
  ne_nil : segment ≠ []
  ne_dot : segment ≠ dot
  ne_dotdot : segment ≠ dotdot
  slash_notMem : slash ∉ segment

theorem pushSegment_nil (rooted : Bool) (done : List Bytes) : pushSegment rooted done [] = done :=
  rfl

theorem IsName.pushSegment_eq {segment : Bytes} (h : IsName segment) (rooted : Bool)
    (done : List Bytes) : pushSegment rooted done segment = segment :: done := by
  simp [pushSegment, h.ne_nil, h.ne_dot, h.ne_dotdot]

/-- In a rooted path nothing but names is kept. -/
theorem isName_of_mem_pushSegment {done : List Bytes} {segment : Bytes}
    (hdone : ∀ name ∈ done, IsName name) (hsegment : slash ∉ segment) :
    ∀ name ∈ pushSegment true done segment, IsName name := by
  by_cases hskip : segment = [] ∨ segment = dot
  · have hsame : pushSegment true done segment = done := by
      rcases hskip with rfl | rfl <;> rfl
    rwa [hsame]
  obtain ⟨hnil, hdot⟩ := not_or.mp hskip
  by_cases hdotdot : segment = dotdot
  · subst hdotdot
    cases done with
    | nil => simp [pushSegment]
    | cons last rest =>
        have hback : pushSegment true (last :: rest) dotdot = rest := by
          simp [pushSegment, (hdone last List.mem_cons_self).ne_dotdot]
        rw [hback]
        exact fun name hname => hdone name (List.mem_cons_of_mem _ hname)
  · have hname : IsName segment := ⟨hnil, hdot, hdotdot, hsegment⟩
    rw [hname.pushSegment_eq]
    exact List.forall_mem_cons.mpr ⟨hname, hdone⟩

theorem isName_of_mem_foldl_pushSegment {segments done : List Bytes}
    (hdone : ∀ name ∈ done, IsName name) (h : ∀ segment ∈ segments, slash ∉ segment) :
    ∀ name ∈ segments.foldl (pushSegment true) done, IsName name := by
  induction segments generalizing done with
  | nil => exact hdone
  | cons segment rest ih =>
      obtain ⟨hsegment, hrest⟩ := List.forall_mem_cons.mp h
      exact ih (isName_of_mem_pushSegment hdone hsegment) hrest

theorem isName_of_mem_cleanSegments {p : Bytes} (h : isRooted p = true) :
    ∀ name ∈ cleanSegments p, IsName name := by
  intro name hname
  rw [cleanSegments, List.mem_reverse, h] at hname
  refine isName_of_mem_foldl_pushSegment ?_ (fun _ => Bytes.notMem_of_mem_split) name hname
  exact fun _ hnil => absurd hnil List.not_mem_nil

theorem foldl_pushSegment_of_isName {names : List Bytes} (h : ∀ name ∈ names, IsName name)
    (rooted : Bool) (done : List Bytes) :
    names.foldl (pushSegment rooted) done = names.reverse ++ done := by
  induction names generalizing done with
  | nil => rfl
  | cons name rest ih =>
      obtain ⟨hname, hrest⟩ := List.forall_mem_cons.mp h
      rw [List.foldl_cons, hname.pushSegment_eq, ih hrest, List.reverse_cons, List.append_assoc,
        List.singleton_append]

@[simp]
theorem isRooted_ofSegments (segments : List Bytes) : isRooted (ofSegments true segments) = true :=
  rfl

/-- Names are read back from the path they give. -/
theorem cleanSegments_ofSegments {names : List Bytes} (h : ∀ name ∈ names, IsName name) :
    cleanSegments (ofSegments true names) = names := by
  have hsplit : Bytes.split slash (ofSegments true names) =
      [] :: Bytes.split slash (Bytes.join [slash] names) := by
    rw [ofSegments, if_pos rfl, Bytes.split_cons, if_pos rfl]
  rw [cleanSegments, hsplit, List.foldl_cons, pushSegment_nil]
  by_cases hne : names = []
  · subst hne
    rfl
  · rw [Bytes.split_join hne fun name hname => (h name hname).slash_notMem,
      foldl_pushSegment_of_isName h, List.append_nil, List.reverse_reverse]

theorem isRooted_clean {p : Bytes} (h : isRooted p = true) : isRooted (clean p) = true := by
  rw [clean, h, isRooted_ofSegments]

theorem clean_clean {p : Bytes} (h : isRooted p = true) : clean (clean p) = clean p := by
  have hsegments : cleanSegments (clean p) = cleanSegments p := by
    rw [clean, h, cleanSegments_ofSegments (isName_of_mem_cleanSegments h)]
  rw [clean, hsegments, isRooted_clean h, clean, h]

section Absolute

variable {cwd : Bytes} (hcwd : isRooted cwd = true)

include hcwd

theorem isRooted_append (p : Bytes) : isRooted (cwd ++ p) = true := by
  cases cwd with
  | nil => exact absurd hcwd (by decide)
  | cons b cwd => exact hcwd

theorem isRooted_absolute (p : Bytes) : isRooted (absolute cwd p) = true := by
  rw [absolute]
  split
  next hrooted => exact isRooted_clean hrooted
  next => exact isRooted_clean (isRooted_append hcwd _)

theorem absolute_absolute (p : Bytes) : absolute cwd (absolute cwd p) = absolute cwd p := by
  have hrooted := isRooted_absolute hcwd p
  rw [absolute, if_pos hrooted]
  rw [absolute]
  split
  next hp => exact clean_clean hp
  next => exact clean_clean (isRooted_append hcwd _)

end Absolute

end DefinitionFiles.Path
