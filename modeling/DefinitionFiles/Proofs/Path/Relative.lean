import DefinitionFiles.Proofs.Path.Segments

/-!
# Relative names

Seen from a directory, a path is reached by going up to where the two part and down from there.
Followed from the directory, this relative name gives the path back, wherever the two lie. It needs
no step up exactly if the path lies in or below the directory.
-/

namespace DefinitionFiles.Path

/-- What two lists of segments have behind the front they share. -/
def parted : List Bytes → List Bytes → List Bytes × List Bytes
  | a :: s, b :: t => if a = b then parted s t else (a :: s, b :: t)
  | s, t => (s, t)

/-- The name of `p` relative to the directory `base`: one `..` for every segment of the directory
that is not on the way to `p`, and then the segments of `p` from there. -/
def relative (base p : Bytes) : Bytes :=
  let parts := parted (cleanSegments base) (cleanSegments p)
  ofSegments false (List.replicate parts.1.length dotdot ++ parts.2)

/-! ## Where two paths part -/

theorem exists_parted (s t : List Bytes) :
    ∃ front, s = front ++ (parted s t).1 ∧ t = front ++ (parted s t).2 := by
  fun_induction parted s t with
  | case1 s a t ih =>
      obtain ⟨front, hs, ht⟩ := ih
      exact ⟨a :: front, by rw [List.cons_append, ← hs], by rw [List.cons_append, ← ht]⟩
  | case2 => exact ⟨[], rfl, rfl⟩
  | case3 => exact ⟨[], rfl, rfl⟩

theorem parted_append_left (s rest : List Bytes) : parted s (s ++ rest) = ([], rest) := by
  induction s with
  | nil => rw [List.nil_append, parted]; nofun
  | cons a s ih => rw [List.cons_append, parted, if_pos rfl, ih]

/-- Nothing is left of the first list exactly if it is a front of the second. -/
theorem parted_fst_eq_nil_iff {s t : List Bytes} : (parted s t).1 = [] ↔ s <+: t := by
  constructor
  · intro h
    obtain ⟨front, hs, ht⟩ := exists_parted s t
    rw [h, List.append_nil] at hs
    exact ⟨_, by rw [hs, ← ht]⟩
  · rintro ⟨rest, rfl⟩
    rw [parted_append_left]

/-! ## Following a relative name -/

theorem isNormal_climb {down : List Bytes} (h : ∀ name ∈ down, IsName name) (n : Nat) :
    IsNormal false (List.replicate n dotdot ++ down).reverse := by
  rw [List.reverse_append, List.reverse_replicate]
  induction down using List.reverseRecOn with
  | nil =>
      induction n with
      | zero => exact trivial
      | succ n ih => exact ⟨.inr ⟨rfl, rfl, fun _ => List.eq_of_mem_replicate⟩, ih⟩
  | append_singleton down name ih =>
      rw [List.reverse_concat]
      exact ⟨.inl (h name (by simp)), ih fun other hother => h other (by simp [hother])⟩

/-- As many steps up as there are names behind a front lead back to the front. -/
theorem foldl_descend_replicate_dotdot (front up : List Bytes) :
    (List.replicate up.length dotdot).foldl descend (front ++ up) = front := by
  induction up using List.reverseRecOn with
  | nil => rw [List.length_nil, List.replicate_zero, List.foldl_nil, List.append_nil]
  | append_singleton up name ih =>
      rw [List.length_append, List.length_singleton, List.replicate_succ, List.foldl_cons,
        descend_dotdot, ← List.append_assoc, List.dropLast_concat, ih]

section Rooted

variable {base p : Bytes} (hp : isRooted p = true)

include hp

theorem isName_of_mem_parted_snd (s : List Bytes) :
    ∀ name ∈ (parted s (cleanSegments p)).2, IsName name := by
  obtain ⟨front, -, ht⟩ := exists_parted s (cleanSegments p)
  intro name hname
  apply isName_of_mem_cleanSegments hp
  rw [ht]
  exact List.mem_append_right front hname

theorem isRooted_relative (base : Bytes) : isRooted (relative base p) = false :=
  isRooted_ofSegments_of_isNormal (isNormal_climb (isName_of_mem_parted_snd hp _) _)

/-- From the directory its relative name leads to the path. -/
theorem absolute_relative (hbase : isRooted base = true) :
    absolute base (relative base p) = clean p := by
  obtain ⟨front, hs, ht⟩ := exists_parted (cleanSegments base) (cleanSegments p)
  have hdown := isName_of_mem_parted_snd hp (cleanSegments base)
  have hrelative : isRooted (relative base p) = false := isRooted_relative hp base
  rw [relative] at hrelative ⊢
  generalize parted (cleanSegments base) (cleanSegments p) = parts at hs ht hdown hrelative ⊢
  have hslash : ∀ segment ∈ List.replicate parts.1.length dotdot ++ parts.2, slash ∉ segment :=
    fun segment hsegment =>
      (isNormal_climb hdown _).slash_notMem segment (List.mem_reverse.mpr hsegment)
  rw [← ofSegments_cleanSegments_absolute hbase, cleanSegments_absolute hbase, hrelative,
    foldl_split_ofSegments _ _ (fun _ _ hskip => descend_of_skip hskip _) _ hslash,
    List.foldl_append, if_neg Bool.false_ne_true, hs, foldl_descend_replicate_dotdot,
    foldl_descend_of_isName hdown, ← ht, clean, hp]

end Rooted

/-! ## Paths below a directory -/

theorem dotdot_prefix_ofSegments (segments : List Bytes) :
    dotdot <+: ofSegments false (dotdot :: segments) := by
  cases segments with
  | nil => exact List.prefix_rfl
  | cons segment rest => exact ⟨slash :: Bytes.join [slash] (segment :: rest), rfl⟩

/-- The relative name of a path below a directory is what stands behind the directory; the name of
any other path starts with a step up. -/
theorem relative_cases {base p : Bytes} (hbase : isRooted base = true) (hp : isRooted p = true) :
    below? base p = some (relative base p) ∨
      below? base p = none ∧ dotdot <+: relative base p := by
  by_cases hprefix : cleanSegments base <+: cleanSegments p
  · left
    have hbelow : below? base p =
        some (ofSegments false ((cleanSegments p).drop (cleanSegments base).length)) := by
      simp [below?, hbase, hp, hprefix]
    obtain ⟨rest, hrest⟩ := hprefix
    rw [hbelow, relative, ← hrest, parted_append_left, List.drop_left]
    rfl
  · right
    refine ⟨by simp [below?, hprefix], ?_⟩
    obtain ⟨segment, up, hup⟩ :=
      List.exists_cons_of_ne_nil (mt parted_fst_eq_nil_iff.mp hprefix)
    rw [relative, hup, List.length_cons, List.replicate_succ, List.cons_append]
    exact dotdot_prefix_ofSegments _

end DefinitionFiles.Path
