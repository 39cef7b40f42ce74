import DefinitionFiles.Section
import Mathlib.Data.List.Induction

/-!
# Entries of a section

Storing values one after the other leaves every key once, where it first appeared, with the last
value it was given. The order of keys and the stored values are therefore determined by the list
of assignments alone.
-/

namespace DefinitionFiles.Section

/-- The keys of some assignments in order of first appearance, each with its last value. -/
def lastValues (assignments : List (Bytes × Bytes)) : List (Bytes × Bytes) :=
  (assignments.map Prod.fst).eraseDups.map fun key =>
    (key, (assignments.reverse.lookup key).getD [])

/-- Stores the values of some assignments in order. -/
def setAll (s : Section) (assignments : List (Bytes × Bytes)) : Section :=
  assignments.foldl (fun s (key, value) => s.set key value) s

theorem nodup_eraseDups (keys : List Bytes) : keys.eraseDups.Nodup := by
  cases keys with
  | nil => exact List.nodup_nil
  | cons key rest =>
      rw [List.eraseDups_cons]
      refine List.nodup_cons.mpr ⟨?_, nodup_eraseDups (rest.filter fun k => !k == key)⟩
      simp
termination_by keys.length
decreasing_by
  have := List.length_filter_le (fun k => !k == key) rest
  simp only [List.length_cons]
  omega

/-- A section with further entries, whose keys come after those it has. -/
def extend (s : Section) (more : List (Bytes × Bytes)) : Section :=
  { s with
    entries := s.entries ++ more
    keys := s.keys ++ more.map Prod.fst
    keys_perm := by simpa using s.keys_perm.append_right (more.map Prod.fst) }

@[simp]
theorem header_extend (s : Section) (more : List (Bytes × Bytes)) :
    (s.extend more).header = s.header := rfl

@[simp]
theorem entries_extend (s : Section) (more : List (Bytes × Bytes)) :
    (s.extend more).entries = s.entries ++ more := rfl

theorem setEntry_of_notMem {key : Bytes} {entries : List (Bytes × Bytes)}
    (h : key ∉ entries.map Prod.fst) (value : Bytes) :
    setEntry key value entries = entries ++ [(key, value)] := by
  induction entries with
  | nil => rfl
  | cons entry rest ih =>
      obtain ⟨hne, hrest⟩ := not_or.mp (mt List.mem_cons.mpr h)
      rw [setEntry, if_neg (Ne.symm hne), ih hrest, List.cons_append]

theorem lookup_isSome_iff_mem {key : Bytes} {entries : List (Bytes × Bytes)} :
    (entries.lookup key).isSome = true ↔ key ∈ entries.map Prod.fst := by
  rw [List.lookup_isSome_iff, List.mem_map]
  constructor
  · rintro ⟨entry, hentry, heq⟩
    exact ⟨entry, hentry, (eq_of_beq heq).symm⟩
  · rintro ⟨entry, hentry, rfl⟩
    exact ⟨entry, hentry, beq_self_eq_true _⟩

/-- A new key comes after those the section has. -/
theorem set_of_notMem {s : Section} {key : Bytes} (h : key ∉ s.entries.map Prod.fst)
    (value : Bytes) : s.set key value = s.extend [(key, value)] := by
  have hnone : (s.entries.lookup key).isSome = false := by
    rw [Bool.eq_false_iff, ne_eq, lookup_isSome_iff_mem]
    exact h
  ext1 <;> simp [set, extend, setEntry_of_notMem h, hnone]

theorem extend_extend (s : Section) (first second : List (Bytes × Bytes)) :
    (s.extend first).extend second = s.extend (first ++ second) := by
  ext1 <;> simp [extend]

/-- On entries with distinct keys, storing a value changes the value of its key, or adds the key
at the end. -/
theorem setEntry_map {keys : List Bytes} (hnodup : keys.Nodup) (valueOf : Bytes → Bytes)
    (key value : Bytes) :
    setEntry key value (keys.map fun k => (k, valueOf k)) =
      (if key ∈ keys then keys else keys ++ [key]).map fun k =>
        (k, if k = key then value else valueOf k) := by
  induction keys with
  | nil => simp [setEntry]
  | cons k rest ih =>
      obtain ⟨hk, hrest⟩ := List.nodup_cons.mp hnodup
      simp only [List.map_cons, setEntry]
      by_cases heq : k = key
      · subst heq
        have hother : ∀ k' ∈ rest, k' ≠ k := by
          intro k' hk' hkk
          exact hk (hkk ▸ hk')
        simp only [↓reduceIte, List.mem_cons, true_or, List.map_cons, List.cons.injEq, true_and]
        apply List.map_congr_left
        intro k' hk'
        rw [if_neg (hother k' hk')]
      · have hne : key ≠ k := fun h => heq h.symm
        rw [if_neg heq, ih hrest]
        by_cases hmem : key ∈ rest <;> simp [hmem, hne, heq]

/-- One more assignment is one more value stored. -/
theorem lastValues_concat (assignments : List (Bytes × Bytes)) (key value : Bytes) :
    lastValues (assignments ++ [(key, value)]) = setEntry key value (lastValues assignments) := by
  unfold lastValues
  rw [setEntry_map (nodup_eraseDups _)]
  have hkeys : ((assignments ++ [(key, value)]).map Prod.fst).eraseDups =
      if key ∈ (assignments.map Prod.fst).eraseDups then (assignments.map Prod.fst).eraseDups
      else (assignments.map Prod.fst).eraseDups ++ [key] := by
    rw [List.map_append, List.eraseDups_append]
    by_cases hmem : key ∈ assignments.map Prod.fst
    · rw [if_pos (List.mem_eraseDups.mpr hmem)]
      simp [List.removeAll, hmem]
    · rw [if_neg (List.mem_eraseDups.not.mpr hmem)]
      simp [List.removeAll, hmem, List.eraseDups_cons]
  rw [hkeys]
  apply List.map_congr_left
  intro k _
  rw [List.reverse_append, List.reverse_singleton, List.singleton_append, List.lookup_cons]
  by_cases heq : k = key
  · simp [heq]
  · simp [heq, beq_eq_false_iff_ne.mpr heq]

theorem setAll_append (s : Section) (first second : List (Bytes × Bytes)) :
    s.setAll (first ++ second) = (s.setAll first).setAll second :=
  List.foldl_append

/-- Storing values in a section that has none yet leaves every key's last value. -/
theorem setAll_new (header : Bytes) (line : Nat) (assignments : List (Bytes × Bytes)) :
    setAll { header := header, line := line } assignments =
      { header := header, line := line, entries := lastValues assignments } := by
  induction assignments using List.reverseRecOn with
  | nil => rfl
  | append_singleton earlier a ih =>
      rw [setAll_append, ih]
      ext1
      · rfl
      · rfl
      · exact (lastValues_concat earlier a.1 a.2).symm
      · exact (map_fst_setEntry a.1 a.2 _).symm.trans (by rw [← lastValues_concat])

/-- The keys of last values are those of the assignments in order of first appearance. -/
@[simp]
theorem keys_lastValues (assignments : List (Bytes × Bytes)) :
    (lastValues assignments).map Prod.fst = (assignments.map Prod.fst).eraseDups := by
  simp [lastValues, Function.comp_def]

/-- The keys of a section are those it has a value for. -/
theorem mem_keys_iff (s : Section) (key : Bytes) :
    key ∈ s.keys ↔ ∃ value, s.get? key = some value := by
  rw [get?, ← Option.isSome_iff_exists, lookup_isSome_iff_mem, s.keys_perm.mem_iff]

end DefinitionFiles.Section
