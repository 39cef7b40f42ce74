import DefinitionFiles.Outline
import DefinitionFiles.Record
import Mathlib.Data.List.Basic

/-!
# The order of entries

A field takes the value of the last entry whose key fits it up to letter case, so it can matter in
which order the entries of a section are enumerated. It does not matter exactly if entries whose
keys differ in letter case only have the same value.
-/

namespace DefinitionFiles.Record

/-- Whether entries whose keys agree up to letter case have the same value, blanks around it
apart. -/
def IsUnambiguous (entries : List (Bytes × Bytes)) : Prop :=
  ∀ a ∈ entries, ∀ b ∈ entries, lower a.1 = lower b.1 → Bytes.trim a.2 = Bytes.trim b.2

theorem exists_entry_of_lookup? {entries : List (Bytes × Bytes)} {key value : Bytes}
    (h : lookup? entries key = some value) :
    ∃ k, (k, value) ∈ entries ∧ lower k = lower key := by
  obtain ⟨⟨k, v⟩, hfind, hv⟩ := Option.map_eq_some_iff.mp h
  have hmem := List.mem_of_find?_eq_some hfind
  have hkey := List.find?_some hfind
  cases hv
  exact ⟨k, List.mem_reverse.mp hmem, of_decide_eq_true hkey⟩

theorem lookup?_eq_none_iff {entries : List (Bytes × Bytes)} {key : Bytes} :
    lookup? entries key = none ↔ ∀ a ∈ entries, lower a.1 ≠ lower key := by
  simp [lookup?]

theorem lookup?_concat (entries : List (Bytes × Bytes)) (a : Bytes × Bytes) (key : Bytes) :
    lookup? (entries ++ [a]) key =
      if lower a.1 = lower key then some a.2 else lookup? entries key := by
  unfold lookup?
  rw [List.reverse_append, List.reverse_singleton, List.singleton_append, List.find?_cons]
  by_cases hkey : lower a.1 = lower key <;> simp [hkey]

/-! ## Where the order does not matter -/

/-- What a field is given does not depend on the order of unambiguous entries. -/
theorem trim_lookup?_of_perm {first second : List (Bytes × Bytes)} (hperm : first.Perm second)
    (h : IsUnambiguous second) (key : Bytes) :
    (lookup? first key).map Bytes.trim = (lookup? second key).map Bytes.trim := by
  cases hfirst : lookup? first key with
  | none =>
      have hnone := lookup?_eq_none_iff.mp hfirst
      have hsecond : lookup? second key = none :=
        lookup?_eq_none_iff.mpr fun a ha => hnone a (hperm.mem_iff.mpr ha)
      rw [hsecond]
  | some value =>
      obtain ⟨k, hk, hlower⟩ := exists_entry_of_lookup? hfirst
      cases hsecond : lookup? second key with
      | none =>
          exact absurd hlower (lookup?_eq_none_iff.mp hsecond _ (hperm.mem_iff.mp hk))
      | some other =>
          obtain ⟨k', hk', hlower'⟩ := exists_entry_of_lookup? hsecond
          have htrim := h _ (hperm.mem_iff.mp hk) _ hk' (hlower.trans hlower'.symm)
          exact congrArg some htrim

section Congruence

variable {first second : List (Bytes × Bytes)}
  (h : ∀ key, (lookup? first key).map Bytes.trim = (lookup? second key).map Bytes.trim)

include h

theorem fillField_congr (field : Field) (old : FieldValue) :
    fillField first field old = fillField second field old := by
  have hkey := h field.key
  unfold fillField
  cases hfirst : lookup? first field.key with
  | none =>
      have hsecond : lookup? second field.key = none := by simpa [hfirst] using hkey.symm
      rw [hsecond]
  | some value =>
      obtain ⟨other, hsecond, htrim⟩ : ∃ other, lookup? second field.key = some other ∧
          Bytes.trim other = Bytes.trim value := by
        rw [hfirst] at hkey
        exact Option.map_eq_some_iff.mp hkey.symm
      rw [hsecond]
      simp only [htrim]

/-- Fields are filled one after the other, so that it is enough that each is given the same. -/
theorem fill_congr (fields : List (Field × FieldValue)) : fill first fields = fill second fields := by
  induction fields with
  | nil => rfl
  | cons entry rest ih =>
      obtain ⟨field, old⟩ := entry
      rw [fill, fill, fillField_congr h, ih]

end Congruence

/-- A section with its entries in another order. -/
def reorder (s : Section) {order : List (Bytes × Bytes)} (h : order.Perm s.entries) : Section :=
  { s with entries := order, keys_perm := s.keys_perm.trans (h.symm.map Prod.fst) }

theorem read_of_isUnambiguous {s : Section} (h : IsUnambiguous s.entries)
    {order : List (Bytes × Bytes)} (hperm : order.Perm s.entries) (target : Target) :
    Target.read (reorder s hperm) target = Target.read s target := by
  cases target with
  | record fields =>
      have hfill := fill_congr (trim_lookup?_of_perm hperm h) fields
      simp only [Target.read, reorder, hfill]
  | notReference | notRecord => rfl

/-! ## Where it matters -/

/-- A field for texts that asks for a key shows which of the entries with that key came last. -/
theorem read_concat {s : Section} {rest : List (Bytes × Bytes)} {a : Bytes × Bytes}
    (hentries : s.entries = rest ++ [a]) {field : Field} (htype : field.type = .text)
    (hfilled : field.isFilled = true) (hkey : lower a.1 = lower field.key) (old : FieldValue) :
    Target.read s (.record [(field, old)]) =
      (.record [(field, .text (Bytes.trim a.2))], none) := by
  have hfill : fillField (rest ++ [a]) field old = .ok (.text (Bytes.trim a.2)) := by
    rw [fillField, hfilled, lookup?_concat, if_pos hkey, htype]
    rfl
  simp only [Target.read, hentries, fill, hfill]
  rfl

theorem exists_perm_concat {a : Bytes × Bytes} {entries : List (Bytes × Bytes)}
    (h : a ∈ entries) : ∃ rest, (rest ++ [a]).Perm entries :=
  ⟨entries.erase a,
    (List.perm_append_singleton a _).trans (List.perm_cons_erase h).symm⟩

/-- Whether any two orders of the entries of a section make no difference to what is read, whatever
it is read into. -/
def IgnoresOrder (s : Section) : Prop :=
  ∀ (first second : List (Bytes × Bytes)) (hfirst : first.Perm s.entries)
    (hsecond : second.Perm s.entries) (target : Target),
    Target.read (reorder s hfirst) target = Target.read (reorder s hsecond) target

theorem isUnambiguous_of_ignoresOrder {s : Section} (h : IgnoresOrder s) :
    IsUnambiguous s.entries := by
  intro a ha b hb hlower
  obtain ⟨first, hfirst⟩ := exists_perm_concat ha
  obtain ⟨second, hsecond⟩ := exists_perm_concat hb
  let field : Field := { name := a.1, type := .text }
  have hkey : field.key = a.1 := rfl
  have hread := h _ _ hfirst hsecond (.record [(field, .text [])])
  rw [read_concat rfl rfl rfl (by rw [hkey]),
    read_concat rfl rfl rfl (by rw [hkey, hlower])] at hread
  simpa using hread

/-- Reading a section does not depend on the order of its entries exactly if no two of its keys
that agree up to letter case have different values. -/
theorem ignoresOrder_iff (s : Section) : IgnoresOrder s ↔ IsUnambiguous s.entries := by
  constructor
  · exact isUnambiguous_of_ignoresOrder
  · intro h first second hfirst hsecond target
    rw [read_of_isUnambiguous h hfirst, read_of_isUnambiguous h hsecond]

/-- A document can have two spellings of one key in one section. The field that asks for one of them
is given the value of whichever comes last. -/
theorem not_ignoresOrder_of_two_spellings :
    let s : Section := { header := utf8 "A", line := 0,
                         entries := [(utf8 "NAME", utf8 "first"), (utf8 "name", utf8 "second")] }
    let field : Field := { name := utf8 "Name", type := .text, tag := utf8 "NAME" }
    let target := Target.record [(field, field.type.zero)]
    (Outline.ofText {} (utf8 "[A]\n\x7b\nNAME=first\nname=second\n\x7d\n")).sections = [s] ∧
      Target.read s target = (.record [(field, .text (utf8 "second"))], none) ∧
      Target.read (reorder s s.entries.reverse_perm) target =
        (.record [(field, .text (utf8 "first"))], none) ∧
      ¬ IgnoresOrder s := by
  intro s field target
  have hlast : s.entries = [(utf8 "NAME", utf8 "first")] ++ [(utf8 "name", utf8 "second")] := rfl
  have hlast' : (reorder s s.entries.reverse_perm).entries =
      [(utf8 "name", utf8 "second")] ++ [(utf8 "NAME", utf8 "first")] := rfl
  have hforward : Target.read s target =
      (.record [(field, .text (Bytes.trim (utf8 "second")))], none) :=
    read_concat hlast rfl rfl (by decide +kernel) _
  have hbackward : Target.read (reorder s s.entries.reverse_perm) target =
      (.record [(field, .text (Bytes.trim (utf8 "first")))], none) :=
    read_concat hlast' rfl rfl (by decide +kernel) _
  have hsecond : Bytes.trim (utf8 "second") = utf8 "second" := by decide +kernel
  have hfirst : Bytes.trim (utf8 "first") = utf8 "first" := by decide +kernel
  rw [hsecond] at hforward
  rw [hfirst] at hbackward
  refine ⟨by decide +kernel, hforward, hbackward, ?_⟩
  intro h
  have hread : Target.read s target = Target.read (reorder s s.entries.reverse_perm) target :=
    h s.entries s.entries.reverse (List.Perm.refl _) (List.reverse_perm _) target
  rw [hforward, hbackward] at hread
  exact absurd hread (by simp; decide)

end DefinitionFiles.Record
