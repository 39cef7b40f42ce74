import DefinitionFiles.Text.Bytes
import Mathlib.Data.List.Sort

/-!
# Bytewise order

The order that texts are sorted by is the lexicographic order of their bytes. Sorting keeps what
it sorts, so texts that are all different come out strictly ascending.
-/

namespace DefinitionFiles.Bytes

theorem le_iff {s t : Bytes} : le s t = true ↔ s ≤ t := by
  induction s generalizing t with
  | nil => simp [le]
  | cons a s ih =>
      cases t with
      | nil => simp [le]
      | cons b t => simp [le, ih, List.cons_le_cons_iff]

section SortOn

variable {α : Type} (name : α → Bytes)

/-- Whether an element may stand in front of another one. -/
abbrev Precedes (a b : α) : Prop :=
  le (name a) (name b) = true

theorem insertOn_eq_orderedInsert (a : α) (elements : List α) :
    insertOn name a elements = elements.orderedInsert (Precedes name) a := by
  induction elements with
  | nil => rfl
  | cons b rest ih => rw [insertOn, List.orderedInsert_cons, ih]

theorem sortOn_eq_insertionSort (elements : List α) :
    sortOn name elements = elements.insertionSort (Precedes name) := by
  induction elements with
  | nil => rfl
  | cons a rest ih =>
      rw [List.insertionSort_cons, ← ih, ← insertOn_eq_orderedInsert]
      rfl

theorem sortOn_perm (elements : List α) : (sortOn name elements).Perm elements := by
  rw [sortOn_eq_insertionSort]
  exact List.perm_insertionSort _ _

@[simp]
theorem mem_sortOn {a : α} {elements : List α} : a ∈ sortOn name elements ↔ a ∈ elements :=
  (sortOn_perm name elements).mem_iff

theorem pairwise_sortOn (elements : List α) :
    (sortOn name elements).Pairwise fun a b => name a ≤ name b := by
  have htrans : IsTrans α (Precedes name) := by
    constructor
    intro a b c hab hbc
    exact le_iff.mpr (List.le_trans (le_iff.mp hab) (le_iff.mp hbc))
  have htotal : Std.Total (Precedes name) := by
    constructor
    intro a b
    simp only [Precedes, le_iff]
    exact List.le_total _ _
  rw [sortOn_eq_insertionSort]
  exact (List.pairwise_insertionSort _ elements).imp le_iff.mp

end SortOn

@[simp]
theorem sort_nil : sort [] = [] := rfl

@[simp]
theorem sort_singleton (text : Bytes) : sort [text] = [text] := rfl

theorem sort_perm (texts : List Bytes) : (sort texts).Perm texts :=
  sortOn_perm id texts

@[simp]
theorem mem_sort {text : Bytes} {texts : List Bytes} : text ∈ sort texts ↔ text ∈ texts :=
  (sort_perm texts).mem_iff

@[simp]
theorem length_sort (texts : List Bytes) : (sort texts).length = texts.length :=
  (sort_perm texts).length_eq

theorem pairwise_le_sort (texts : List Bytes) : (sort texts).Pairwise (· ≤ ·) :=
  pairwise_sortOn id texts

theorem pairwise_lt_sort {texts : List Bytes} (h : texts.Nodup) :
    (sort texts).Pairwise (· < ·) := by
  have hnodup : (sort texts).Nodup := (sort_perm texts).nodup_iff.mpr h
  apply List.Pairwise.imp₂ _ (pairwise_le_sort texts) hnodup
  intro a b hle hne
  exact Std.lt_of_le_of_ne hle hne

end DefinitionFiles.Bytes
