import DefinitionFiles.Proofs.Text.Trimming
import DefinitionFiles.Record

/-!
# The elements of a list

A list is written as words with separators between them, and perhaps before the first and behind the
last one. Its elements are these words, in order, and blanks around the list make no difference.
-/

namespace DefinitionFiles.FieldValue

/-- Whether a text consists of separators. -/
def IsGap (gap : Bytes) : Prop :=
  ∀ b ∈ gap, isSeparator b = true

instance (gap : Bytes) : Decidable (IsGap gap) :=
  decidable_of_iff (gap.all isSeparator = true) List.all_eq_true

/-- Whether a word can be the element of a list: it is not empty, and no byte of it separates. -/
def IsWord (word : Bytes) : Prop :=
  word ≠ [] ∧ ∀ b ∈ word, isSeparator b = false

/-- Whether a text lists words: at least one separator stands between two of them, and any number
before the first and behind the last one. -/
inductive Lists : List Bytes → Bytes → Prop where
  | nil {gap : Bytes} (hgap : IsGap gap) : Lists [] gap
  | cons {gap word rest : Bytes} {words : List Bytes} (hgap : IsGap gap) (hrest : Lists words rest)
      (hapart : words ≠ [] → ∃ b ∈ rest.head?, isSeparator b = true) :
      Lists (word :: words) (gap ++ (word ++ rest))

theorem elements_eq (source : Bytes) :
    elements source = (source.splitOnP isSeparator).filter (· != []) := by
  refine congrArg (List.filter (· != [])) ?_
  induction source with
  | nil => rw [List.splitOnP_nil, List.foldr_nil]
  | cons b rest ih =>
      rw [List.foldr_cons, ih, List.splitOnP_cons_eq_if_modifyHead]
      cases hpieces : rest.splitOnP isSeparator with
      | nil => exact absurd hpieces (List.splitOnP_ne_nil _ _)
      | cons piece pieces => rfl

theorem elements_append_separator {b : UInt8} (hb : isSeparator b = true) (s rest : Bytes) :
    elements (s ++ b :: rest) = elements s ++ elements rest := by
  simp only [elements_eq, List.splitOnP_append_cons _ _ hb, List.filter_append]

theorem elements_word {word : Bytes} (hword : IsWord word) : elements word = [word] := by
  rw [elements_eq, List.splitOnP_eq_singleton hword.2]
  simp [hword.1]

theorem elements_gap_append {gap : Bytes} (hgap : IsGap gap) (s : Bytes) :
    elements (gap ++ s) = elements s := by
  induction gap with
  | nil => rfl
  | cons b rest ih =>
      have hfirst := elements_append_separator (hgap b List.mem_cons_self) [] (rest ++ s)
      rw [List.cons_append]
      exact hfirst.trans (ih fun b hb => hgap b (List.mem_cons_of_mem _ hb))

theorem elements_gap {gap : Bytes} (hgap : IsGap gap) : elements gap = [] := by
  have hnil := elements_gap_append hgap []
  rwa [List.append_nil] at hnil

theorem elements_append_gap {gap : Bytes} (hgap : IsGap gap) (s : Bytes) :
    elements (s ++ gap) = elements s := by
  cases gap with
  | nil => rw [List.append_nil]
  | cons b rest =>
      have hrest : IsGap rest := fun b hb => hgap b (List.mem_cons_of_mem _ hb)
      rw [elements_append_separator (hgap b List.mem_cons_self), elements_gap hrest, List.append_nil]

theorem elements_word_append {word rest : Bytes} (hword : IsWord word)
    (hrest : ∀ b ∈ rest.head?, isSeparator b = true) :
    elements (word ++ rest) = word :: elements rest := by
  cases rest with
  | nil => rw [List.append_nil, elements_word hword]; rfl
  | cons b rest =>
      have hb := hrest b rfl
      have hskip := elements_append_separator hb [] rest
      rw [elements_append_separator hb, elements_word hword]
      exact congrArg (word :: ·) hskip.symm

/-- The elements of a list are the words that it lists. -/
theorem elements_of_lists {words : List Bytes} {source : Bytes} (h : Lists words source)
    (hwords : ∀ word ∈ words, IsWord word) : elements source = words := by
  induction h with
  | nil hgap => exact elements_gap hgap
  | @cons gap word rest words hgap hrest hapart ih =>
      have hhead : ∀ b ∈ rest.head?, isSeparator b = true := by
        cases hrest with
        | nil hgap => exact fun b hb => hgap b (List.mem_of_mem_head? hb)
        | cons hgap hrest _ =>
            obtain ⟨b, hb, hseparator⟩ := hapart (List.cons_ne_nil _ _)
            intro b' hb'
            rwa [← Option.mem_unique hb hb']
      rw [elements_gap_append hgap, elements_word_append (hwords word List.mem_cons_self) hhead,
        ih fun word hmem => hwords word (List.mem_cons_of_mem _ hmem)]

/-- A list of visible bytes and separators has the same elements without blanks around it. -/
theorem elements_trim {source : Bytes}
    (h : ∀ b ∈ source, Bytes.isVisible b = true ∨ isSeparator b = true) :
    elements (Bytes.trim source) = elements source := by
  obtain ⟨lead, tail, heq, hblank⟩ := Bytes.exists_append_trim source
  have hgap : ∀ b ∈ lead ++ tail, isSeparator b = true := by
    intro b hb
    have hmem : b ∈ source := by
      rw [heq]
      rcases List.mem_append.mp hb with hb | hb <;> simp [hb]
    rcases h b hmem with hvisible | hseparator
    · cases (hblank b hb).symm.trans hvisible
    · exact hseparator
  have hlead : IsGap lead := fun b hb => hgap b (List.mem_append_left _ hb)
  have htail : IsGap tail := fun b hb => hgap b (List.mem_append_right _ hb)
  conv_rhs => rw [heq, elements_gap_append hlead, elements_append_gap htail]

theorem Lists.isSeparator_or_mem {words : List Bytes} {source : Bytes} (h : Lists words source)
    {b : UInt8} (hb : b ∈ source) : isSeparator b = true ∨ ∃ word ∈ words, b ∈ word := by
  induction h with
  | nil hgap => exact .inl (hgap b hb)
  | @cons gap word rest words hgap hrest hapart ih =>
      simp only [List.mem_append] at hb
      rcases hb with hb | hb | hb
      · exact .inl (hgap b hb)
      · exact .inr ⟨word, List.mem_cons_self, hb⟩
      · rcases ih hb with hseparator | ⟨other, hmem, hb⟩
        · exact .inl hseparator
        · exact .inr ⟨other, List.mem_cons_of_mem _ hmem, hb⟩

/-- Blanks around a list of visible words make no difference to its elements. -/
theorem elements_trim_of_lists {words : List Bytes} {source : Bytes} (h : Lists words source)
    (hwords : ∀ word ∈ words, IsWord word ∧ ∀ b ∈ word, Bytes.isVisible b = true) :
    elements (Bytes.trim source) = words := by
  have hbytes : ∀ b ∈ source, Bytes.isVisible b = true ∨ isSeparator b = true := by
    intro b hb
    rcases h.isSeparator_or_mem hb with hseparator | ⟨word, hmem, hb⟩
    · exact .inr hseparator
    · exact .inl ((hwords word hmem).2 b hb)
  rw [elements_trim hbytes, elements_of_lists h fun word hmem => (hwords word hmem).1]

end DefinitionFiles.FieldValue
