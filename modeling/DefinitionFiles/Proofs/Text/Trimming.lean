import DefinitionFiles.Text.Blank
import DefinitionFiles.Proofs.Text.Cutting
import DefinitionFiles.Proofs.Text.Utf8

/-!
# Trimming

Trimming stops at every byte that occurs in no blank character. In front of such a byte and behind
it a text is trimmed on its own, so that it does not matter what stands on the other side.
-/

namespace DefinitionFiles.Bytes

/-- Whether no word begins in front of a text and ends in it. -/
def IsApart (words : List Bytes) (rest : Bytes) : Prop :=
  ∀ front back, front ≠ [] → back ≠ [] → front ++ back ∈ words → ¬ back <+: rest

theorem after?_append_of_apart {word s rest : Bytes}
    (h : ∀ back, back ≠ [] → word = s ++ back → ¬ back <+: rest) :
    after? word (s ++ rest) = (after? word s).map (· ++ rest) := by
  induction word generalizing s with
  | nil => rfl
  | cons w word ih =>
      cases s with
      | nil =>
          have hnone : after? (w :: word) rest = none := by
            rw [Option.eq_none_iff_forall_ne_some]
            intro left hleft
            exact h (w :: word) (by simp) rfl ⟨left, (after?_eq_some_iff.mp hleft).symm⟩
          rw [List.nil_append, hnone]
          rfl
      | cons a s =>
          rw [List.cons_append, after?, after?]
          split
          next hw =>
            apply ih
            intro back hback hword
            exact h back hback (by rw [hw, hword, List.cons_append])
          next => rfl

section Words

variable {words : List Bytes} {rest : Bytes}

theorem dropWord?_append_of_apart (h : IsApart words rest) (a : UInt8) (s : Bytes) :
    dropWord? words a (s ++ rest) = (dropWord? words a s).map (· ++ rest) := by
  induction words with
  | nil => rfl
  | cons word words ih =>
      have hwords := ih fun front back hfront hback hmem =>
        h front back hfront hback (List.mem_cons_of_mem _ hmem)
      unfold dropWord? at hwords ⊢
      rw [List.findSome?_cons, List.findSome?_cons, hwords]
      cases word with
      | nil => rfl
      | cons w word =>
          have hafter : after? word (s ++ rest) = (after? word s).map (· ++ rest) := by
            apply after?_append_of_apart
            rintro back hback rfl
            exact h (w :: s) back (by simp) hback List.mem_cons_self
          by_cases hw : w = a
          · simp only [hw, if_true, hafter]
            cases after? word s <;> rfl
          · simp only [hw, if_false]

theorem dropWords_of_some {a : UInt8} {s left : Bytes} (h : dropWord? words a s = some left) :
    dropWords words (a :: s) = dropWords words left := by
  rw [dropWords]
  split
  next left' hdrop =>
    cases h.symm.trans hdrop
    rfl
  next hdrop => cases h.symm.trans hdrop

theorem dropWords_of_none {a : UInt8} {s : Bytes} (h : dropWord? words a s = none) :
    dropWords words (a :: s) = a :: s := by
  rw [dropWords]
  split
  next left hdrop => cases h.symm.trans hdrop
  next => rfl

/-- In front of a text that no word reaches into, words are dropped on their own. Only if nothing is
left there are words dropped in the text as well. -/
theorem dropWords_append_of_apart (h : IsApart words rest) (s : Bytes) :
    dropWords words (s ++ rest) =
      if dropWords words s = [] then dropWords words rest else dropWords words s ++ rest := by
  fun_induction dropWords words s with
  | case1 => rfl
  | case2 a s left hdrop ih =>
      have happend := dropWord?_append_of_apart h a s
      rw [hdrop, Option.map_some] at happend
      rw [List.cons_append, dropWords_of_some happend, ih]
  | case3 a s hdrop =>
      have happend := dropWord?_append_of_apart h a s
      rw [hdrop, Option.map_none] at happend
      rw [if_neg (List.cons_ne_nil a s), List.cons_append, dropWords_of_none happend]

/-- Words are dropped up to a text that begins with none of them. -/
theorem dropWords_append_of_stop (h : IsApart words rest) (hstop : dropWords words rest = rest)
    (s : Bytes) : dropWords words (s ++ rest) = dropWords words s ++ rest := by
  rw [dropWords_append_of_apart h, hstop]
  split
  next hnil => rw [hnil, List.nil_append]
  next => rfl

theorem dropWord?_of_notMem {b : UInt8} (h : ∀ word ∈ words, b ∉ word) (rest : Bytes) :
    dropWord? words b rest = none := by
  rw [dropWord?, List.findSome?_eq_none_iff]
  intro word hword
  cases word with
  | nil => rfl
  | cons w word =>
      have hw : w ≠ b := by
        rintro rfl
        exact h _ hword List.mem_cons_self
      simp [hw]

/-- Words are dropped up to a byte that occurs in none of them, whatever follows it. -/
theorem dropWords_append_cons {b : UInt8} (h : ∀ word ∈ words, b ∉ word) (s rest : Bytes) :
    dropWords words (s ++ b :: rest) = dropWords words s ++ b :: rest := by
  apply dropWords_append_of_stop _ (dropWords_of_none (dropWord?_of_notMem h rest))
  intro front back _ hback hmem hreach
  obtain ⟨c, back, rfl⟩ := List.exists_cons_of_ne_nil hback
  obtain ⟨rfl, -⟩ := List.cons_prefix_cons.mp hreach
  exact h _ hmem (by simp)

theorem exists_word_of_dropWord? {a : UInt8} {s left : Bytes}
    (h : dropWord? words a s = some left) : ∃ word ∈ words, a :: s = word ++ left := by
  obtain ⟨word, hmem, hword⟩ := List.exists_of_findSome?_eq_some h
  split at hword
  next => cases hword
  next w word =>
    split at hword
    next hw => exact ⟨w :: word, hmem, by rw [hw, after?_eq_some_iff.mp hword, List.cons_append]⟩
    next => cases hword

/-- A word at the front is dropped, if no other one stands there. -/
theorem dropWords_append_word {word : Bytes} (hmem : word ∈ words) (hne : word ≠ [])
    (hunique : ∀ other ∈ words, ∀ left, word ++ rest = other ++ left → left = rest) :
    dropWords words (word ++ rest) = dropWords words rest := by
  obtain ⟨w, tail, rfl⟩ := List.exists_cons_of_ne_nil hne
  have hdrop : dropWord? words w (tail ++ rest) = some rest := by
    cases hfound : dropWord? words w (tail ++ rest) with
    | none =>
        have hnone := List.findSome?_eq_none_iff.mp hfound (w :: tail) hmem
        simp [after?_append] at hnone
    | some left =>
        obtain ⟨other, hother, heq⟩ := exists_word_of_dropWord? hfound
        rw [hunique other hother left heq]
  rw [List.cons_append, dropWords_of_some hdrop]

/-- What is dropped are words. -/
theorem exists_flatten_append_dropWords (words : List Bytes) (s : Bytes) :
    ∃ dropped : List Bytes, dropped ⊆ words ∧ s = dropped.flatten ++ dropWords words s := by
  fun_induction dropWords words s with
  | case1 => exact ⟨[], List.nil_subset _, rfl⟩
  | case2 a s left hdrop ih =>
      obtain ⟨word, hmem, heq⟩ := exists_word_of_dropWord? hdrop
      obtain ⟨dropped, hdropped, hleft⟩ := ih
      refine ⟨word :: dropped, List.cons_subset.mpr ⟨hmem, hdropped⟩, ?_⟩
      rw [heq, List.flatten_cons, List.append_assoc, ← hleft]
  | case3 a s hdrop => exact ⟨[], List.nil_subset _, rfl⟩

theorem dropWords_suffix (words : List Bytes) (s : Bytes) : dropWords words s <:+ s := by
  obtain ⟨dropped, -, heq⟩ := exists_flatten_append_dropWords words s
  exact ⟨dropped.flatten, heq.symm⟩

theorem dropWords_of_not_prefix {s : Bytes} (h : ∀ word ∈ words, ¬ word <+: s) :
    dropWords words s = s := by
  cases s with
  | nil => rw [dropWords]
  | cons a s =>
      rw [dropWords]
      split
      next left hdrop =>
        obtain ⟨word, hmem, heq⟩ := exists_word_of_dropWord? hdrop
        exact absurd ⟨left, heq.symm⟩ (h word hmem)
      next => rfl

/-- A text that is dropped as a whole ends in one of the words. -/
theorem exists_suffix_of_dropWords_eq_nil {s : Bytes} (h : dropWords words s = []) (hne : s ≠ []) :
    ∃ word ∈ words, word <:+ s := by
  fun_induction dropWords words s with
  | case1 => exact absurd rfl hne
  | case2 a s left hdrop ih =>
      obtain ⟨word, hmem, heq⟩ := exists_word_of_dropWord? hdrop
      by_cases hleft : left = []
      · refine ⟨word, hmem, ?_⟩
        rw [heq, hleft, List.append_nil]
      · obtain ⟨last, hlast, hsuffix⟩ := ih h hleft
        exact ⟨last, hlast, hsuffix.trans ⟨word, heq.symm⟩⟩
  | case3 a s hdrop => cases h

theorem dropWords_dropWords (words : List Bytes) (s : Bytes) :
    dropWords words (dropWords words s) = dropWords words s := by
  fun_induction dropWords words s with
  | case1 => rw [dropWords]
  | case2 a s left hdrop ih => exact ih
  | case3 a s hdrop => exact dropWords_of_none hdrop

end Words

/-! ## Blank characters -/

/-- Whether a byte is a visible ASCII character. No blank character has such a byte. -/
def isVisible (b : UInt8) : Bool :=
  0x21 ≤ b && b ≤ 0x7E

theorem isVisible_of_isDigit {b : UInt8} (h : isDigit b = true) : isVisible b = true := by
  simp only [isDigit, isVisible, Bool.and_eq_true, decide_eq_true_eq, UInt8.le_iff_toNat_le,
    UInt8.reduceToNat] at h ⊢
  omega

theorem notMem_blankWords {b : UInt8} (h : isVisible b = true) :
    (∀ word ∈ blankWords, b ∉ word) ∧ ∀ word ∈ reversedBlankWords, b ∉ word := by
  have hblank : ∀ word ∈ blankWords, ∀ a ∈ word, isVisible a = false := by decide +kernel
  have hforward : ∀ word ∈ blankWords, b ∉ word := by
    intro word hword hb
    cases h.symm.trans (hblank word hword b hb)
  refine ⟨hforward, ?_⟩
  intro word hword hb
  obtain ⟨word, hmem, rfl⟩ := List.mem_map.mp hword
  exact hforward word hmem (List.mem_reverse.mp hb)

@[simp]
theorem trimStart_nil : trimStart [] = [] := by
  rw [trimStart, dropWords]

@[simp]
theorem trimEnd_nil : trimEnd [] = [] := by
  rw [trimEnd, List.reverse_nil, dropWords, List.reverse_nil]

theorem trimStart_append_cons {b : UInt8} (h : isVisible b = true) (s rest : Bytes) :
    trimStart (s ++ b :: rest) = trimStart s ++ b :: rest :=
  dropWords_append_cons (notMem_blankWords h).1 s rest

theorem trimEnd_append_cons {b : UInt8} (h : isVisible b = true) (s rest : Bytes) :
    trimEnd (s ++ b :: rest) = s ++ b :: trimEnd rest := by
  have hdrop := dropWords_append_cons (notMem_blankWords h).2 rest.reverse s.reverse
  unfold trimEnd
  rw [List.reverse_append, List.reverse_cons, List.append_assoc, List.singleton_append, hdrop]
  simp

/-- What stands on both sides of a visible byte is trimmed on its outer side. -/
theorem trim_append_cons {b : UInt8} (h : isVisible b = true) (s rest : Bytes) :
    trim (s ++ b :: rest) = trimStart s ++ b :: trimEnd rest := by
  rw [trim, trimStart_append_cons h, trimEnd_append_cons h]

theorem mem_of_mem_trimStart {b : UInt8} {s : Bytes} (h : b ∈ trimStart s) : b ∈ s :=
  (dropWords_suffix _ s).subset h

theorem mem_of_mem_trim {b : UInt8} {s : Bytes} (h : b ∈ trim s) : b ∈ s := by
  apply mem_of_mem_trimStart
  have hreverse : b ∈ dropWords reversedBlankWords (trimStart s).reverse := List.mem_reverse.mp h
  exact List.mem_reverse.mp ((dropWords_suffix _ _).subset hreverse)

/-- No visible byte is trimmed away. -/
theorem exists_append_trim (s : Bytes) :
    ∃ lead tail, s = lead ++ (trim s ++ tail) ∧ ∀ b ∈ lead ++ tail, isVisible b = false := by
  obtain ⟨front, hfront, hstart⟩ := exists_flatten_append_dropWords blankWords s
  obtain ⟨back, hback, hend⟩ :=
    exists_flatten_append_dropWords reversedBlankWords (trimStart s).reverse
  have htrim : trimStart s = trim s ++ back.flatten.reverse := by
    rw [trim, trimEnd, ← List.reverse_append, ← hend, List.reverse_reverse]
  refine ⟨front.flatten, back.flatten.reverse, ?_, ?_⟩
  · rw [← htrim]
    exact hstart
  · intro b hb
    by_contra hvisible
    rw [Bool.not_eq_false] at hvisible
    obtain ⟨hforward, hbackward⟩ := notMem_blankWords hvisible
    rcases List.mem_append.mp hb with hb | hb
    · obtain ⟨word, hword, hmem⟩ := List.mem_flatten.mp hb
      exact hforward word (hfront hword) hmem
    · obtain ⟨word, hword, hmem⟩ := List.mem_flatten.mp (List.mem_reverse.mp hb)
      exact hbackward word (hback hword) hmem

theorem trim_trimStart (s : Bytes) : trim (trimStart s) = trim s := by
  unfold trim trimStart
  rw [dropWords_dropWords]

theorem not_blank_end_iff {s : Bytes} :
    (∀ c ∈ blanks, ¬ Utf8.encode c <:+ s) ↔ ∀ word ∈ blankWords, ¬ word <:+ s := by
  rw [blankWords, List.forall_mem_map]

/-- A text that ends in no blank character is not trimmed at its end. -/
theorem trimEnd_eq_self {s : Bytes} (h : ∀ c ∈ blanks, ¬ Utf8.encode c <:+ s) : trimEnd s = s := by
  have hdrop : dropWords reversedBlankWords s.reverse = s.reverse := by
    apply dropWords_of_not_prefix
    intro word hword hfront
    obtain ⟨word, hmem, rfl⟩ := List.mem_map.mp hword
    exact not_blank_end_iff.mp h word hmem (List.reverse_prefix.mp hfront)
  rw [trimEnd, hdrop, List.reverse_reverse]

theorem trim_eq_nil_iff {s : Bytes} (h : ∀ c ∈ blanks, ¬ Utf8.encode c <:+ s) :
    trim s = [] ↔ s = [] := by
  constructor
  · intro htrim
    have hsuffix : trimStart s <:+ s := dropWords_suffix _ s
    have hstart : trimStart s = [] := by
      rwa [trim, trimEnd_eq_self fun c hc hend => h c hc (hend.trans hsuffix)] at htrim
    by_contra hne
    obtain ⟨word, hmem, hword⟩ := exists_suffix_of_dropWords_eq_nil hstart hne
    obtain ⟨c, hc, rfl⟩ := List.mem_map.mp hmem
    exact h c hc hword
  · rintro rfl
    rw [trim, trimStart_nil, trimEnd_nil]

theorem trimEnd_trimEnd (s : Bytes) : trimEnd (trimEnd s) = trimEnd s := by
  unfold trimEnd
  rw [List.reverse_reverse, dropWords_dropWords]

theorem trimEnd_append_cr (s : Bytes) : trimEnd (s ++ [cr]) = trimEnd s := by
  have hcr : dropWord? reversedBlankWords cr s.reverse = some s.reverse := by
    rfl
  unfold trimEnd
  rw [List.reverse_append, List.reverse_singleton, List.singleton_append, dropWords_of_some hcr]

theorem isApart_blankWords {rest : Bytes} (h : ∀ b ∈ rest.head?, Utf8.isTail b = false) :
    IsApart blankWords rest := by
  intro front back hfront hback hmem hreach
  obtain ⟨c, -, hc⟩ := List.mem_map.mp hmem
  obtain ⟨a, front, rfl⟩ := List.exists_cons_of_ne_nil hfront
  obtain ⟨b, back, rfl⟩ := List.exists_cons_of_ne_nil hback
  obtain ⟨more, rfl⟩ := hreach
  have htail := (Utf8.isTail_of_encode hc).2 b (by simp)
  cases (h b rfl).symm.trans htail

/-- Trimming the front of a text stops at a character that is not blank. -/
theorem trimStart_append_encode {c : Char} (h : c ∉ blanks) (s rest : Bytes) :
    trimStart (s ++ (Utf8.encode c ++ rest)) = trimStart s ++ (Utf8.encode c ++ rest) := by
  apply dropWords_append_of_stop
  · apply isApart_blankWords
    intro b hb
    obtain ⟨lead, tail, hc⟩ := Utf8.exists_encode_eq_cons c
    rw [hc] at hb
    cases hb
    exact (Utf8.isTail_of_encode hc).1
  · apply dropWords_of_not_prefix
    intro word hword hreach
    obtain ⟨e, he, rfl⟩ := List.mem_map.mp hword
    obtain ⟨more, heq⟩ := hreach
    exact h ((Utf8.eq_of_encode_append heq).1 ▸ he)

/-- Trimming the end of a text stops at a character that is not blank. -/
theorem trimEnd_append_encode {c : Char} (h : c ∉ blanks) (s rest : Bytes) :
    trimEnd (s ++ Utf8.encode c ++ rest) = s ++ Utf8.encode c ++ trimEnd rest := by
  have hstop : dropWords reversedBlankWords (rest.reverse ++ (s ++ Utf8.encode c).reverse) =
      dropWords reversedBlankWords rest.reverse ++ (s ++ Utf8.encode c).reverse := by
    apply dropWords_append_of_stop
    · intro front back hfront hback hmem hreach
      obtain ⟨word, hword, hreverse⟩ := List.mem_map.mp hmem
      obtain ⟨e, -, rfl⟩ := List.mem_map.mp hword
      have he : Utf8.encode e = back.reverse ++ front.reverse := by
        rw [← List.reverse_append, ← hreverse, List.reverse_reverse]
      have hsuffix : back.reverse <:+ s ++ Utf8.encode c := by
        rwa [← List.reverse_prefix, List.reverse_reverse]
      have hnil := (Utf8.eq_of_front_suffix he (by simpa using hback) hsuffix).2
      exact hfront (by simpa using hnil)
    · apply dropWords_of_not_prefix
      intro word hword hreach
      obtain ⟨word, hmem, rfl⟩ := List.mem_map.mp hword
      obtain ⟨e, he, rfl⟩ := List.mem_map.mp hmem
      obtain ⟨b, tail, hcons⟩ := Utf8.exists_encode_eq_cons e
      have hsame := Utf8.eq_of_front_suffix (List.append_nil _).symm (by simp [hcons])
        (List.reverse_prefix.mp hreach)
      exact h (hsame.1 ▸ he)
  rw [trimEnd, List.reverse_append, hstop, List.reverse_append, List.reverse_reverse, trimEnd]

/-- Blanks are trimmed at the front. -/
theorem trimStart_encode_append {c : Char} (h : c ∈ blanks) (rest : Bytes) :
    trimStart (Utf8.encode c ++ rest) = trimStart rest := by
  apply dropWords_append_word (List.mem_map_of_mem h) (Utf8.encode_ne_nil c)
  intro word hword left heq
  obtain ⟨e, -, rfl⟩ := List.mem_map.mp hword
  exact (Utf8.eq_of_encode_append heq).2.symm

/-- Blanks are trimmed at the end. -/
theorem trimEnd_append_encode_blank {c : Char} (h : c ∈ blanks) (s : Bytes) :
    trimEnd (s ++ Utf8.encode c) = trimEnd s := by
  have hdrop : dropWords reversedBlankWords ((Utf8.encode c).reverse ++ s.reverse) =
      dropWords reversedBlankWords s.reverse := by
    apply dropWords_append_word (List.mem_map_of_mem (List.mem_map_of_mem h))
      (List.reverse_ne_nil_iff.mpr (Utf8.encode_ne_nil c))
    intro word hword left heq
    obtain ⟨blank, hblank, rfl⟩ := List.mem_map.mp hword
    obtain ⟨e, -, rfl⟩ := List.mem_map.mp hblank
    have hends : s ++ Utf8.encode c = left.reverse ++ Utf8.encode e := by
      simpa using congrArg List.reverse heq
    rw [(Utf8.eq_of_append_encode hends).1, List.reverse_reverse]
  unfold trimEnd
  rw [List.reverse_append, hdrop]

/-- Only whole characters are trimmed. -/
theorem isValid_trim {s : Bytes} (h : Utf8.isValid s = true) : Utf8.isValid (trim s) = true := by
  have hstart : Utf8.isValid (trimStart s) = true := by
    obtain ⟨cs, rfl⟩ := (Utf8.isValid_iff s).mp h
    induction cs with
    | nil => simpa using h
    | cons c cs ih =>
        rw [Utf8.ofChars_cons] at h ⊢
        by_cases hc : c ∈ blanks
        · rw [trimStart_encode_append hc]
          rw [Utf8.isValid_encode_append] at h
          exact ih h
        · have hkeep := trimStart_append_encode hc [] (Utf8.ofChars cs)
          rw [trimStart_nil, List.nil_append] at hkeep
          rwa [hkeep]
  rw [trim]
  generalize trimStart s = s at hstart
  obtain ⟨cs, rfl⟩ := (Utf8.isValid_iff s).mp hstart
  induction cs using List.reverseRecOn with
  | nil => simpa using hstart
  | append_singleton cs c ih =>
      have hchar : Utf8.ofChars [c] = Utf8.encode c := by
        rw [Utf8.ofChars_cons, Utf8.ofChars_nil, List.append_nil]
      rw [Utf8.ofChars_append, hchar] at hstart ⊢
      by_cases hc : c ∈ blanks
      · rw [trimEnd_append_encode_blank hc]
        exact ih ((Utf8.isValid_iff _).mpr ⟨cs, rfl⟩)
      · have hkeep := trimEnd_append_encode hc (Utf8.ofChars cs) []
        rw [List.append_nil, trimEnd_nil, List.append_nil] at hkeep
        rwa [hkeep]

/-- A blank at the end makes no difference. -/
theorem trim_append_encode_blank {c : Char} (h : c ∈ blanks) (s : Bytes) :
    trim (s ++ Utf8.encode c) = trim s := by
  have hapart : IsApart blankWords (Utf8.encode c) := by
    apply isApart_blankWords
    intro b hb
    obtain ⟨lead, tail, hc⟩ := Utf8.exists_encode_eq_cons c
    rw [hc] at hb
    cases hb
    exact (Utf8.isTail_of_encode hc).1
  have hnil : dropWords blankWords (Utf8.encode c) = [] := by
    have hstart := trimStart_encode_append h []
    rwa [List.append_nil, trimStart_nil] at hstart
  rw [trim, trimStart, dropWords_append_of_apart hapart, hnil, trim, trimStart]
  split
  next hfront => rw [hfront]
  next => exact trimEnd_append_encode_blank h _

/-- One carriage return at the end makes no difference. -/
theorem trim_append_cr (s : Bytes) : trim (s ++ [cr]) = trim s := by
  have hblank : '\r' ∈ blanks := by decide
  exact trim_append_encode_blank hblank s

/-- It makes no difference if the end was trimmed before. -/
theorem trim_trimEnd (s : Bytes) : trim (trimEnd s) = trim s := by
  obtain ⟨words, hwords, heq⟩ := exists_flatten_append_dropWords reversedBlankWords s.reverse
  have hs : s = trimEnd s ++ words.flatten.reverse := by
    rw [trimEnd, ← List.reverse_append, ← heq, List.reverse_reverse]
  generalize trimEnd s = front at hs
  clear heq
  subst hs
  -- The words are taken away from the last one, which comes first in the list.
  induction words with
  | nil => simp
  | cons word words ih =>
      obtain ⟨hword, hrest⟩ := List.cons_subset.mp hwords
      obtain ⟨blank, hblank, rfl⟩ := List.mem_map.mp hword
      obtain ⟨c, hc, rfl⟩ := List.mem_map.mp hblank
      rw [List.flatten_cons, List.reverse_append, List.reverse_reverse, ← List.append_assoc,
        trim_append_encode_blank hc]
      exact ih hrest

/-- Blanks around a visible text are trimmed away. -/
theorem trim_padded {lead tail : Bytes} (hlead : trimStart lead = []) (htail : trimEnd tail = [])
    {s : Bytes} (hne : s ≠ []) (hs : ∀ b ∈ s, isVisible b = true) :
    trim (lead ++ s ++ tail) = s := by
  obtain ⟨b, rest, rfl⟩ := List.exists_cons_of_ne_nil hne
  have hfront := trimStart_append_cons (hs b List.mem_cons_self) lead (rest ++ tail)
  obtain ⟨init, last, hlast⟩ : ∃ init last, b :: rest = init ++ [last] := by
    rcases List.eq_nil_or_concat (b :: rest) with hnil | hconcat
    · cases hnil
    · simpa using hconcat
  have hback := trimEnd_append_cons (hs last (by simp [hlast])) init tail
  rw [hlead, List.nil_append] at hfront
  rw [htail] at hback
  rw [trim, List.append_assoc, List.cons_append, hfront, ← List.cons_append, hlast,
    List.append_assoc, List.singleton_append, hback]

end DefinitionFiles.Bytes
