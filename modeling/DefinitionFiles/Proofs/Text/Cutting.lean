import DefinitionFiles.Text.Lines
import Mathlib.Data.List.Infix
import Mathlib.Data.List.TakeDrop
import Mathlib.Data.List.TakeWhile

/-!
# Cutting byte texts

A text is cut at the first separator, or at every one. Both are determined by where the separators
stand, and the number of lines by the number of line feeds. A word that does not hold a byte is
found on one side of it or on the other.
-/

namespace DefinitionFiles

namespace Bytes

/-- The longest front of a text that satisfies `p`, when what follows starts with a byte that does
not. -/
theorem span_append_cons {p : UInt8 → Bool} {before : Bytes} {b : UInt8} {rest : Bytes}
    (hbefore : ∀ a ∈ before, p a = true) (hb : p b = false) :
    (before ++ b :: rest).span p = (before, b :: rest) := by
  rw [List.span_eq_takeWhile_dropWhile, List.takeWhile_append_of_pos hbefore,
    List.dropWhile_append_of_pos hbefore]
  simp [hb]

/-- A text is cut at the first separator. -/
theorem cut?_eq_some_iff {sep : UInt8} {s before rest : Bytes} :
    cut? sep s = some (before, rest) ↔ s = before ++ sep :: rest ∧ sep ∉ before := by
  constructor
  · intro h
    unfold cut? at h
    split at h
    · cases h
    next b tail hdrop =>
      cases h
      have hb : b = sep := by
        have hhead := List.head?_dropWhile_not (· != sep) s
        rw [hdrop] at hhead
        simpa using hhead
      subst hb
      refine ⟨?_, ?_⟩
      · rw [← hdrop, List.takeWhile_append_dropWhile]
      · intro hmem
        simpa using List.mem_takeWhile_imp hmem
  · rintro ⟨rfl, hsep⟩
    have hbefore : ∀ a ∈ before, (a != sep) = true := by
      intro a ha
      exact bne_iff_ne.mpr fun h => hsep (h ▸ ha)
    unfold cut?
    rw [List.dropWhile_append_of_pos hbefore, List.takeWhile_append_of_pos hbefore]
    simp

theorem cut?_eq_none_iff {sep : UInt8} {s : Bytes} : cut? sep s = none ↔ sep ∉ s := by
  constructor
  · intro h hmem
    obtain ⟨before, rest, hs, hbefore⟩ := List.eq_append_cons_of_mem hmem
    rw [cut?_eq_some_iff.mpr ⟨hs, hbefore⟩] at h
    cases h
  · intro h
    cases hcut : cut? sep s with
    | none => rfl
    | some parts =>
        obtain ⟨rfl, -⟩ := cut?_eq_some_iff.mp hcut
        exact absurd (by simp) h

/-- A text is cut at the last separator. -/
theorem cutLast?_eq_some_iff {sep : UInt8} {s before rest : Bytes} :
    cutLast? sep s = some (before, rest) ↔ s = before ++ sep :: rest ∧ sep ∉ rest := by
  have hcut : cutLast? sep s = some (before, rest) ↔
      cut? sep s.reverse = some (rest.reverse, before.reverse) := by
    simp only [cutLast?, Option.map_eq_some_iff, Prod.exists, Prod.mk.injEq,
      List.reverse_eq_iff]
    constructor
    · rintro ⟨_, _, h, rfl, rfl⟩
      exact h
    · exact fun h => ⟨_, _, h, rfl, rfl⟩
  rw [hcut, cut?_eq_some_iff, List.reverse_eq_iff, List.mem_reverse]
  simp

theorem cutLast?_eq_none_iff {sep : UInt8} {s : Bytes} : cutLast? sep s = none ↔ sep ∉ s := by
  rw [cutLast?, Option.map_eq_none_iff, cut?_eq_none_iff, List.mem_reverse]

theorem after?_eq_some_iff {word s rest : Bytes} : after? word s = some rest ↔ s = word ++ rest := by
  induction word generalizing s with
  | nil => simp [after?]
  | cons w word ih =>
      cases s with
      | nil => simp [after?]
      | cons b s =>
          by_cases hb : w = b
          · simp [after?, hb, ih]
          · simp [after?, hb, Ne.symm hb]

theorem after?_append (word rest : Bytes) : after? word (word ++ rest) = some rest :=
  after?_eq_some_iff.mpr rfl

theorem findFrom_eq_none_iff {word : Bytes} {start : Nat} {s : Bytes} :
    findFrom word start s = none ↔ ¬ word <:+: s := by
  induction s generalizing start with
  | nil => simp [findFrom]
  | cons b s ih =>
      rw [findFrom, List.infix_cons_iff, not_or, ← List.isPrefixOf_iff_prefix]
      split
      next hfront => simp [hfront]
      next hfront => simp [hfront, ih]

theorem find?_eq_none_iff {word s : Bytes} : find? word s = none ↔ ¬ word <:+: s :=
  findFrom_eq_none_iff

theorem add_length_le_of_findFrom {word s : Bytes} {start offset : Nat}
    (h : findFrom word start s = some offset) :
    start ≤ offset ∧ offset + word.length ≤ start + s.length := by
  induction s generalizing start with
  | nil =>
      rw [findFrom] at h
      split at h
      next hword =>
        cases h
        simp [hword]
      next => cases h
  | cons b s ih =>
      rw [findFrom] at h
      split at h
      next hfront =>
        cases h
        have hlength := (List.isPrefixOf_iff_prefix.mp hfront).length_le
        omega
      next =>
        have hlater := ih h
        rw [List.length_cons]
        omega

theorem prefix_of_findFrom {word s : Bytes} {start offset : Nat}
    (h : findFrom word start s = some offset) : word <+: s.drop (offset - start) := by
  induction s generalizing start with
  | nil =>
      rw [findFrom] at h
      split at h
      next hword =>
        rw [hword]
        exact List.nil_prefix
      next => cases h
  | cons b s ih =>
      rw [findFrom] at h
      split at h
      next hfront =>
        cases h
        rw [Nat.sub_self]
        exact List.isPrefixOf_iff_prefix.mp hfront
      next =>
        have hstart := (add_length_le_of_findFrom h).1
        rw [show offset - start = offset - (start + 1) + 1 by omega, List.drop_succ_cons]
        exact ih h

/-- A word stands where it is found. -/
theorem exists_append_of_find? {word s : Bytes} {offset : Nat} (h : find? word s = some offset) :
    ∃ rest, s = s.take offset ++ (word ++ rest) := by
  obtain ⟨rest, hrest⟩ := prefix_of_findFrom h
  refine ⟨rest, ?_⟩
  rw [hrest, Nat.sub_zero, List.take_append_drop]

/-- A word is found at the same place whatever follows the text. -/
theorem findFrom_append {word s : Bytes} {start offset : Nat}
    (h : findFrom word start s = some offset) (rest : Bytes) :
    findFrom word start (s ++ rest) = some offset := by
  induction s generalizing start with
  | nil =>
      rw [findFrom] at h
      split at h
      next hword =>
        cases h
        cases rest <;> simp [findFrom, hword]
      next => cases h
  | cons b s ih =>
      rw [List.cons_append, findFrom]
      rw [findFrom] at h
      split at h
      next hfront =>
        have hlonger : word <+: b :: (s ++ rest) :=
          (List.isPrefixOf_iff_prefix.mp hfront).trans (List.prefix_append (b :: s) rest)
        rw [if_pos (List.isPrefixOf_iff_prefix.mpr hlonger), h]
      next hfront =>
        -- The word fits behind this byte, so that it cannot reach from here into what follows.
        have hbound := add_length_le_of_findFrom h
        have hnot : ¬ word <+: b :: (s ++ rest) := by
          intro hlonger
          apply hfront
          apply List.isPrefixOf_iff_prefix.mpr
          exact List.prefix_of_prefix_length_le hlonger (List.prefix_append (b :: s) rest)
            (by rw [List.length_cons]; omega)
        rw [if_neg (mt List.isPrefixOf_iff_prefix.mp hnot), ih h]

theorem find?_append {word s : Bytes} {offset : Nat} (h : find? word s = some offset)
    (rest : Bytes) : find? word (s ++ rest) = some offset :=
  findFrom_append h rest

theorem find?_append_left (word rest : Bytes) : find? word (word ++ rest) = some 0 := by
  cases hs : word ++ rest with
  | nil => simp [find?, findFrom, (List.append_eq_nil_iff.mp hs).1]
  | cons b s =>
      have hfront : word <+: b :: s := hs ▸ List.prefix_append word rest
      rw [find?, findFrom, if_pos (List.isPrefixOf_iff_prefix.mpr hfront)]

theorem add_length_le_of_find? {word s : Bytes} {offset : Nat} (h : find? word s = some offset) :
    offset + word.length ≤ s.length := by
  simpa using (add_length_le_of_findFrom h).2

/-- A word that does not hold a byte cannot stand across it. -/
theorem infix_append_cons {b : UInt8} {word s rest : Bytes} (hb : b ∉ word)
    (h : word <:+: s ++ b :: rest) : word <:+: s ∨ word <:+: rest := by
  obtain ⟨front, back, heq⟩ := h
  rw [List.append_assoc] at heq
  rcases List.append_eq_append_iff.mp heq with ⟨gap, rfl, hgap⟩ | ⟨gap, rfl, hgap⟩
  · -- The word begins in front of the byte, so that it ends there too.
    rcases List.append_eq_append_iff.mp hgap with ⟨more, rfl, -⟩ | ⟨more, rfl, hmore⟩
    · exact .inl ⟨front, more, List.append_assoc _ _ _⟩
    · cases more with
      | nil => exact .inl ⟨front, [], by simp⟩
      | cons c more =>
          obtain ⟨rfl, -⟩ := List.cons.inj hmore
          simp at hb
  · cases gap with
    | nil =>
        cases word with
        | nil => exact .inl List.nil_infix
        | cons w word =>
            obtain ⟨rfl, -⟩ := List.cons.inj hgap
            exact absurd List.mem_cons_self hb
    | cons c gap =>
        obtain ⟨-, rfl⟩ := List.cons.inj hgap
        exact .inr ⟨gap, back, List.append_assoc _ _ _⟩

theorem split_cons (sep b : UInt8) (s : Bytes) :
    split sep (b :: s) = if b = sep then [] :: split sep s
      else match split sep s with
        | piece :: rest => (b :: piece) :: rest
        | [] => [[b]] :=
  rfl

theorem length_split (sep : UInt8) (s : Bytes) : (split sep s).length = s.count sep + 1 := by
  induction s with
  | nil => rfl
  | cons b s ih =>
      rw [split_cons]
      split
      next heq => simp [ih, heq]
      next hne =>
        rw [List.count_cons_of_ne hne, ← ih]
        cases hpieces : split sep s with
        | nil => simp [hpieces] at ih
        | cons piece rest => rfl

theorem split_of_notMem {sep : UInt8} {s : Bytes} (h : sep ∉ s) : split sep s = [s] := by
  induction s with
  | nil => rfl
  | cons b s ih =>
      obtain ⟨hb, hs⟩ := not_or.mp (mt List.mem_cons.mpr h)
      rw [split_cons, if_neg (Ne.symm hb), ih hs]

theorem split_append_cons {sep : UInt8} {piece : Bytes} (h : sep ∉ piece) (rest : Bytes) :
    split sep (piece ++ sep :: rest) = piece :: split sep rest := by
  induction piece with
  | nil => rw [List.nil_append, split_cons, if_pos rfl]
  | cons b piece ih =>
      obtain ⟨hb, hpiece⟩ := not_or.mp (mt List.mem_cons.mpr h)
      rw [List.cons_append, split_cons, if_neg (Ne.symm hb), ih hpiece]

/-- A text falls apart at each of its separators. -/
theorem split_append_sep (sep : UInt8) (s rest : Bytes) :
    split sep (s ++ sep :: rest) = split sep s ++ split sep rest := by
  induction s with
  | nil => rw [List.nil_append, split_cons, if_pos rfl]; rfl
  | cons b s ih =>
      rw [List.cons_append, split_cons, split_cons, ih]
      split
      next => rfl
      next =>
        cases hpieces : split sep s with
        | nil =>
            have hlength := length_split sep s
            simp [hpieces] at hlength
        | cons piece pieces => rfl

/-- A piece stands between two separators, or between one and an end of the text. -/
theorem exists_append_of_split {sep : UInt8} {s piece : Bytes} {earlier later : List Bytes}
    (h : split sep s = earlier ++ piece :: later) :
    ∃ front rest, s = front ++ piece ++ rest ∧ (front = [] ∨ front.getLast? = some sep) ∧
      front.count sep = earlier.length ∧ sep ∉ piece ∧
      (rest = [] ∧ later = [] ∨ ∃ behind, rest = sep :: behind ∧ later = split sep behind) := by
  induction earlier generalizing s with
  | nil =>
      by_cases hsep : sep ∈ s
      · obtain ⟨first, behind, rfl, hfirst⟩ := List.eq_append_cons_of_mem hsep
        rw [split_append_cons hfirst] at h
        obtain ⟨rfl, rfl⟩ := List.cons.inj h
        exact ⟨[], sep :: behind, rfl, .inl rfl, rfl, hfirst, .inr ⟨behind, rfl, rfl⟩⟩
      · rw [split_of_notMem hsep] at h
        obtain ⟨rfl, rfl⟩ := List.cons.inj h
        exact ⟨[], [], by simp, .inl rfl, rfl, hsep, .inl ⟨rfl, rfl⟩⟩
  | cons first earlier ih =>
      by_cases hsep : sep ∈ s
      · obtain ⟨line, behind, rfl, hline⟩ := List.eq_append_cons_of_mem hsep
        rw [split_append_cons hline] at h
        obtain ⟨rfl, hbehind⟩ := List.cons.inj h
        obtain ⟨front, rest, rfl, hfront, hcount, hpiece, hrest⟩ := ih hbehind
        refine ⟨line ++ sep :: front, rest, by simp, .inr ?_, ?_, hpiece, hrest⟩
        · rcases hfront with rfl | hlast
          · simp
          · simp [List.getLast?_append, List.getLast?_cons, hlast]
        · simp [List.count_append, List.count_eq_zero.mpr hline, hcount]
      · rw [split_of_notMem hsep] at h
        cases earlier <;> cases h

theorem notMem_of_mem_split {sep : UInt8} {s piece : Bytes} (h : piece ∈ split sep s) :
    sep ∉ piece := by
  obtain ⟨earlier, later, hsplit⟩ := List.append_of_mem h
  obtain ⟨-, -, -, -, -, hpiece, -⟩ := exists_append_of_split hsplit
  exact hpiece

theorem join_cons {sep : UInt8} (piece : Bytes) {rest : List Bytes} (h : rest ≠ []) :
    join [sep] (piece :: rest) = piece ++ sep :: join [sep] rest := by
  obtain ⟨next, rest, rfl⟩ := List.exists_cons_of_ne_nil h
  rfl

/-- What was joined falls apart into the same pieces, if none of them has the separator. -/
theorem split_join {sep : UInt8} {pieces : List Bytes} (hne : pieces ≠ [])
    (h : ∀ piece ∈ pieces, sep ∉ piece) : split sep (join [sep] pieces) = pieces := by
  induction pieces with
  | nil => exact absurd rfl hne
  | cons piece rest ih =>
      have hpiece := h piece List.mem_cons_self
      cases rest with
      | nil => simpa [join] using split_of_notMem hpiece
      | cons next rest =>
          rw [join_cons piece (List.cons_ne_nil _ _), split_append_cons hpiece,
            ih (List.cons_ne_nil _ _) fun p hp => h p (List.mem_cons_of_mem _ hp)]

theorem split_ne_nil (sep : UInt8) (s : Bytes) : split sep s ≠ [] := by
  have hlength := length_split sep s
  intro hnil
  simp [hnil] at hlength

/-- The pieces of a text make up the text again. -/
theorem join_split (sep : UInt8) (s : Bytes) : join [sep] (split sep s) = s := by
  induction s with
  | nil => rfl
  | cons b s ih =>
      rw [split_cons]
      split
      next hb => rw [join_cons [] (split_ne_nil sep s), ih, hb, List.nil_append]
      next =>
        cases hpieces : split sep s with
        | nil => exact absurd hpieces (split_ne_nil sep s)
        | cons piece rest =>
            rw [hpieces] at ih
            cases rest with
            | nil => simpa [join] using ih
            | cons next rest =>
                rw [join_cons piece (List.cons_ne_nil _ _)] at ih
                rw [join_cons (b :: piece) (List.cons_ne_nil _ _), List.cons_append, ih]

end Bytes

/-- A text has at most one line more than it has line feeds. -/
theorem length_lines_le (text : Bytes) : (lines text).length ≤ text.count Bytes.lf + 1 := by
  rw [lines, List.length_map, ← Bytes.length_split, rawLines]
  split
  · simp
  · exact Nat.le_refl _

end DefinitionFiles
