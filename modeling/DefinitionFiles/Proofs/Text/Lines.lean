import DefinitionFiles.Proofs.Text.Cutting

/-!
# Reading lines piece by piece

The lines of a text are its first line and those of what follows the first line feed. This gives an
induction over the lines of a text, and the number of lines.

A reader that takes a text in pieces has its complete lines and the front of the next one, wherever
the text was cut. Once a line reaches the bound it keeps the lines before that one. Under the bound
that is chosen for a whole text, no line is lost.
-/

namespace DefinitionFiles

theorem exists_eq_chomp_append (line : Bytes) :
    ∃ ending, line = chomp line ++ ending ∧ (ending = [] ∨ ending = [Bytes.cr]) := by
  unfold chomp
  split
  next hlast =>
    obtain ⟨init, rfl⟩ := List.getLast?_eq_some_iff.mp hlast
    exact ⟨[Bytes.cr], by simp, .inr rfl⟩
  next => exact ⟨[], by simp, .inl rfl⟩

theorem chomp_of_notMem {line : Bytes} (h : Bytes.cr ∉ line) : chomp line = line :=
  if_neg fun hlast => h (List.mem_of_getLast? hlast)

theorem chomp_append_cr (line : Bytes) : chomp (line ++ [Bytes.cr]) = line := by
  rw [chomp, if_pos List.getLast?_concat, List.dropLast_concat]

theorem lf_notMem_append_cr {line : Bytes} (h : Bytes.lf ∉ line) :
    Bytes.lf ∉ line ++ [Bytes.cr] := by
  have hne : Bytes.lf ≠ Bytes.cr := by decide
  simp [h, hne]

/-- The text of complete lines, each with its line feed. -/
def unlines (lines : List Bytes) : Bytes :=
  lines.flatMap (· ++ [Bytes.lf])

theorem unlines_concat (lines : List Bytes) (line : Bytes) :
    unlines (lines ++ [line]) = unlines lines ++ line ++ [Bytes.lf] := by
  simp [unlines]

theorem split_unlines_append {lines : List Bytes} (h : ∀ line ∈ lines, Bytes.lf ∉ line)
    (rest : Bytes) :
    Bytes.split Bytes.lf (unlines lines ++ rest) = lines ++ Bytes.split Bytes.lf rest := by
  induction lines with
  | nil => rfl
  | cons line lines ih =>
      have hsplit := Bytes.split_append_cons (h line List.mem_cons_self) (unlines lines ++ rest)
      rw [ih fun other hother => h other (List.mem_cons_of_mem _ hother)] at hsplit
      simpa [unlines] using hsplit

/-- Text that holds no line feed stands at the front of its line. -/
theorem exists_split_append {front : Bytes} (h : Bytes.lf ∉ front) (rest : Bytes) :
    ∃ more later, Bytes.split Bytes.lf (front ++ rest) = (front ++ more) :: later := by
  by_cases hlf : Bytes.lf ∈ rest
  · obtain ⟨more, later, rfl, hmore⟩ := List.eq_append_cons_of_mem hlf
    refine ⟨more, Bytes.split Bytes.lf later, ?_⟩
    rw [← List.append_assoc, Bytes.split_append_cons (by simp [h, hmore])]
  · exact ⟨rest, [], Bytes.split_of_notMem (by simp [h, hlf])⟩

/-- The lines of a text by the pieces between its line feeds: text behind the last line feed counts
unless it is empty. -/
theorem lines_of_split {text last : Bytes} {pieces : List Bytes}
    (h : Bytes.split Bytes.lf text = pieces ++ [last]) :
    lines text = (pieces ++ if last = [] then [] else [last]).map chomp := by
  rw [lines, rawLines, h]
  by_cases hlast : last = [] <;> simp [hlast]

theorem exists_split_concat (sep : UInt8) (text : Bytes) :
    ∃ pieces last, Bytes.split sep text = pieces ++ [last] := by
  have hlength := Bytes.length_split sep text
  rcases List.eq_nil_or_concat (Bytes.split sep text) with hnil | hconcat
  · simp [hnil] at hlength
  · simpa using hconcat

/-- Whole lines and what follows them have the lines of both. -/
theorem lines_append {front : Bytes} (hfront : front = [] ∨ front.getLast? = some Bytes.lf)
    (rest : Bytes) : lines (front ++ rest) = lines front ++ lines rest := by
  rcases hfront with rfl | hlast
  · rfl
  · obtain ⟨init, rfl⟩ := List.getLast?_eq_some_iff.mp hlast
    obtain ⟨pieces, last, hrest⟩ := exists_split_concat Bytes.lf rest
    have hwhole : Bytes.split Bytes.lf (init ++ [Bytes.lf]) = Bytes.split Bytes.lf init ++ [[]] :=
      Bytes.split_append_sep Bytes.lf init []
    have hsplit := Bytes.split_append_sep Bytes.lf init rest
    rw [hrest, ← List.append_assoc] at hsplit
    rw [List.append_assoc, List.singleton_append, lines_of_split hsplit, lines_of_split hwhole,
      lines_of_split hrest]
    simp

theorem lines_of_notMem {line : Bytes} (hlf : Bytes.lf ∉ line) (hne : line ≠ []) :
    lines line = [chomp line] := by
  have hsplit : Bytes.split Bytes.lf line = [] ++ [line] := Bytes.split_of_notMem hlf
  rw [lines_of_split hsplit, if_neg hne]
  rfl

theorem lines_append_lf {line : Bytes} (hlf : Bytes.lf ∉ line) (rest : Bytes) :
    lines (line ++ Bytes.lf :: rest) = chomp line :: lines rest := by
  have hsplit : Bytes.split Bytes.lf (line ++ [Bytes.lf]) = [line] ++ [[]] :=
    Bytes.split_append_cons hlf []
  have hfirst : lines (line ++ [Bytes.lf]) = [chomp line] := lines_of_split hsplit
  rw [← List.singleton_append, ← List.append_assoc, lines_append (.inr (by simp)), hfirst,
    List.singleton_append]

/-- Induction over the lines of a text. -/
@[elab_as_elim]
theorem lineInduction {motive : Bytes → Prop} (last : ∀ text, Bytes.lf ∉ text → motive text)
    (line : ∀ line rest, Bytes.lf ∉ line → motive rest → motive (line ++ Bytes.lf :: rest))
    (text : Bytes) : motive text := by
  induction hcount : text.count Bytes.lf generalizing text with
  | zero => exact last text (List.count_eq_zero.mp hcount)
  | succ n ih =>
      have hmem : Bytes.lf ∈ text := List.count_pos_iff.mp (by omega)
      obtain ⟨front, rest, rfl, hfront⟩ := List.eq_append_cons_of_mem hmem
      apply line front rest hfront
      apply ih
      simpa [List.count_append, List.count_eq_zero.mpr hfront] using hcount

/-- Behind a line, the rest of a text ends in a line feed, or is empty, exactly if the text ends in
one. -/
theorem isWhole_append_lf (line rest : Bytes) :
    (line ++ Bytes.lf :: rest).getLast? = some Bytes.lf ↔
      rest = [] ∨ rest.getLast? = some Bytes.lf := by
  cases rest with
  | nil => simp
  | cons b rest => simp [List.getLast?_cons_cons]

/-- The number of lines of a text: one for every line feed, and one for text behind the last. -/
theorem length_lines (text : Bytes) :
    (lines text).length =
      text.count Bytes.lf + if text = [] ∨ text.getLast? = some Bytes.lf then 0 else 1 := by
  induction text using lineInduction with
  | last text hlf =>
      rw [List.count_eq_zero.mpr hlf]
      by_cases hnil : text = []
      · subst hnil
        rfl
      · have hlast : text.getLast? ≠ some Bytes.lf := fun hlast => hlf (List.mem_of_getLast? hlast)
        rw [lines_of_notMem hlf hnil, if_neg (not_or.mpr ⟨hnil, hlast⟩)]
        rfl
  | line line rest hlf ih =>
      have hne : line ++ Bytes.lf :: rest ≠ [] := by simp
      rw [lines_append_lf hlf, List.length_cons, ih, List.count_append, List.count_cons_self,
        List.count_eq_zero.mpr hlf]
      simp only [hne, isWhole_append_lf, false_or]
      omega

theorem length_lines_of_whole {front : Bytes}
    (hfront : front = [] ∨ front.getLast? = some Bytes.lf) :
    (lines front).length = front.count Bytes.lf := by
  rw [length_lines, if_pos hfront, Nat.add_zero]

/-- A text is whole lines and a last piece without a line feed. -/
theorem exists_lastPiece (text : Bytes) :
    ∃ front last, text = front ++ last ∧ (front = [] ∨ front.getLast? = some Bytes.lf) ∧
      Bytes.lf ∉ last := by
  induction text using lineInduction with
  | last text hlf => exact ⟨[], text, rfl, .inl rfl, hlf⟩
  | line line rest _ ih =>
      obtain ⟨front, last, rfl, hfront, hlast⟩ := ih
      have hwhole := (isWhole_append_lf line front).mpr hfront
      exact ⟨line ++ Bytes.lf :: front, last, by simp, .inr hwhole, hlast⟩

theorem lines_unlines {pieces : List Bytes} (h : ∀ piece ∈ pieces, Bytes.lf ∉ piece) :
    lines (unlines pieces) = pieces.map chomp := by
  have hsplit := split_unlines_append h []
  rw [List.append_nil, Bytes.split_of_notMem List.not_mem_nil] at hsplit
  rw [lines_of_split hsplit, if_pos rfl, List.append_nil]

namespace LineReader

/-- What a reader has of the text that it was given. -/
inductive Holds (bound : Nat) : LineReader → (text : Bytes) → Prop where
  /-- All lines fit so far. -/
  | fitting {completed : List Bytes} {current : Bytes}
      (hcompleted : ∀ line ∈ completed, Bytes.lf ∉ line ∧ line.length < bound)
      (hcurrent : Bytes.lf ∉ current ∧ current.length < bound) :
      Holds bound ⟨completed, current, current.length, false⟩
        (unlines completed.reverse ++ current.reverse)
  /-- A line reached the bound. -/
  | long {completed : List Bytes} {current : Bytes} {size : Nat} {long rest : Bytes}
      (hcompleted : ∀ line ∈ completed, Bytes.lf ∉ line ∧ line.length < bound)
      (hlong : Bytes.lf ∉ long ∧ bound ≤ long.length) :
      Holds bound ⟨completed, current, size, true⟩ (unlines completed.reverse ++ long ++ rest)

theorem holds_start {bound : Nat} (h : 0 < bound) : Holds bound {} [] := by
  have hcompleted : ∀ line ∈ ([] : List Bytes), Bytes.lf ∉ line ∧ line.length < bound :=
    fun _ hline => absurd hline List.not_mem_nil
  exact .fitting hcompleted ⟨List.not_mem_nil, h⟩

namespace Holds

variable {bound : Nat} {r : LineReader} {text : Bytes}

theorem push (h : Holds bound r text) (b : UInt8) : Holds bound (r.push bound b) (text ++ [b]) := by
  cases h with
  | @fitting completed current hcompleted hcurrent =>
      unfold LineReader.push
      by_cases hb : b = Bytes.lf
      · subst hb
        have hnext : Holds bound ⟨current.reverse :: completed, [], 0, false⟩
            (unlines (current.reverse :: completed).reverse ++ [].reverse) := by
          refine .fitting ?_ ⟨List.not_mem_nil, Nat.lt_of_le_of_lt (Nat.zero_le _) hcurrent.2⟩
          intro line hline
          rcases List.mem_cons.mp hline with rfl | hline
          · simpa using hcurrent
          · exact hcompleted line hline
        simpa [unlines_concat] using hnext
      · by_cases hfits : current.length + 1 < bound
        · have hnext : Holds bound ⟨completed, b :: current, (b :: current).length, false⟩
              (unlines completed.reverse ++ (b :: current).reverse) :=
            .fitting hcompleted ⟨by simp [Ne.symm hb, hcurrent.1], hfits⟩
          simpa [hb, hfits] using hnext
        · have hnext : Holds bound ⟨completed, current, current.length, true⟩
              (unlines completed.reverse ++ (current.reverse ++ [b]) ++ []) := by
            refine .long hcompleted ⟨by simp [Ne.symm hb, hcurrent.1], ?_⟩
            simp only [List.length_append, List.length_reverse, List.length_singleton]
            omega
          simpa [hb, hfits] using hnext
  | @long completed current size long rest hcompleted hlong =>
      rw [List.append_assoc]
      exact .long hcompleted hlong

theorem feed (h : Holds bound r text) (piece : Bytes) :
    Holds bound (r.feed bound piece) (text ++ piece) := by
  induction piece generalizing r text with
  | nil => simpa [LineReader.feed] using h
  | cons b piece ih => simpa [LineReader.feed] using ih (h.push b)

/-- Where a text is cut into pieces makes no difference. -/
theorem foldl_feed (h : Holds bound r text) (pieces : List Bytes) :
    Holds bound (pieces.foldl (LineReader.feed bound) r) (text ++ pieces.flatten) := by
  induction pieces generalizing r text with
  | nil => simpa using h
  | cons piece pieces ih => simpa using ih (h.feed piece)

/-- A reader has all lines of its text, or those before the first one that reaches the bound. -/
theorem lines_eq (h : Holds bound r text) :
    (r.overflowed = false ∧ (∀ line ∈ Bytes.split Bytes.lf text, line.length < bound) ∧
        r.lines = DefinitionFiles.lines text) ∨
      (r.overflowed = true ∧ (∃ line ∈ Bytes.split Bytes.lf text, bound ≤ line.length) ∧
        r.lines = DefinitionFiles.lines
          (unlines ((Bytes.split Bytes.lf text).takeWhile (·.length < bound)))) := by
  cases h with
  | @fitting completed current hcompleted hcurrent =>
      have hlast : Bytes.lf ∉ current.reverse := by simpa using hcurrent.1
      have hfree : ∀ line ∈ completed.reverse, Bytes.lf ∉ line :=
        fun line hline => (hcompleted line (List.mem_reverse.mp hline)).1
      have hsplit := split_unlines_append hfree current.reverse
      rw [Bytes.split_of_notMem hlast] at hsplit
      refine .inl ⟨rfl, ?_, ?_⟩
      · rw [hsplit]
        intro line hline
        rcases List.mem_append.mp hline with hline | hline
        · exact (hcompleted line (List.mem_reverse.mp hline)).2
        · rw [List.mem_singleton.mp hline, List.length_reverse]
          exact hcurrent.2
      · rw [lines_of_split hsplit]
        cases current <;> simp [LineReader.lines]
  | @long completed current size long rest hcompleted hlong =>
      have hfree : ∀ line ∈ completed.reverse, Bytes.lf ∉ line :=
        fun line hline => (hcompleted line (List.mem_reverse.mp hline)).1
      have hshort : ∀ line ∈ completed.reverse, decide (line.length < bound) = true :=
        fun line hline => decide_eq_true (hcompleted line (List.mem_reverse.mp hline)).2
      obtain ⟨more, later, hrest⟩ := exists_split_append hlong.1 rest
      have hreach : bound ≤ (long ++ more).length := by
        rw [List.length_append]
        omega
      have hsplit := split_unlines_append hfree (long ++ rest)
      rw [hrest, ← List.append_assoc] at hsplit
      refine .inr ⟨rfl, ⟨long ++ more, by rw [hsplit]; simp, hreach⟩, ?_⟩
      rw [hsplit, List.takeWhile_append_of_pos hshort, List.takeWhile_cons_of_neg (by simpa using
        hreach), List.append_nil]
      rw [lines_unlines hfree]
      rfl

end Holds

theorem holds_run {bound : Nat} (h : 0 < bound) (pieces : List Bytes) :
    Holds bound (run bound pieces) pieces.flatten := by
  simpa [run] using (holds_start h).foldl_feed pieces

theorem length_le_of_mem_split {sep : UInt8} {s piece : Bytes} (h : piece ∈ Bytes.split sep s) :
    piece.length ≤ s.length := by
  obtain ⟨earlier, later, hsplit⟩ := List.append_of_mem h
  obtain ⟨front, rest, rfl, -⟩ := Bytes.exists_append_of_split hsplit
  simp only [List.length_append]
  omega

/-- Under its own bound a text is read to its end. -/
theorem lines_run_boundOf (text : Bytes) :
    (run (boundOf text) [text]).lines = DefinitionFiles.lines text := by
  have hbound : text.length + 1 ≤ boundOf text := Nat.le_max_right _ _
  have hpositive : 0 < boundOf text := by omega
  have hholds := holds_run hpositive [text]
  rw [List.flatten_singleton] at hholds
  rcases hholds.lines_eq with ⟨-, -, hlines⟩ | ⟨-, ⟨line, hline, hlong⟩, -⟩
  · exact hlines
  · have hlength := length_le_of_mem_split hline
    omega

end LineReader

end DefinitionFiles
