import DefinitionFiles.Proofs.Editor.Position
import DefinitionFiles.Proofs.Outline.History

/-!
# Line endings

Whether the lines of a text end in a line feed or in a carriage return and a line feed makes no
difference to its outline. A position stands at the same place of the same line in both: its offset
moves by the carriage returns of the lines before it.
-/

namespace DefinitionFiles

/-- A text with a carriage return in front of every line feed. -/
def crlf (text : Bytes) : Bytes :=
  text.flatMap fun b => if b = Bytes.lf then [Bytes.cr, Bytes.lf] else [b]

theorem crlf_of_notMem {text : Bytes} (h : Bytes.lf ∉ text) : crlf text = text := by
  have hkeep : ∀ b ∈ text, (if b = Bytes.lf then [Bytes.cr, Bytes.lf] else [b]) = [b] := by
    intro b hb
    apply if_neg
    rintro rfl
    exact h hb
  rw [crlf, List.flatMap_congr hkeep, List.flatMap_singleton']

theorem crlf_append_lf {line : Bytes} (h : Bytes.lf ∉ line) (rest : Bytes) :
    crlf (line ++ Bytes.lf :: rest) = (line ++ [Bytes.cr]) ++ Bytes.lf :: crlf rest := by
  have happend : crlf (line ++ Bytes.lf :: rest) = crlf line ++ crlf (Bytes.lf :: rest) :=
    List.flatMap_append
  rw [happend, crlf_of_notMem h]
  simp [crlf]

theorem cr_notMem_append_lf_iff {line rest : Bytes} :
    Bytes.cr ∉ line ++ Bytes.lf :: rest ↔ Bytes.cr ∉ line ∧ Bytes.cr ∉ rest := by
  have hne : Bytes.cr ≠ Bytes.lf := by decide
  simp [hne]

/-- The carriage returns belong to the terminators. -/
theorem lines_crlf {text : Bytes} (h : Bytes.cr ∉ text) : lines (crlf text) = lines text := by
  induction text using lineInduction with
  | last text hlf => rw [crlf_of_notMem hlf]
  | line line rest hlf ih =>
      obtain ⟨hline, hrest⟩ := cr_notMem_append_lf_iff.mp h
      rw [crlf_append_lf hlf, lines_append_lf (lf_notMem_append_cr hlf), lines_append_lf hlf,
        chomp_append_cr, chomp_of_notMem hline, ih hrest]

namespace Position

/-- Behind a line, a position is looked up in what follows that line. -/
theorem offset_append_lf {line : Bytes} (h : Bytes.lf ∉ line) (rest : Bytes) (n : Nat)
    (units : Int) :
    offset (line ++ Bytes.lf :: rest) { line := (n + 1 : Nat), character := units } =
      line.length + 1 + offset rest { line := n, character := units } := by
  have hdrop : dropLines? (n + 1) (line ++ Bytes.lf :: rest) = dropLines? n rest := by
    rw [dropLines?, Bytes.cut?_eq_some_iff.mpr ⟨rfl, h⟩]
  simp only [offset, Int.not_lt.mpr (Int.natCast_nonneg _), if_false, Int.toNat_natCast, hdrop]
  cases hrest : dropLines? n rest with
  | none =>
      simp only [List.length_append, List.length_cons]
      omega
  | some behind =>
      have hlength := length_of_dropLines? hrest
      simp only [List.length_append, List.length_cons]
      omega

/-- On the first line an offset counts bytes of that line, up to its end. -/
theorem offset_zero (text : Bytes) (units : Int) :
    offset text { line := 0, character := units } =
      (frontLine text).length - (dropUnits units (frontLine text)).length := by
  simp [offset, dropLines?]

theorem frontLine_crlf {text : Bytes} (h : Bytes.cr ∉ text) :
    frontLine (crlf text) = frontLine text := by
  cases text using lineInduction with
  | last text hlf => rw [crlf_of_notMem hlf]
  | line line rest hlf _ =>
      obtain ⟨hline, -⟩ := cr_notMem_append_lf_iff.mp h
      rw [crlf_append_lf hlf, frontLine_append_lf (lf_notMem_append_cr hlf),
        frontLine_append_lf hlf, chomp_append_cr, chomp_of_notMem hline]

theorem exists_eq_frontLine_append (text : Bytes) :
    Bytes.lf ∉ frontLine text ∧ ∃ behind, text = frontLine text ++ behind := by
  cases text using lineInduction with
  | last text hlf =>
      rw [frontLine_of_notMem hlf]
      exact ⟨hlf, [], by simp⟩
  | line line rest hlf _ =>
      rw [frontLine_append_lf hlf]
      obtain ⟨ending, hending, -⟩ := exists_eq_chomp_append line
      refine ⟨fun hmem => hlf ?_, ending ++ Bytes.lf :: rest, ?_⟩
      · rw [hending]
        exact List.mem_append_left _ hmem
      · rw [← List.append_assoc, ← hending]

/-- A position of the first line has no line feed before it. -/
theorem count_take_offset_zero (text : Bytes) (units : Int) :
    (text.take (offset text { line := 0, character := units })).count Bytes.lf = 0 := by
  obtain ⟨hlf, behind, htext⟩ := exists_eq_frontLine_append text
  rw [offset_zero]
  generalize frontLine text = line at hlf htext ⊢
  rw [htext, List.take_append_of_le_length (Nat.sub_le _ _)]
  exact List.count_eq_zero.mpr fun hmem => hlf (List.mem_of_mem_take hmem)

theorem count_take_append_lf {line : Bytes} (h : Bytes.lf ∉ line) (rest : Bytes) (k : Nat) :
    ((line ++ Bytes.lf :: rest).take (line.length + 1 + k)).count Bytes.lf =
      (rest.take k).count Bytes.lf + 1 := by
  rw [Nat.add_assoc, List.take_length_add_append, Nat.add_comm 1 k, List.take_succ_cons,
    List.count_append, List.count_eq_zero.mpr h, List.count_cons_self, Nat.zero_add]

/-- A carriage return at the end of every line moves an offset by one for each line before it. -/
theorem offset_crlf {text : Bytes} (h : Bytes.cr ∉ text) (p : Position) :
    p.offset (crlf text) = p.offset text + (text.take (p.offset text)).count Bytes.lf := by
  obtain ⟨line, units⟩ := p
  by_cases hnegative : line < 0
  · simp [offset, hnegative]
  obtain ⟨n, rfl⟩ := Int.eq_ofNat_of_zero_le (Int.not_lt.mp hnegative)
  -- Lines are dropped from the front of both texts until the position is on the first one.
  induction n generalizing text with
  | zero =>
      have hcount := count_take_offset_zero text units
      rw [Int.ofNat_zero, hcount, offset_zero, offset_zero, frontLine_crlf h, Nat.add_zero]
  | succ n ih =>
      cases text using lineInduction with
      | last text hlf =>
          have hcount : (text.take (offset text ⟨(n + 1 : Nat), units⟩)).count Bytes.lf = 0 :=
            List.count_eq_zero.mpr fun hmem => hlf (List.mem_of_mem_take hmem)
          rw [crlf_of_notMem hlf, hcount]
          rfl
      | line line rest hlf _ =>
          have hrest := ih (cr_notMem_append_lf_iff.mp h).2 (by omega)
          have hcount := count_take_append_lf hlf rest (offset rest ⟨n, units⟩)
          rw [crlf_append_lf hlf, offset_append_lf (lf_notMem_append_cr hlf), offset_append_lf hlf,
            hrest, hcount, List.length_append, List.length_singleton]
          omega

end Position

namespace Outline

/-- A text whose lines end in a line feed, and the same text with a carriage return in front of
every line feed, have the same outline in every dialect, and every position of the one is the same
position of the other, behind one more byte for each line feed before it. -/
theorem ofText_offset_crlf {text : Bytes} (h : Bytes.cr ∉ text) :
    (∀ d : Dialect, ofText d (crlf text) = ofText d text) ∧
      ∀ p : Position, p.offset (crlf text) =
        p.offset text + (text.take (p.offset text)).count Bytes.lf := by
  refine ⟨fun d => ?_, Position.offset_crlf h⟩
  rw [ofText_eq_ofLines, ofText_eq_ofLines, lines_crlf h]

/-- A last line without a terminator, a column past the end of a line, and a line past the last. -/
theorem ofText_offset_crlf_clamped :
    let text := utf8 "[A]\n?\n𝒳="
    (ofText {} (crlf text)).diagnostics =
        [⟨1, 0, 1, .error, utf8 "Line 2: content outside of a block (in [A])", utf8 "uox3dfn"⟩,
          ⟨2, 0, 3, .error, utf8 "Line 3: content outside of a block (in [A])", utf8 "uox3dfn"⟩] ∧
      Position.offset (crlf text) { line := 1, character := 9 } = 6 ∧
      Position.offset (crlf text) { line := 4, character := 0 } = 13 := by
  intro text
  have hcr : Bytes.cr ∉ text := by decide
  have hsame := ofText_offset_crlf hcr
  rw [hsame.1, hsame.2, hsame.2]
  decide +kernel

end Outline

end DefinitionFiles
