import DefinitionFiles.Proofs.Editor.Position
import DefinitionFiles.Proofs.Outline.Diagnostics
import DefinitionFiles.Proofs.Server.Responses

/-!
# Where diagnostics are shown

A diagnostic of a line is shown under exactly the text of that line, whatever bytes it has and
however it ends: lines are counted and measured in the same way when they are read and when a
position is looked up. The diagnostic at the end of a document has no extent and stands at the
start of the last line.
-/

namespace DefinitionFiles

/-! ## Lines that are read and lines that are looked up -/

theorem getElem?_split_of_rawLines {text raw : Bytes} {index : Nat}
    (h : (rawLines text)[index]? = some raw) : (Bytes.split Bytes.lf text)[index]? = some raw := by
  unfold rawLines at h
  simp only at h
  split at h
  · rw [List.getElem?_dropLast] at h
    split at h
    · exact h
    · cases h
  · exact h

namespace Position

/-- What is looked up behind a piece without line feed is that piece with its terminator taken
off, as far as there is one. -/
theorem frontLine_of_piece {piece : Bytes} (hpiece : Bytes.lf ∉ piece) {behind : Bytes}
    (hbehind : behind = [] ∨ ∃ rest, behind = Bytes.lf :: rest) :
    frontLine (piece ++ behind) = if behind = [] then piece else chomp piece := by
  rcases hbehind with rfl | ⟨rest, rfl⟩
  · rw [List.append_nil, frontLine_of_notMem hpiece, if_pos rfl]
  · rw [frontLine_append_lf hpiece, if_neg (List.cons_ne_nil _ _)]

/-- A line that is read stands behind as many line feeds as its index says. What is looked up there
is the same text, but for a carriage return at the end of the document. -/
theorem exists_append_of_line {text line : Bytes} {index : Nat}
    (h : (lines text)[index]? = some line) :
    ∃ front rest shown, text = front ++ (line ++ rest) ∧
      (front = [] ∨ front.getLast? = some Bytes.lf) ∧ front.count Bytes.lf = index ∧
      frontLine (line ++ rest) = line ++ shown ∧ (shown = [] ∨ shown = [Bytes.cr]) := by
  rw [lines, List.getElem?_map] at h
  obtain ⟨raw, hraw, rfl⟩ := Option.map_eq_some_iff.mp h
  obtain ⟨hindex, hget⟩ := List.getElem?_eq_some_iff.mp (getElem?_split_of_rawLines hraw)
  have hsplit : Bytes.split Bytes.lf text = (Bytes.split Bytes.lf text).take index ++
      raw :: (Bytes.split Bytes.lf text).drop (index + 1) := by
    rw [← hget, ← List.drop_eq_getElem_cons hindex, List.take_append_drop]
  obtain ⟨front, behind, htext, hfront, hcount, hlf, hbehind⟩ :=
    Bytes.exists_append_of_split hsplit
  obtain ⟨ending, hending, hcr⟩ := exists_eq_chomp_append raw
  have hrest : chomp raw ++ (ending ++ behind) = raw ++ behind := by
    rw [← List.append_assoc, ← hending]
  have hclosed : behind = [] ∨ ∃ rest, behind = Bytes.lf :: rest := by
    rcases hbehind with ⟨hempty, -⟩ | ⟨rest, heq, -⟩
    · exact .inl hempty
    · exact .inr ⟨rest, heq⟩
  have hshown := frontLine_of_piece hlf hclosed
  refine ⟨front, ending ++ behind, if behind = [] then ending else [], ?_, hfront, ?_, ?_, ?_⟩
  · rw [htext, hrest, List.append_assoc]
  · rw [hcount, List.length_take, Nat.min_eq_left hindex.le]
  · rw [hrest, hshown]
    split
    next => exact hending
    next => simp
  · split
    next => exact hcr
    next => exact .inl rfl

/-- Between the start of a line that is read and the column of its length stands that line. -/
theorem offset_line {text line : Bytes} {index : Nat} (h : (lines text)[index]? = some line) :
    let start := offset text { line := index, character := 0 }
    let stop := offset text { line := index, character := Utf8.units line }
    start ≤ stop ∧ (text.take stop).drop start = line := by
  obtain ⟨front, rest, shown, rfl, hfront, rfl, hshown, hcr⟩ := exists_append_of_line h
  have hhead : ∀ t ∈ shown.head?, Utf8.isTail t = false := by
    intro t ht
    rcases hcr with rfl | rfl
    · cases ht
    · cases ht
      rfl
  have hnothing : dropUnits 0 ([] ++ (line ++ shown)) = line ++ shown :=
    dropUnits_of_nonpos (Int.le_refl 0) _
  have hfull : frontLine (line ++ rest) = [] ++ (line ++ shown) := hshown
  have hstart := offset_append hfront hfull hnothing
  have hstop := offset_append hfront hshown (dropUnits_units_append line hhead)
  simp only [hstart, hstop]
  refine ⟨by simp, ?_⟩
  simp [List.take_append]

end Position

/-! ## Spans of diagnostics -/

/-- What a diagnostic points to: a line that was read, from its start to its length in code units,
or the end of the document. -/
inductive Diagnostic.Points (lines : List Bytes) (d : Diagnostic) : Prop where
  | line {index : Nat} {line : Bytes} (hline : lines[index]? = some line) (hindex : d.line = index)
      (hstart : d.startColumn = 0) (hend : d.endColumn = Utf8.units line)
  | ending (hline : d.line = -1) (hstart : d.startColumn = 0) (hend : d.endColumn = 0)

theorem Outline.points_of_mem {d : Dialect} {lines : List Bytes} {diagnostic : Diagnostic}
    (h : diagnostic ∈ (ofLines d lines).diagnostics) : diagnostic.Points lines := by
  rw [diagnostics_ofLines, History.diagnostics, List.mem_append] at h
  rcases h with hline | hend
  · obtain ⟨⟨line, index⟩, hmem, hdiagnostic⟩ := List.mem_filterMap.mp hline
    obtain ⟨finding, -, rfl⟩ := Option.map_eq_some_iff.mp hdiagnostic
    exact .line (List.mem_zipIdx_iff_getElem?.mp hmem) rfl rfl
      (congrArg Nat.cast (Utf8.units_eq_sum line).symm)
  · rw [Option.mem_toList, History.endDiagnostic?] at hend
    split at hend
    · cases hend
      exact .ending rfl rfl rfl
    · cases hend

namespace Server

/-- Where an editor is told to show a diagnostic of a document. -/
structure Marks (d : Document) (diagnostic : Diagnostic) (span : Span) : Prop where
  /-- The span stands on one line of the document. -/
  line : 0 ≤ span.start.line ∧ span.start.line < d.lineCount ∧ span.stop.line = span.start.line
  columns : 0 ≤ span.start.character ∧ span.start.character ≤ span.stop.character
  /-- The diagnostic of a line is shown under all of that line. -/
  whole : diagnostic.isAtEnd = false → ∃ (index : Nat) (line : Bytes),
    diagnostic.line = index ∧ span.start.line = index ∧ (lines d.text)[index]? = some line ∧
      span.start.offset d.text ≤ span.stop.offset d.text ∧
      (d.text.take (span.stop.offset d.text)).drop (span.start.offset d.text) = line
  /-- The diagnostic at the end stands at the start of the last line. -/
  ending : diagnostic.isAtEnd = true →
    span.start = { line := d.lineCount - 1, character := 0 } ∧ span.stop = span.start

theorem marks_of_points {d : Document} {diagnostic : Diagnostic}
    (h : diagnostic.Points (lines d.text)) : Marks d diagnostic (diagnostic.span d.lineCount) := by
  cases h with
  | @line index line hline hindex hstart hend =>
      have hbound : index < d.lineCount := by
        have hlength := length_lines_le d.text
        have hlt := (List.getElem?_eq_some_iff.mp hline).1
        rw [Document.lineCount]
        omega
      have hplaced : diagnostic.isAtEnd = false := by
        rw [Diagnostic.isAtEnd, hindex]
        simp
      have hspan : diagnostic.span d.lineCount =
          ⟨⟨index, 0⟩, ⟨index, Utf8.units line⟩⟩ := by
        simp [Diagnostic.span, hplaced, hindex, hstart, hend]
      rw [hspan]
      refine ⟨⟨by simp, by simpa using hbound, rfl⟩, ⟨by simp, by simp⟩, ?_, ?_⟩
      · intro _
        exact ⟨index, line, hindex, rfl, hline, Position.offset_line hline⟩
      · intro hatEnd
        cases hplaced.symm.trans hatEnd
  | ending hline hstart hend =>
      have hatEnd : diagnostic.isAtEnd = true := by
        rw [Diagnostic.isAtEnd, hline]
        rfl
      have hspan : diagnostic.span d.lineCount =
          ⟨⟨d.lineCount - 1, 0⟩, ⟨d.lineCount - 1, 0⟩⟩ := by
        simp [Diagnostic.span, hatEnd, hstart, hend]
      have hcount : 0 < d.lineCount := Nat.succ_pos _
      rw [hspan]
      refine ⟨⟨?_, ?_, rfl⟩, ⟨by simp, by simp⟩, ?_, fun _ => ⟨rfl, rfl⟩⟩
      · simp only
        omega
      · simp only
        omega
      · intro hplaced
        cases hplaced.symm.trans hatEnd

end Server

end DefinitionFiles
