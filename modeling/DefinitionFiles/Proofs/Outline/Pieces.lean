import DefinitionFiles.Proofs.Outline.History

/-!
# Outlines of texts that arrive in pieces

A text that arrives in pieces has the outline of the whole text, wherever it was cut and whether
its source ends or fails. The exception is a text with a line that is too long for the reader: it
has the outline of what stands before the first such line. A text that is there as a whole has no
such exception.
-/

namespace DefinitionFiles

namespace Outline

/-- What stands before the first line of more than 16777215 bytes. -/
def beforeLong (text : Bytes) : Bytes :=
  unlines ((Bytes.split Bytes.lf text).takeWhile (·.length ≤ 16777215))

/-- Unless a line is too long, a text that arrives in pieces has the outline of the whole text, and
only a failure of its source is an error. Otherwise it has the outline of what stands before the
first long line, and that line is the error. A whole text has all its lines in its outline. -/
theorem ofPieces_eq_ofText (d : Dialect) (pieces : List Bytes) (failure? : Option Bytes) :
    (ofPieces d pieces failure? =
        if ∀ line ∈ Bytes.split Bytes.lf pieces.flatten, line.length ≤ 16777215 then
          (ofText d pieces.flatten, failure?.map .failed)
        else (ofText d (beforeLong pieces.flatten), some .lineTooLong)) ∧
      (∀ reason, (ReadError.failed reason).message = utf8 "read document: " ++ reason) ∧
      ReadError.lineTooLong.message = utf8 "read document: bufio.Scanner: token too long" ∧
      ∀ text, ofText d text = ofLines d (lines text) ∧
        (lines text).length =
          text.count Bytes.lf + if text = [] ∨ text.getLast? = some Bytes.lf then 0 else 1 := by
  refine ⟨?_, fun _ => rfl, rfl, fun text => ⟨ofText_eq_ofLines d text, length_lines text⟩⟩
  have hbound : ∀ n, n < LineReader.bound ↔ n ≤ 16777215 := fun n => Nat.lt_succ_iff
  have hpositive : 0 < LineReader.bound := by decide
  have hholds := LineReader.holds_run hpositive pieces
  rw [ofPieces]
  rcases hholds.lines_eq with ⟨hoverflowed, hfits, hlines⟩ | ⟨hoverflowed, hlong, hlines⟩
  · have hshort : ∀ line ∈ Bytes.split Bytes.lf pieces.flatten, line.length ≤ 16777215 :=
      fun line hline => (hbound _).mp (hfits line hline)
    rw [if_pos hshort, ofText_eq_ofLines, hlines, hoverflowed]
    rfl
  · have hnot : ¬ ∀ line ∈ Bytes.split Bytes.lf pieces.flatten, line.length ≤ 16777215 := by
      obtain ⟨line, hline, hlength⟩ := hlong
      intro hshort
      exact absurd ((hbound _).mpr (hshort line hline)) (by omega)
    simp only [hbound] at hlines
    rw [if_neg hnot, ofText_eq_ofLines, hlines, hoverflowed]
    rfl

end Outline

end DefinitionFiles
