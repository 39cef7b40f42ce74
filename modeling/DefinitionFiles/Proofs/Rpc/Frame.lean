import DefinitionFiles.Rpc.Frame
import DefinitionFiles.Proofs.Text.Cutting

/-!
# The form of frames

A header is a run of lines, each of which may set the body length, closed by a blank line. A frame
can be read at the front of a stream exactly if such a header stands there with a positive length
and that many bytes behind it; nothing after the frame matters. A whole stream is read as the
bodies of its frames and the reason why there is no further one.
-/

namespace DefinitionFiles.Rpc.Frame

/-- Header lines up to and with the blank one. They take the body length known before them to the
one known after them. -/
inductive HeaderLines : (before : Nat) → (lines : Bytes) → (after : Nat) → Prop where
  | blank {length : Nat} {line : Bytes} (hline : Bytes.lf ∉ line) (hblank : Bytes.trim line = []) :
      HeaderLines length (line ++ [Bytes.lf]) length
  | field {length next n : Nat} {line lines : Bytes} (hline : Bytes.lf ∉ line)
      (hfield : Bytes.trim line ≠ []) (hnext : headerLine length (Bytes.trim line) = .ok next)
      (hlines : HeaderLines next lines n) :
      HeaderLines length (line ++ Bytes.lf :: lines) n

theorem HeaderLines.ne_nil {length n : Nat} {lines : Bytes} (h : HeaderLines length lines n) :
    lines ≠ [] := by
  cases h <;> simp

theorem header_append_lf {line : Bytes} (hline : Bytes.lf ∉ line) (failure? : Option Bytes)
    (length : Nat) (fresh : Bool) (rest : Bytes) :
    header failure? length fresh (line ++ Bytes.lf :: rest) =
      if Bytes.trim line = [] then .ok (length, rest)
      else match headerLine length (Bytes.trim line) with
        | .error e => .error e
        | .ok length => header failure? length false rest := by
  have hcut : Bytes.cut? Bytes.lf (line ++ Bytes.lf :: rest) = some (line, rest) :=
    Bytes.cut?_eq_some_iff.mpr ⟨rfl, hline⟩
  rw [header.eq_def]
  split
  next hnone => cases hnone.symm.trans hcut
  next heq =>
    cases heq.symm.trans hcut
    rfl

/-- A header is read in the same way whatever follows it. -/
theorem HeaderLines.header_append {length n : Nat} {lines : Bytes} (h : HeaderLines length lines n)
    (failure? : Option Bytes) (fresh : Bool) (more : Bytes) :
    header failure? length fresh (lines ++ more) = .ok (n, more) := by
  induction h generalizing fresh with
  | blank hline hblank =>
      rw [List.append_assoc, List.singleton_append, header_append_lf hline, if_pos hblank]
  | field hline hfield hnext hlines ih =>
      rw [List.append_assoc, List.cons_append, header_append_lf hline, if_neg hfield, hnext]
      exact ih false

/-- Whatever is read as a header has the form of one. -/
theorem exists_headerLines {failure? : Option Bytes} {length n : Nat} {fresh : Bool}
    {bytes rest : Bytes} (h : header failure? length fresh bytes = .ok (n, rest)) :
    ∃ lines, bytes = lines ++ rest ∧ HeaderLines length lines n := by
  fun_induction header failure? length fresh bytes with
  | case1 => cases h
  | case2 => cases h
  | case3 length fresh bytes line rest' hcut trimmed hblank =>
      obtain ⟨rfl, hline⟩ := Bytes.cut?_eq_some_iff.mp hcut
      cases h
      exact ⟨line ++ [Bytes.lf], by simp, .blank hline hblank⟩
  | case4 => cases h
  | case5 length fresh bytes line rest' hcut trimmed hfield next hnext ih =>
      obtain ⟨rfl, hline⟩ := Bytes.cut?_eq_some_iff.mp hcut
      obtain ⟨lines, rfl, hlines⟩ := ih h
      exact ⟨line ++ Bytes.lf :: lines, by simp, .field hline hfield hnext hlines⟩

/-- A frame is read exactly if it stands at the front of the stream. -/
theorem read_eq_ok_iff {source rest : Source} {content : Bytes} :
    read source = .ok (content, rest) ↔
      ∃ lines, HeaderLines 0 lines content.length ∧ content ≠ [] ∧
        source = { rest with bytes := lines ++ content ++ rest.bytes } := by
  constructor
  · intro h
    unfold read at h
    split at h
    · cases h
    next n bytes hheader =>
      split at h
      · cases h
      next hpositive =>
        obtain ⟨lines, hbytes, hlines⟩ := exists_headerLines hheader
        unfold body at h
        simp only at h
        by_cases henough : (bytes.take n).length = n
        · rw [if_pos henough] at h
          cases h
          rw [← henough] at hlines
          refine ⟨lines, hlines, ?_, ?_⟩
          · intro hnil
            rw [hnil] at henough
            exact hpositive henough.symm
          · simp [← hbytes]
        · rw [if_neg henough] at h
          cases hfailure : source.failure? <;> simp [hfailure] at h
  · rintro ⟨lines, hlines, hcontent, rfl⟩
    have hlength : content.length ≠ 0 := fun h => hcontent (List.length_eq_zero_iff.mp h)
    simp only [read, List.append_assoc, hlines.header_append, hlength, if_false, body]
    simp

/-! ## Whole streams -/

/-- Reads a stream up to the first place where there is no frame: the bodies of its frames, and
why there is no further one. -/
def readAll (source : Source) : List Bytes × FrameError :=
  match _h : read source with
  | .error e => ([], e)
  | .ok (content, rest) => (content :: (readAll rest).1, (readAll rest).2)
termination_by source.bytes.length
decreasing_by all_goals exact length_of_read _h

theorem readAll_of_error {source : Source} {e : FrameError} (h : read source = .error e) :
    readAll source = ([], e) := by
  rw [readAll]
  split
  next heq => cases h.symm.trans heq; rfl
  next heq => cases h.symm.trans heq

theorem readAll_of_ok {source rest : Source} {content : Bytes}
    (h : read source = .ok (content, rest)) :
    readAll source = (content :: (readAll rest).1, (readAll rest).2) := by
  rw [readAll]
  split
  next heq => cases h.symm.trans heq
  next heq => cases h.symm.trans heq; rfl

/-- The first bodies of a stream stand at its front, and are read whatever follows them. -/
theorem exists_front {source : Source} {earlier : List Bytes}
    (h : earlier <+: (readAll source).1) :
    ∃ front rest, source.bytes = front ++ rest ∧ ∀ other failure?,
      (readAll ⟨front ++ other, failure?⟩).1 = earlier ++ (readAll ⟨other, failure?⟩).1 := by
  induction earlier generalizing source with
  | nil => exact ⟨[], source.bytes, rfl, fun _ _ => rfl⟩
  | cons content earlier ih =>
      cases hread : read source with
      | error e =>
          rw [readAll_of_error hread] at h
          cases List.prefix_nil.mp h
      | ok found =>
          obtain ⟨first, rest⟩ := found
          rw [readAll_of_ok hread] at h
          obtain ⟨rfl, hrest⟩ := List.cons_prefix_cons.mp h
          obtain ⟨lines, hlines, hcontent, rfl⟩ := read_eq_ok_iff.mp hread
          obtain ⟨front, behind, hbytes, hfront⟩ := ih hrest
          refine ⟨lines ++ content ++ front, behind, by simp [hbytes], ?_⟩
          intro other failure?
          have hagain : read ⟨lines ++ content ++ front ++ other, failure?⟩ =
              .ok (content, ⟨front ++ other, failure?⟩) :=
            read_eq_ok_iff.mpr ⟨lines, hlines, hcontent, by simp⟩
          rw [readAll_of_ok hagain, hfront]
          rfl

end DefinitionFiles.Rpc.Frame
