import DefinitionFiles.Server
import DefinitionFiles.Proofs.Rpc.Frame

/-!
# Streams that end inside a frame

A stream may end between two frames, or anywhere inside one. The reader keeps the two apart, with
one exception: a stream that ends with a whole header, right before the first byte of the body, is
reported like one that ended between frames. For every other place the error is a different one.
-/

namespace DefinitionFiles.Rpc

/-- Whether an error is the plain end of the stream, where a frame or a body would begin. -/
def FrameError.isEnd : FrameError → Bool
  | .ended | .bodyMissing => true
  | _ => false

/-- Whether a stream has come to its end: no byte is left, or nothing but a whole header that
announces a body. -/
def Source.IsOver (source : Source) : Prop :=
  source.failure? = none ∧
    (source.bytes = [] ∨ ∃ length, 0 < length ∧ Frame.HeaderLines 0 source.bytes length)

namespace Frame

/-! ## Cuts in the header -/

theorem header_of_notMem_lf {bytes : Bytes} (h : Bytes.lf ∉ bytes) (length : Nat) (fresh : Bool) :
    header none length fresh bytes =
      .error (if fresh && bytes.isEmpty then .ended else .headerCut) := by
  rw [header.eq_def]
  split
  next => rfl
  next line rest hcut =>
    obtain ⟨rfl, -⟩ := Bytes.cut?_eq_some_iff.mp hcut
    simp at h

/-- A header that is cut before its last byte is missed, unless nothing of a frame was there. -/
theorem HeaderLines.header_of_cut {length n : Nat} {lines cut : Bytes}
    (h : HeaderLines length lines n) (hcut : cut <+: lines) (hne : cut ≠ lines) (fresh : Bool) :
    header none length fresh cut =
      .error (if fresh && cut.isEmpty then .ended else .headerCut) := by
  induction h generalizing cut fresh with
  | @blank length line hline hblank =>
      apply header_of_notMem_lf
      rcases List.prefix_concat_iff.mp hcut with heq | hfront
      · exact absurd heq hne
      · exact fun hmem => hline (hfront.subset hmem)
  | @field length next n line lines hline hfield hnext hlines ih =>
      rcases List.prefix_or_prefix_of_prefix hcut (List.prefix_append line _) with hfront | hback
      · apply header_of_notMem_lf
        exact fun hmem => hline (hfront.subset hmem)
      · obtain ⟨back, rfl⟩ := hback
        cases back with
        | nil => exact header_of_notMem_lf (by simpa using hline) _ _
        | cons b back =>
            obtain ⟨rfl, hback⟩ := List.cons_prefix_cons.mp
              ((List.prefix_append_right_inj line).mp hcut)
            have hlast : back ≠ lines := by
              rintro rfl
              exact hne rfl
            rw [header_append_lf hline, if_neg hfield, hnext]
            simpa using ih hback hlast false

theorem isEnd_of_headerLine {length : Nat} {line : Bytes} {e : FrameError}
    (h : headerLine length line = .error e) : e.isEnd = false := by
  unfold headerLine at h
  repeat' split at h
  all_goals cases h <;> rfl

/-- Only a stream without a byte is at its end while the header is read. -/
theorem eq_nil_of_header_isEnd {failure? : Option Bytes} {length : Nat} {fresh : Bool}
    {bytes : Bytes} {e : FrameError} (h : header failure? length fresh bytes = .error e)
    (hend : e.isEnd = true) : failure? = none ∧ fresh = true ∧ bytes = [] := by
  fun_induction header failure? length fresh bytes with
  | case1 =>
      cases h
      cases hend
  | case2 length fresh bytes hcut hfailure =>
      cases h
      by_cases hnothing : (fresh && bytes.isEmpty) = true
      · exact ⟨hfailure, by simpa using hnothing⟩
      · rw [if_neg hnothing] at hend
        cases hend
  | case3 => cases h
  | case4 length fresh bytes line rest hcut trimmed hfield e' hline =>
      cases h
      rw [isEnd_of_headerLine hline] at hend
      cases hend
  | case5 length fresh bytes line rest hcut trimmed hfield next hnext ih =>
      obtain ⟨-, hfresh, -⟩ := ih h
      cases hfresh

/-! ## Cuts in the frame -/

theorem read_of_header_cut {lines cut : Bytes} {n : Nat} (h : HeaderLines 0 lines n)
    (hcut : cut <+: lines) (hne : cut ≠ lines) :
    read ⟨cut, none⟩ = .error (if cut.isEmpty then .ended else .headerCut) := by
  simp [read, h.header_of_cut hcut hne]

theorem read_of_body_cut {lines : Bytes} {n : Nat} (h : HeaderLines 0 lines n) (part : Bytes)
    (hpart : part.length < n) :
    read ⟨lines ++ part, none⟩ = .error (if part.isEmpty then .bodyMissing else .bodyCut) := by
  have hlength : n ≠ 0 := by omega
  have hshort : part.length ≠ n := by omega
  have htake : part.take n = part := List.take_of_length_le hpart.le
  simp [read, h.header_append, hlength, body, htake, hshort]

/-- A frame that is cut anywhere is refused. It is the plain end of the stream that is reported
only if nothing of the frame was there, or all of it but the body. -/
theorem exists_read_cut {source rest : Source} {content cut : Bytes}
    (hread : read source = .ok (content, rest)) (hcut : cut <+: source.bytes)
    (hlength : cut.length + rest.bytes.length < source.bytes.length) :
    ∃ e, read ⟨cut, none⟩ = .error e ∧
      (e.isEnd = true ↔ cut = [] ∨ cut ++ content ++ rest.bytes = source.bytes) := by
  obtain ⟨lines, hlines, hcontent, rfl⟩ := read_eq_ok_iff.mp hread
  simp only [List.append_assoc, List.length_append] at hcut hlength ⊢
  rcases List.prefix_or_prefix_of_prefix hcut (List.prefix_append lines _) with hfront | hback
  · by_cases hheader : cut = lines
    · subst hheader
      have hbody := read_of_body_cut hlines [] (List.length_pos_iff.mpr hcontent)
      exact ⟨_, by simpa using hbody, by simp [FrameError.isEnd]⟩
    · refine ⟨_, read_of_header_cut hlines hfront hheader, ?_⟩
      have hcancel : ¬ cut ++ (content ++ rest.bytes) = lines ++ (content ++ rest.bytes) := by
        simpa using hheader
      cases cut <;> simp_all [FrameError.isEnd]
  · obtain ⟨part, rfl⟩ := hback
    have hpart : part.length < content.length := by
      simp only [List.length_append] at hlength
      omega
    refine ⟨_, read_of_body_cut hlines part hpart, ?_⟩
    have hwhole : lines ++ part ++ (content ++ rest.bytes) = lines ++ (content ++ rest.bytes) ↔
        part = [] := by
      simp
    rw [hwhole]
    cases part <;> simp [FrameError.isEnd, hlines.ne_nil]

theorem read_isEnd_iff (source : Source) :
    (∃ e, read source = .error e ∧ e.isEnd = true) ↔ source.IsOver := by
  constructor
  · rintro ⟨e, hread, hend⟩
    unfold read at hread
    split at hread
    next hheader =>
      cases hread
      obtain ⟨hfailure, -, hbytes⟩ := eq_nil_of_header_isEnd hheader hend
      exact ⟨hfailure, .inl hbytes⟩
    next length bytes hheader =>
      split at hread
      · cases hread
        cases hend
      next hlength =>
        obtain ⟨lines, hbytes, hlines⟩ := exists_headerLines hheader
        unfold body at hread
        simp only at hread
        by_cases henough : (bytes.take length).length = length
        · rw [if_pos henough] at hread
          cases hread
        · rw [if_neg henough] at hread
          cases hfailure : source.failure? with
          | some reason =>
              rw [hfailure] at hread
              cases hread
              cases hend
          | none =>
              rw [hfailure] at hread
              cases hread
              -- A body that began is cut, which is not the plain end.
              cases bytes with
              | cons => cases hend
              | nil =>
                  rw [List.append_nil] at hbytes
                  exact ⟨hfailure, .inr ⟨length, by omega, hbytes ▸ hlines⟩⟩
  · rintro ⟨hfailure, hempty | ⟨length, hpositive, hlines⟩⟩
    · obtain ⟨bytes, failure?⟩ := source
      subst hfailure hempty
      refine ⟨.ended, ?_, rfl⟩
      simp [read, header_of_notMem_lf]
    · obtain ⟨bytes, failure?⟩ := source
      subst hfailure
      refine ⟨.bodyMissing, ?_, rfl⟩
      simpa using read_of_body_cut hlines [] hpositive

end Frame

end DefinitionFiles.Rpc

namespace DefinitionFiles.Server

open Rpc

/-! ## What the server makes of it -/

theorem handle_ne_connectionClosed (s : Server) (body : Bytes) :
    (s.handle body).2 ≠ some .connectionClosed := by
  unfold handle
  split
  next => simp
  next m _ =>
    split
    next => cases s.stopping <;> simp
    next => simp

theorem ofFrameError_eq_connectionClosed_iff (e : FrameError) :
    Outcome.ofFrameError e = .connectionClosed ↔ e.isEnd = true := by
  cases e <;> simp [Outcome.ofFrameError, FrameError.isEnd]

theorem advance_eq_connectionClosed_iff (s : Server) (source : Source) :
    (s.advance source).2 = .error .connectionClosed ↔
      ∃ e, Frame.read source = .error e ∧ e.isEnd = true := by
  unfold advance
  split
  next e hread => simp [hread, ofFrameError_eq_connectionClosed_iff]
  next body rest hread =>
    have hother := handle_ne_connectionClosed s body
    rcases hhandle : s.handle body with ⟨t, _ | outcome⟩
    · simp [hread]
    · rw [hhandle] at hother
      simpa [hread] using hother

/-- A stream is taken as closed exactly if it is over: it has no byte left, or its last frame is
missing just the body. A frame that is cut at any other place is an error of its own. -/
theorem connectionClosed_iff_isOver (source : Source) :
    ((∃ e, Frame.read source = .error e ∧ e.isEnd = true) ↔ source.IsOver) ∧
      (∀ s : Server, (s.advance source).2 = .error .connectionClosed ↔ source.IsOver) ∧
      ∀ content rest cut, Frame.read source = .ok (content, rest) → cut <+: source.bytes →
        cut.length + rest.bytes.length < source.bytes.length →
        ∃ e, Frame.read ⟨cut, none⟩ = .error e ∧
          (e.isEnd = true ↔ cut = [] ∨ cut ++ content ++ rest.bytes = source.bytes) := by
  refine ⟨Frame.read_isEnd_iff source, ?_, ?_⟩
  · intro s
    rw [advance_eq_connectionClosed_iff, Frame.read_isEnd_iff]
  · intro content rest cut hread hcut hlength
    exact Frame.exists_read_cut hread hcut hlength

/-- A frame that is cut before the last byte of its body is not the end of a stream. -/
theorem connectionClosed_iff_isOver_body_cut :
    let cut := utf8 "Content-Length: 2\r\n\r\n["
    let source : Source := ⟨cut ++ utf8 "]", none⟩
    Frame.read source = .ok (utf8 "[]", ⟨[], none⟩) ∧
      ∃ e, Frame.read ⟨cut, none⟩ = .error e ∧ e.isEnd = false := by
  intro cut source
  have hread : Frame.read source = .ok (utf8 "[]", ⟨[], none⟩) := by decide +kernel
  obtain ⟨e, hcut, hend⟩ := (connectionClosed_iff_isOver source).2.2 _ _ cut hread
    (List.prefix_append _ _) (by decide)
  have hbefore : ¬ (cut = [] ∨ cut ++ utf8 "[]" ++ [] = source.bytes) := by decide
  have hinside : ¬ e.isEnd = true := fun h => hbefore (hend.mp h)
  exact ⟨hread, e, hcut, by simpa using hinside⟩

/-- A stream that ends right behind a header is taken as closed, although not all of it was read. -/
theorem connectionClosed_behind_header :
    let source : Source := ⟨utf8 "Content-Length: 5\r\n\r\n", none⟩
    source.bytes ≠ [] ∧ Frame.read source = .error .bodyMissing ∧
      FrameError.isEnd .bodyMissing = true ∧
      ∀ s : Server, (s.serve source).2 = .connectionClosed := by
  intro source
  have hread : Frame.read source = .error .bodyMissing := by decide +kernel
  refine ⟨by decide, hread, rfl, ?_⟩
  intro s
  have hadvance : s.advance source = (s, .error .connectionClosed) := by
    simp [advance, hread, Outcome.ofFrameError]
  rw [serve, hadvance]

end DefinitionFiles.Server
