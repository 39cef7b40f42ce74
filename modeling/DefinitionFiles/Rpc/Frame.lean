import DefinitionFiles.Numeral.Integer
import DefinitionFiles.Text.Blank
import DefinitionFiles.Text.CaseFolding

/-!
# Frames

Messages travel as frames: header lines, a blank line, and a body whose length in bytes the header
`Content-Length` gives. A frame is read from the front of a byte stream, which leaves the stream
behind the frame; a stream may end anywhere, or fail.
-/

namespace DefinitionFiles.Rpc

/-- What is still to come from a peer. -/
structure Source where
  bytes : Bytes
  /-- The reason why the stream fails after its bytes; without one it ends. -/
  failure? : Option Bytes := none
  deriving DecidableEq, Repr

/-- Why no frame could be read. -/
inductive FrameError where
  /-- The stream ended before a frame began. -/
  | ended
  /-- The stream ended inside the header. -/
  | headerCut
  /-- The stream failed inside the header. -/
  | headerFailed (reason : Bytes)
  /-- A header line has no colon. -/
  | malformedHeader (line : Bytes)
  /-- The value of the length header is no number. -/
  | badLength (value : Bytes) (cause : NumeralError)
  | negativeLength (length : Int)
  /-- There is no length header, or the last one says zero. -/
  | noLength
  /-- The stream ended before the first byte of the body. -/
  | bodyMissing
  /-- The stream ended inside the body. -/
  | bodyCut
  /-- The stream failed inside the body. -/
  | bodyFailed (reason : Bytes)
  deriving DecidableEq, Repr

/-- The wording of a frame error. -/
def FrameError.message : FrameError → Bytes
  | .ended => utf8 "EOF"
  | .headerCut => utf8 "read header: unexpected EOF"
  | .headerFailed reason => utf8 "read header: " ++ reason
  | .malformedHeader line => utf8 "malformed header " ++ quoted line
  | .badLength value cause =>
      utf8 "invalid Content-Length value " ++ quoted value ++ utf8 ": " ++
        cause.message "Atoi" (Bytes.trim value)
  | .negativeLength length => utf8 "negative Content-Length: " ++ Bytes.signedDecimal length
  | .noLength => utf8 "missing or zero Content-Length header"
  | .bodyMissing => utf8 "read body: EOF"
  | .bodyCut => utf8 "read body: unexpected EOF"
  | .bodyFailed reason => utf8 "read body: " ++ reason

/-- Whether the stream ended too early, so that with more bytes there may be a frame. -/
def FrameError.isCut : FrameError → Bool
  | .ended | .headerCut | .bodyMissing | .bodyCut => true
  | _ => false

namespace Frame

/-- The body length after one more header line, given the length known before it. -/
def headerLine (length : Nat) (line : Bytes) : Except FrameError Nat :=
  match Bytes.cut? 0x3A line with
  | none => .error (.malformedHeader line)
  | some (name, value) =>
      if sameFolded (Bytes.trim name) (utf8 "Content-Length") then
        match Numeral.decimalInteger (Bytes.trim value) with
        | .error cause => .error (.badLength value cause)
        | .ok n => if n < 0 then .error (.negativeLength n) else .ok n.toNat
      else .ok length

/-- Reads header lines up to the blank one, and gives the body length with what follows. The
length before the first line is zero; `fresh` says that no line was read yet. -/
def header (failure? : Option Bytes) (length : Nat) (fresh : Bool) (bytes : Bytes) :
    Except FrameError (Nat × Bytes) :=
  match _h : Bytes.cut? Bytes.lf bytes with
  | none =>
      match failure? with
      | some reason => .error (.headerFailed reason)
      | none => .error (if fresh && bytes.isEmpty then .ended else .headerCut)
  | some (line, rest) =>
      let line := Bytes.trim line
      if line = [] then .ok (length, rest)
      else
        match headerLine length line with
        | .error e => .error e
        | .ok length => header failure? length false rest
termination_by bytes.length
decreasing_by exact Bytes.length_of_cut? _h

/-- Reads a body of the given length, and gives it with what follows. The room for it is taken before
the first byte is read, and is assumed to be there: lengths for which no memory can be had are left
out. -/
def body (failure? : Option Bytes) (length : Nat) (bytes : Bytes) :
    Except FrameError (Bytes × Bytes) :=
  let content := bytes.take length
  if content.length = length then .ok (content, bytes.drop length)
  else match failure? with
    | some reason => .error (.bodyFailed reason)
    | none => .error (if bytes.isEmpty then .bodyMissing else .bodyCut)

/-- Reads the frame at the front of a stream: its body, and the stream behind it. -/
def read (s : Source) : Except FrameError (Bytes × Source) :=
  match header s.failure? 0 true s.bytes with
  | .error e => .error e
  | .ok (length, bytes) =>
      if length = 0 then .error .noLength
      else match body s.failure? length bytes with
        | .error e => .error e
        | .ok (content, rest) => .ok (content, { s with bytes := rest })

/-- The header of the frame for a body. -/
def headerOf (body : Bytes) : Bytes :=
  utf8 "Content-Length: " ++ Bytes.decimal body.length ++ utf8 "\r\n\r\n"

theorem length_of_header {failure? : Option Bytes} {length n : Nat} {fresh : Bool}
    {bytes rest : Bytes} (h : header failure? length fresh bytes = .ok (n, rest)) :
    rest.length < bytes.length := by
  fun_induction header failure? length fresh bytes with
  | case1 => simp at h
  | case2 => simp at h
  | case3 _ _ _ line rest' hcut _ hblank =>
      have := Bytes.length_of_cut? hcut
      simp_all
  | case4 => simp at h
  | case5 _ _ _ line rest' hcut _ hblank _ _ ih =>
      have := Bytes.length_of_cut? hcut
      have := ih h
      omega

theorem length_of_body {failure? : Option Bytes} {length : Nat} {bytes content rest : Bytes}
    (h : body failure? length bytes = .ok (content, rest)) : rest.length ≤ bytes.length := by
  unfold body at h
  simp only at h
  split at h
  · cases h
    simp
  · split at h <;> simp at h

/-- Reading a frame takes at least one byte off the stream. -/
theorem length_of_read {s rest : Source} {content : Bytes} (h : read s = .ok (content, rest)) :
    rest.bytes.length < s.bytes.length := by
  unfold read at h
  split at h
  · simp at h
  · next hheader =>
    split at h
    · simp at h
    · split at h
      · simp at h
      · next hbody =>
        cases h
        exact Nat.lt_of_le_of_lt (length_of_body hbody) (length_of_header hheader)

end Frame

end DefinitionFiles.Rpc
