import DefinitionFiles.Rpc.Reply
import DefinitionFiles.Proofs.Rpc.Header

/-!
# Reading what was framed

A peer may frame a body in many ways: the length header in any letter case, other header lines
around it, lines that end with or without a carriage return. All of them are read as the same body,
and leave the stream at the first byte behind it. So a stream of such frames is read as its bodies,
whatever they contain, up to its end.
-/

namespace DefinitionFiles.Rpc

/-- The two ways to end a header line. -/
inductive LineEnd where
  | lf
  | crlf
  deriving DecidableEq, Repr

namespace LineEnd

/-- What a line has before its line feed. -/
def front : LineEnd → Bytes
  | .lf => []
  | .crlf => [Bytes.cr]

def bytes (e : LineEnd) : Bytes :=
  e.front ++ [Bytes.lf]

theorem lf_notMem_front (e : LineEnd) : Bytes.lf ∉ e.front := by
  cases e <;> decide

theorem trim_front (e : LineEnd) : Bytes.trim e.front = [] := by
  cases e <;> decide +kernel

theorem trim_append_front (e : LineEnd) (s : Bytes) : Bytes.trim (s ++ e.front) = Bytes.trim s := by
  cases e with
  | lf => rw [front, List.append_nil]
  | crlf => exact Bytes.trim_append_cr s

end LineEnd

/-- A header line `name:value`. The name ends at the first colon. -/
structure Field where
  name : Bytes
  value : Bytes
  ending : LineEnd
  colon_notMem_name : 0x3A ∉ name
  lf_notMem_name : Bytes.lf ∉ name
  lf_notMem_value : Bytes.lf ∉ value
  deriving DecidableEq, Repr

/-- A body that can be sent. Its length is a machine integer, as that of every text in memory. -/
structure Body where
  bytes : Bytes
  ne_nil : bytes ≠ []
  length_lt : bytes.length < 2 ^ 63
  deriving DecidableEq, Repr

namespace Field

/-- The line without its line feed. -/
def line (f : Field) : Bytes :=
  f.name ++ 0x3A :: (f.value ++ f.ending.front)

def bytes (f : Field) : Bytes :=
  f.line ++ [Bytes.lf]

/-- Whether the name is that of the length header, in any letter case. -/
def isLength (f : Field) : Bool :=
  (Bytes.trim f.name).map Bytes.lowerByte == utf8 "content-length"

theorem lf_notMem_line (f : Field) : Bytes.lf ∉ f.line := by
  have hcolon : Bytes.lf ≠ 0x3A := by decide
  simp [line, f.lf_notMem_name, f.lf_notMem_value, f.ending.lf_notMem_front, hcolon]

theorem trim_line (f : Field) :
    Bytes.trim f.line =
      Bytes.trimStart f.name ++ 0x3A :: Bytes.trimEnd (f.value ++ f.ending.front) :=
  Bytes.trim_append_cons rfl f.name _

theorem lengthText?_line (f : Field) :
    Frame.lengthText? f.line = if f.isLength then some (Bytes.trim f.value) else none := by
  have hcut : Bytes.cut? 0x3A f.line = some (f.name, f.value ++ f.ending.front) :=
    Bytes.cut?_eq_some_iff.mpr ⟨rfl, f.colon_notMem_name⟩
  simp [Frame.lengthText?_of_cut? hcut, f.ending.trim_append_front, isLength]

theorem headerLine_of_other {f : Field} (h : f.isLength = false) (length : Nat) :
    Frame.headerLine length (Bytes.trim f.line) = .ok length := by
  have hcolon : 0x3A ∈ f.line := by simp [line]
  exact Frame.headerLine_of_none hcolon (by simp [f.lengthText?_line, h]) length

theorem headerLine_of_length {f : Field} (h : f.isLength = true) {n : Nat}
    (hn : Bytes.trim f.value = Bytes.decimal n) (hfits : n < 2 ^ 63) (length : Nat) :
    Frame.headerLine length (Bytes.trim f.line) = .ok n := by
  have htext : Frame.lengthText? f.line = some (Bytes.decimal n) := by
    simp [f.lengthText?_line, h, hn]
  have hread := Numeral.decimalInteger_decimal hfits
  have hlength : Frame.IsLength n (Bytes.decimal n) :=
    ⟨(Numeral.decimalInteger_eq_ok_iff.mp hread).1, hfits⟩
  exact (Frame.headerLine_of_some htext length n).mpr hlength

/-- The length header as the server itself writes it. -/
def ofLength (n : Nat) : Field where
  name := utf8 "Content-Length"
  value := 0x20 :: Bytes.decimal n
  ending := .crlf
  colon_notMem_name := by decide +kernel
  lf_notMem_name := by decide +kernel
  lf_notMem_value := by
    intro hlf
    rcases List.mem_cons.mp hlf with hspace | hdigit
    · cases hspace
    · cases Bytes.isDigit_of_mem_decimal hdigit

theorem isLength_ofLength (n : Nat) : (ofLength n).isLength = true := by
  have hname : (Bytes.trim (utf8 "Content-Length")).map Bytes.lowerByte =
      utf8 "content-length" := by
    decide +kernel
  exact beq_iff_eq.mpr hname

theorem trim_ofLength (n : Nat) : Bytes.trim (ofLength n).value = Bytes.decimal n := by
  have hvisible : ∀ b ∈ Bytes.decimal n, Bytes.isVisible b = true :=
    fun b hb => Bytes.isVisible_of_isDigit (Bytes.isDigit_of_mem_decimal hb)
  have hlead : Bytes.trimStart [0x20] = [] := by decide +kernel
  have htail : Bytes.trimEnd [] = [] := by decide +kernel
  have hpadded := Bytes.trim_padded hlead htail (Bytes.decimal_ne_nil n) hvisible
  simpa [ofLength] using hpadded

end Field

/-- A frame as a peer may send it. -/
structure Envelope where
  /-- The header lines before the length header. -/
  before : List Field
  length : Field
  /-- The header lines behind the length header. -/
  after : List Field
  /-- How the line that closes the header ends. -/
  closing : LineEnd
  body : Body
  isLength_before : ∀ f ∈ before, f.isLength = false
  isLength_length : length.isLength = true
  isLength_after : ∀ f ∈ after, f.isLength = false
  trim_length : Bytes.trim length.value = Bytes.decimal body.bytes.length
  deriving DecidableEq, Repr

namespace Envelope

def header (e : Envelope) : Bytes :=
  e.before.flatMap Field.bytes ++
    (e.length.bytes ++ (e.after.flatMap Field.bytes ++ e.closing.bytes))

def bytes (e : Envelope) : Bytes :=
  e.header ++ e.body.bytes

def content (e : Envelope) : Bytes :=
  e.body.bytes

/-- The frame the server itself writes for a body. -/
def plain (body : Body) : Envelope where
  before := []
  length := .ofLength body.bytes.length
  after := []
  closing := .crlf
  body := body
  isLength_before := by simp
  isLength_length := Field.isLength_ofLength _
  isLength_after := by simp
  trim_length := Field.trim_ofLength _

theorem bytes_plain (body : Body) :
    (plain body).bytes = Frame.headerOf body.bytes ++ body.bytes := by
  have hname : utf8 "Content-Length: " = utf8 "Content-Length" ++ [0x3A, 0x20] := by
    decide +kernel
  have hclosing : utf8 "\r\n\r\n" = [Bytes.cr, Bytes.lf, Bytes.cr, Bytes.lf] := by
    decide +kernel
  rw [Frame.headerOf, hname, hclosing]
  simp [bytes, header, plain, Field.ofLength, Field.bytes, Field.line, LineEnd.bytes,
    LineEnd.front]

/-! ## The header of an envelope -/

theorem headerLines_field {f : Field} {length next n : Nat} {lines : Bytes}
    (hnext : Frame.headerLine length (Bytes.trim f.line) = .ok next)
    (hlines : Frame.HeaderLines next lines n) :
    Frame.HeaderLines length (f.bytes ++ lines) n := by
  have hfield : Bytes.trim f.line ≠ [] := by
    simp [f.trim_line]
  have happend := Frame.HeaderLines.field f.lf_notMem_line hfield hnext hlines
  simpa [Field.bytes] using happend

theorem headerLines_others {fields : List Field} (h : ∀ f ∈ fields, f.isLength = false)
    {length n : Nat} {lines : Bytes} (hlines : Frame.HeaderLines length lines n) :
    Frame.HeaderLines length (fields.flatMap Field.bytes ++ lines) n := by
  induction fields with
  | nil => exact hlines
  | cons f fields ih =>
      have hf : f.isLength = false := h f List.mem_cons_self
      have hrest := ih fun other hother => h other (List.mem_cons_of_mem f hother)
      rw [List.flatMap_cons, List.append_assoc]
      exact headerLines_field (f.headerLine_of_other hf length) hrest

theorem headerLines_header (e : Envelope) : Frame.HeaderLines 0 e.header e.content.length := by
  have hclosing : Frame.HeaderLines e.content.length e.closing.bytes e.content.length :=
    .blank e.closing.lf_notMem_front e.closing.trim_front
  have hafter := headerLines_others e.isLength_after hclosing
  have hlength := Field.headerLine_of_length e.isLength_length e.trim_length e.body.length_lt 0
  exact headerLines_others e.isLength_before (headerLines_field hlength hafter)

theorem read_bytes (e : Envelope) (more : Bytes) (failure? : Option Bytes) :
    Frame.read ⟨e.bytes ++ more, failure?⟩ = .ok (e.content, ⟨more, failure?⟩) :=
  Frame.read_eq_ok_iff.mpr ⟨e.header, e.headerLines_header, e.body.ne_nil, rfl⟩

example :
    Frame.read ⟨utf8 "X-Note: a:b\nCONTENT-length : 4\r\n\n\r\n\r\nrest", none⟩ =
      .ok (utf8 "\r\n\r\n", ⟨utf8 "rest", none⟩) := by
  decide +kernel

/-- Envelopes at the front of a stream are read one by one, and then the rest of it. -/
theorem readAll_flatMap_append (envelopes : List Envelope) (more : Bytes)
    (failure? : Option Bytes) :
    Frame.readAll ⟨envelopes.flatMap bytes ++ more, failure?⟩ =
      (envelopes.map content ++ (Frame.readAll ⟨more, failure?⟩).1,
        (Frame.readAll ⟨more, failure?⟩).2) := by
  induction envelopes with
  | nil => rfl
  | cons e envelopes ih =>
      have hread := e.read_bytes (envelopes.flatMap bytes ++ more) failure?
      rw [List.flatMap_cons, List.append_assoc, Frame.readAll_of_ok hread, ih]
      rfl

end Envelope

end DefinitionFiles.Rpc

namespace DefinitionFiles.Sink

open Rpc

/-! ## Sinks without a limit -/

theorem write?_of_unlimited {sink : Sink} (h : sink.capacity? = none) (piece : Bytes) :
    ∃ next, sink.write? piece = some next ∧ next.capacity? = none := by
  refine ⟨{ sink with pieces := piece :: sink.pieces }, ?_, h⟩
  simp [Sink.write?, h]

theorem send_of_unlimited {sink : Sink} (h : sink.capacity? = none) {m : Outgoing} {j : Json}
    (hjson : m.toJson = .ok j) : (sink.send m).2 = none ∧ (sink.send m).1.capacity? = none := by
  obtain ⟨headed, hheaded, hcapacity⟩ := write?_of_unlimited h (Frame.headerOf j.render)
  obtain ⟨done, hdone, hcapacity⟩ := write?_of_unlimited hcapacity j.render
  simp [Sink.send, hjson, Sink.writeFrame, hheaded, hdone, hcapacity]

end DefinitionFiles.Sink

namespace DefinitionFiles.Rpc

/-! ## Streams of frames -/

namespace Frame

theorem readAll_nil : readAll ⟨[], none⟩ = ([], .ended) := by
  apply readAll_of_error
  decide +kernel

def writeAll (sink : Sink) (bodies : List Body) : Sink :=
  bodies.foldl (fun sink body => (sink.writeFrame body.bytes).1) sink

theorem output_writeAll (sink : Sink) (h : sink.capacity? = none) (bodies : List Body) :
    (writeAll sink bodies).output =
      sink.output ++ bodies.flatMap fun body => headerOf body.bytes ++ body.bytes := by
  unfold writeAll
  induction bodies generalizing sink with
  | nil => simp
  | cons body bodies ih =>
      have hwrite : (sink.writeFrame body.bytes).1 =
          { sink with pieces := body.bytes :: headerOf body.bytes :: sink.pieces } := by
        simp [Sink.writeFrame, Sink.write?, h]
      have hcapacity : (sink.writeFrame body.bytes).1.capacity? = none := by
        rw [hwrite]
        exact h
      rw [List.foldl_cons, ih _ hcapacity, hwrite]
      simp [Sink.output]

/-- Bodies that were written are read back one by one, each byte for byte, and then the stream has
ended. The same holds for every other way to frame them. -/
theorem readAll_frames :
    (∀ bodies : List Body,
      readAll ⟨(writeAll {} bodies).output, none⟩ = (bodies.map Body.bytes, .ended)) ∧
    ∀ envelopes : List Envelope,
      readAll ⟨envelopes.flatMap Envelope.bytes, none⟩ =
        (envelopes.map Envelope.content, .ended) := by
  have hall : ∀ envelopes : List Envelope,
      readAll ⟨envelopes.flatMap Envelope.bytes, none⟩ =
        (envelopes.map Envelope.content, .ended) := by
    intro envelopes
    have happend := Envelope.readAll_flatMap_append envelopes [] none
    simpa [readAll_nil] using happend
  refine ⟨?_, hall⟩
  intro bodies
  have houtput : (writeAll {} bodies).output =
      (bodies.map Envelope.plain).flatMap Envelope.bytes := by
    have hwritten := output_writeAll {} rfl bodies
    simpa [Envelope.bytes_plain, List.flatMap_map, Sink.output] using hwritten
  have hcontent : (bodies.map Envelope.plain).map Envelope.content = bodies.map Body.bytes := by
    rw [List.map_map]
    rfl
  rw [houtput, hall, hcontent]

/-- Bodies that look like the blank line of a header, and like a header with a byte that is no text;
the first is also sent with a length header in other letters behind one that is no length header. -/
theorem readAll_frames_lookalike :
    let blank : Body := ⟨utf8 "\r\n\r\n", by decide +kernel, by decide +kernel⟩
    let lookalike : Body :=
      ⟨utf8 "Content-Length: 9\r\n\r\n" ++ [0xFF], by decide +kernel, by decide +kernel⟩
    let note : Field :=
      ⟨utf8 "X-Note ", utf8 "Content-Length: 1", .lf, by decide +kernel, by decide +kernel,
        by decide +kernel⟩
    let length : Field :=
      ⟨utf8 " CONTENT-length", utf8 "4 ", .crlf, by decide +kernel, by decide +kernel,
        by decide +kernel⟩
    let spelled : Envelope :=
      ⟨[note], length, [], .lf, blank, by decide +kernel, by decide +kernel, by decide +kernel,
        by decide +kernel⟩
    readAll ⟨(writeAll {} [blank, lookalike]).output, none⟩ =
        ([blank.bytes, lookalike.bytes], .ended) ∧
      readAll ⟨[spelled, .plain lookalike].flatMap Envelope.bytes, none⟩ =
        ([blank.bytes, lookalike.bytes], .ended) := by
  intro blank lookalike note length spelled
  exact ⟨readAll_frames.1 [blank, lookalike], readAll_frames.2 [spelled, .plain lookalike]⟩

end Frame

end DefinitionFiles.Rpc
