import DefinitionFiles.Diagnostic
import DefinitionFiles.Section
import DefinitionFiles.Text.Blank
import DefinitionFiles.Text.Lines

/-!
# Outlines

The outline of a document is its sections and its diagnostics. Every line is first classified by
its content alone; the outline is then built line by line, remembering only the sections so far
and whether the last brace opened a block. Reading an outline never fails: malformed text becomes
diagnostics.
-/

namespace DefinitionFiles

/-- How documents are read and how diagnostics are worded. -/
structure Dialect where
  /-- The category named in messages. -/
  category : Category := Category.none
  /-- The source tag of diagnostics. -/
  source : Bytes := utf8 "uox3dfn"
  /-- The marker that starts a comment; without one there are no comments. -/
  marker : Bytes := utf8 "//"
  /-- Whether a comment also takes the byte before its marker. -/
  eagerComments : Bool := false
  deriving DecidableEq, Repr

/-- What a line of a document is, judged by its content. -/
inductive Content where
  | blank
  | header (name : Bytes)
  | opening
  | closing
  | entry (key value : Bytes)
  | other
  deriving DecidableEq, Repr

namespace Content

/-- Whether `b` may occur in a key. -/
def isKeyByte (b : UInt8) : Bool :=
  Bytes.isLetter b || Bytes.isDigit b || b = 0x5F

/-- Reads `key=value`. -/
def entry? (text : Bytes) : Option (Bytes × Bytes) :=
  match text.span isKeyByte with
  | (b :: key, 0x3D :: value) => some (b :: key, value)
  | _ => none

/-- Reads `[name]`. -/
def header? (text : Bytes) : Option Bytes :=
  match text with
  | 0x5B :: rest => if rest.getLast? = some 0x5D then some rest.dropLast else none
  | _ => none

/-- Classifies the content of a line. -/
def ofText (text : Bytes) : Content :=
  if text = [] then .blank
  else match header? text with
    | some name => .header name
    | none =>
        if text = [0x7B] then .opening
        else if text = [0x7D] then .closing
        else match entry? text with
          | some (key, value) => .entry key value
          | none => .other

end Content

namespace Dialect

/-- Cuts a trimmed line at its first comment marker and trims what is left. -/
def stripComment (d : Dialect) (text : Bytes) : Bytes :=
  if d.marker = [] then text
  else match Bytes.find? d.marker text with
    | some offset => Bytes.trim (text.take (if d.eagerComments then offset - 1 else offset))
    | none => text

/-- The content of a line: what is left after trimming and taking the comment away. -/
def content (d : Dialect) (line : Bytes) : Content :=
  Content.ofText (d.stripComment (Bytes.trim line))

end Dialect

/-- The sections and diagnostics of a document. -/
structure Outline where
  sections : List Section := []
  diagnostics : List Diagnostic := []
  deriving DecidableEq, Repr

namespace Outline

/-- The diagnostics that are errors. -/
def errors (o : Outline) : List Diagnostic :=
  Diagnostic.withSeverity .error o.diagnostics

/-- The diagnostics that are warnings. -/
def warnings (o : Outline) : List Diagnostic :=
  Diagnostic.withSeverity .warning o.diagnostics

/-- The state between two lines. -/
structure State where
  /-- The sections so far, newest first. -/
  sections : List Section := []
  /-- The diagnostics so far, newest first. -/
  diagnostics : List Diagnostic := []
  /-- Whether the last brace opened a block. -/
  isOpen : Bool := false

namespace State

/-- The header of the current section. -/
def header? (s : State) : Option Bytes :=
  s.sections.head?.map Section.header

/-- Adds a diagnostic for the line with the given index. -/
def report (d : Dialect) (index : Nat) (line : Bytes) (severity : Severity) (text : Bytes)
    (s : State) : State :=
  let message := utf8 "Line " ++ Bytes.decimal (index + 1) ++ utf8 ": " ++ text
  { s with diagnostics :=
      { line := index
        startColumn := 0
        endColumn := Utf8.units line
        severity := severity
        message := Diagnostic.annotate d.category s.header? message
        source := d.source } :: s.diagnostics }

/-- Takes the line with the given index. -/
def step (d : Dialect) (s : State) (line : Bytes) (index : Nat) : State :=
  match d.content line with
  | .blank => s
  | .header name =>
      let s := if s.isOpen then
          s.report d index line .error (utf8 "new section before closing '\x7d'")
        else s
      { s with sections := { header := name, line := index } :: s.sections }
  | .opening => { s with isOpen := true }
  | .closing => { s with isOpen := false }
  | .entry key value =>
      match s.isOpen, s.sections with
      | true, current :: earlier =>
          let s := { s with sections := current.set key value :: earlier }
          if Bytes.trim value = [] then
            s.report d index line .warning (utf8 "entry " ++ key ++ utf8 " has no value")
          else s
      | _, _ => s.report d index line .error (utf8 "content outside of a block")
  | .other =>
      match s.isOpen, s.sections with
      | true, _ :: _ => s.report d index line .error (utf8 "invalid entry")
      | _, _ => s.report d index line .error (utf8 "content outside of a block")

/-- The outline of a document that ends here. -/
def finish (d : Dialect) (s : State) : Outline :=
  let missing : Diagnostic :=
    { line := -1
      startColumn := 0
      endColumn := 0
      severity := .error
      message := Diagnostic.annotate d.category s.header? (utf8 "file ended before closing '\x7d'")
      source := d.source }
  { sections := s.sections.reverse
    diagnostics := (if s.isOpen then missing :: s.diagnostics else s.diagnostics).reverse }

end State

/-- The outline of the given lines. -/
def ofLines (d : Dialect) (lines : List Bytes) : Outline :=
  let final : State := lines.zipIdx.foldl (fun s (line, index) => s.step d line index) {}
  final.finish d

/-- The outline of a whole text. -/
def ofText (d : Dialect) (text : Bytes) : Outline :=
  ofLines d (LineReader.run (LineReader.boundOf text) [text]).lines

/-- Why a text could not be read to its end. -/
inductive ReadError where
  /-- The source of the text failed with a message of its own. -/
  | failed (reason : Bytes)
  /-- A line reached the bound. -/
  | lineTooLong
  deriving DecidableEq, Repr

/-- The wording of a read error. -/
def ReadError.message : ReadError → Bytes
  | .failed reason => utf8 "read document: " ++ reason
  | .lineTooLong => utf8 "read document: bufio.Scanner: token too long"

/-- The outline of a text that arrives in pieces, after which its source ends or fails. What
arrived before an error still has an outline. -/
def ofPieces (d : Dialect) (pieces : List Bytes) (failure? : Option Bytes) :
    Outline × Option ReadError :=
  let reader := LineReader.run LineReader.bound pieces
  (ofLines d reader.lines,
    if reader.overflowed then some .lineTooLong else failure?.map .failed)

end Outline

/-- Reads a document that is known by a URI. The URI decides the category. -/
def Definition.parse (d : Dialect) (uri text : Bytes) : Definition × List Diagnostic :=
  let category := Uri.classify uri
  let outline := Outline.ofText { d with category := category } text
  ({ name := Uri.baseName uri, uri := uri, category := category, sections := outline.sections },
    outline.diagnostics)

end DefinitionFiles
