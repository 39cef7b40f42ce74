import DefinitionFiles.Text.Lines
import DefinitionFiles.Text.Utf8

/-!
# Open documents

An editor keeps the text of an open document in step by sending changes: a replacement of the
whole text, or of the part between two positions. A position is a line and a column in UTF-16
code units. Positions outside the text are moved to the nearest place inside it, so that every
position has an offset.
-/

namespace DefinitionFiles

/-- A place in a document, by zero-based line and UTF-16 column. -/
structure Position where
  line : Int := 0
  character : Int := 0
  deriving DecidableEq, Repr

/-- The text between two positions. -/
structure Span where
  start : Position := {}
  stop : Position := {}
  deriving DecidableEq, Repr

/-- One change of a document. -/
structure Change where
  /-- The part that is replaced; without one the whole text is. -/
  span? : Option Span := none
  text : Bytes := []
  deriving DecidableEq, Repr

/-- The editor's current text of an open document. -/
structure Document where
  uri : Bytes
  version : Int
  text : Bytes
  deriving DecidableEq, Repr

namespace Position

/-- What follows the first `n` lines of a text, if it has that many line feeds. -/
def dropLines? : (n : Nat) → Bytes → Option Bytes
  | 0, text => some text
  | n + 1, text =>
      match Bytes.cut? Bytes.lf text with
      | some (_, rest) => dropLines? n rest
      | none => none

/-- The line at the front of a text without its terminator. A carriage return belongs to the
terminator only if a line feed follows it. -/
def frontLine (text : Bytes) : Bytes :=
  match Bytes.cut? Bytes.lf text with
  | some (line, _) => chomp line
  | none => text

/-- What is left of a line after the shortest run of characters with at least `units` code
units. -/
def dropUnits : (units : Int) → Bytes → Bytes
  | _, [] => []
  | units, b :: rest =>
      if units ≤ 0 then b :: rest
      else match _h : Utf8.read b rest with
        | (glyph, left) => dropUnits (units - utf16Width glyph.shown) left
termination_by _ line => line.length
decreasing_by
  have := Utf8.length_read_le b rest
  simp only [_h] at this
  simp only [List.length_cons]
  omega

/-- The byte offset of a position in a text. A column past the end of its line stands for that
end, a line past the last one for the end of the text, and a negative line for its start. -/
def offset (text : Bytes) (p : Position) : Nat :=
  if p.line < 0 then 0
  else match dropLines? p.line.toNat text with
    | none => text.length
    | some rest =>
        let line := frontLine rest
        text.length - rest.length + (line.length - (dropUnits p.character line).length)

end Position

namespace Change

/-- A change whose span ends before it starts, by its place in the batch. -/
structure Reversed where
  index : Nat
  deriving DecidableEq, Repr

/-- The wording of the error. -/
def Reversed.message (e : Reversed) : Bytes :=
  utf8 "change " ++ Bytes.decimal e.index ++ utf8 ": range end precedes start"

/-- The text after a change, unless the span is reversed. -/
def edit? (c : Change) (text : Bytes) : Option Bytes :=
  match c.span? with
  | none => some c.text
  | some span =>
      let start := span.start.offset text
      let stop := span.stop.offset text
      if stop < start then none else some (text.take start ++ c.text ++ text.drop stop)

/-- Applies changes in order, the first of which has the given index. Those before a reversed one
remain applied. -/
def applyFrom (index : Nat) (text : Bytes) : List Change → Bytes × Option Reversed
  | [] => (text, none)
  | c :: rest =>
      match c.edit? text with
      | some text => applyFrom (index + 1) text rest
      | none => (text, some ⟨index⟩)

end Change

namespace Document

/-- Applies a batch of changes in order. A reversed change ends the batch, and the changes before
it remain applied. -/
def apply (d : Document) (changes : List Change) : Document × Option Change.Reversed :=
  let (text, reversed?) := Change.applyFrom 0 d.text changes
  ({ d with text := text }, reversed?)

/-- The number of lines, counting an empty line after a final line feed. -/
def lineCount (d : Document) : Nat :=
  d.text.count Bytes.lf + 1

end Document

end DefinitionFiles
