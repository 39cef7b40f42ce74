import DefinitionFiles.Text.Bytes

/-!
# Lines

A line ends at a line feed; one carriage return before the line feed belongs to the terminator.
Text after the last line feed is a line too, unless it is empty. `lines` says what the lines of a
text are; `LineReader` takes a text in pieces and bounds the length of a line.
-/

namespace DefinitionFiles

/-- A line without one carriage return at its end. -/
def chomp (line : Bytes) : Bytes :=
  if line.getLast? = some Bytes.cr then line.dropLast else line

/-- The lines of a text without their line feeds. -/
def rawLines (text : Bytes) : List Bytes :=
  let pieces := Bytes.split Bytes.lf text
  if pieces.getLast? = some [] then pieces.dropLast else pieces

/-- The lines of a text without their terminators. -/
def lines (text : Bytes) : List Bytes :=
  (rawLines text).map chomp

/-- The state of reading lines from pieces of a text. -/
structure LineReader where
  /-- The completed lines without their line feeds, newest first. -/
  completed : List Bytes := []
  /-- The bytes of the current line, newest first. -/
  current : Bytes := []
  /-- The number of bytes of the current line. -/
  size : Nat := 0
  /-- Whether a line reached the bound. Nothing after it is read. -/
  overflowed : Bool := false

namespace LineReader

/-- A line must stay below this many bytes when it is read from a stream. -/
def bound : Nat := 16 * 1024 * 1024

/-- The bound for the lines of a text that is there as a whole. No line of it is that long. -/
def boundOf (text : Bytes) : Nat := max 4096 (text.length + 1)

/-- Takes one more byte of the text. -/
def push (bound : Nat) (r : LineReader) (b : UInt8) : LineReader :=
  if r.overflowed then r
  else if b = Bytes.lf then
    { completed := r.current.reverse :: r.completed, current := [], size := 0 }
  else if r.size + 1 < bound then { r with current := b :: r.current, size := r.size + 1 }
  else { r with overflowed := true }

/-- Takes one more piece of the text. -/
def feed (bound : Nat) (r : LineReader) (piece : Bytes) : LineReader :=
  piece.foldl (push bound) r

/-- The lines read so far, without their terminators. An unfinished line counts unless it is empty
or too long. -/
def lines (r : LineReader) : List Bytes :=
  let rest := if r.overflowed || r.current.isEmpty then r.completed
    else r.current.reverse :: r.completed
  rest.reverse.map chomp

/-- The reader after all the given pieces, with a bound on the length of lines. -/
def run (bound : Nat) (pieces : List Bytes) : LineReader :=
  pieces.foldl (feed bound) {}

end LineReader

end DefinitionFiles
