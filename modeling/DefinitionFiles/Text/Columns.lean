import DefinitionFiles.Text.Cluster
import DefinitionFiles.Text.Utf8

/-!
# Columns on a terminal

How many columns a line takes on a terminal: control sequences take none, visible ASCII characters
one each, and other characters as much as the clusters they form. Control sequences are told apart
byte by byte, as terminals do it.
-/

namespace DefinitionFiles.Columns

/-- What a terminal is in the middle of. -/
inductive Mode where
  | ground
  | escape
  | escapeIntermediate
  | controlEntry
  | controlParameter
  | controlIntermediate
  | deviceEntry
  | deviceParameter
  | deviceIntermediate
  | deviceString
  | commandString
  /-- A string without a meaning of its own. -/
  | plainString
  deriving DecidableEq, Repr

/-- What a byte means unless a mode gives it a meaning of its own: `none` if a character starts
here, and else the mode after it. -/
def common (b : UInt8) : Option Mode :=
  if 0xC2 ≤ b && b ≤ 0xF4 then none
  else some (match b with
    | 0x1B => .escape
    | 0x90 => .deviceEntry
    | 0x98 | 0x9E | 0x9F => .plainString
    | 0x9B => .controlEntry
    | 0x9D => .commandString
    | _ => .ground)

/-- Whether a byte is a control that does not end a sequence, or DEL. -/
def isQuiet (b : UInt8) : Bool :=
  b = 0x7F || (b < 0x20 && b != 0x18 && b != 0x1A && b != 0x1B)

/-- The mode after an ASCII byte inside a sequence: bytes from 0x20, from 0x30 and from 0x40 on
each lead to a mode of their own. -/
def sequenceStep (mode intermediate parameter final : Mode) (b : UInt8) : Option Mode :=
  if isQuiet b then some mode
  else if b < 0x20 || 0x80 ≤ b then common b
  else if b < 0x30 then some intermediate
  else if b < 0x40 then some parameter
  else some final

/-- The mode after a byte that follows an escape. -/
def escapeStep (b : UInt8) : Option Mode :=
  match b with
  | 0x50 => some .deviceEntry
  | 0x58 | 0x5E | 0x5F => some .plainString
  | 0x5B => some .controlEntry
  | 0x5D => some .commandString
  | _ => sequenceStep .escape .escapeIntermediate .ground .ground b

/-- The mode after a byte, or `none` if a character starts with it. -/
def step : Mode → UInt8 → Option Mode
  | .ground, b => if b < 0x80 && b != 0x1B then some .ground else common b
  | .escape, b => escapeStep b
  | .escapeIntermediate, b =>
      sequenceStep .escapeIntermediate .escapeIntermediate .ground .ground b
  | .controlEntry, b => sequenceStep .controlEntry .controlIntermediate .controlParameter .ground b
  | .controlParameter, b =>
      sequenceStep .controlParameter .controlIntermediate .controlParameter .ground b
  | .controlIntermediate, b =>
      sequenceStep .controlIntermediate .controlIntermediate .ground .ground b
  | .deviceEntry, b =>
      if b = 0x1B || (0x08 ≤ b && b ≤ 0x0D) then some .deviceString
      else sequenceStep .deviceEntry .deviceIntermediate .deviceParameter .deviceString b
  | .deviceParameter, b =>
      sequenceStep .deviceParameter .deviceIntermediate .deviceParameter .deviceString b
  | .deviceIntermediate, b =>
      sequenceStep .deviceIntermediate .deviceIntermediate .deviceString .deviceString b
  | .deviceString, b =>
      if b = 0x1B then some .escape
      else if b = 0x18 || b = 0x1A || b = 0x9C then some .ground
      else some .deviceString
  | .commandString, b =>
      if b = 0x1B then some .escape
      else if b = 0x07 || b = 0x18 || b = 0x1A || b = 0x9C then some .ground
      else some .commandString
  | .plainString, b =>
      if b < 0x80 && b != 0x1B && b != 0x18 && b != 0x1A then some .plainString else common b

/-- The width of the cluster at the front of a text, and how many bytes follow its first byte. -/
def cluster (text : Bytes) : Nat × Nat :=
  let glyphs := Utf8.glyphs text
  let (width, length) := Cluster.first (glyphs.map Glyph.shown)
  (width, ((glyphs.take length).flatMap Glyph.bytes).length - 1)

/-- Adds the columns that a text takes on a terminal in the given mode. -/
def countFrom (mode : Mode) (count : Nat) : Bytes → Nat
  | [] => count
  | b :: rest =>
      match step mode b with
      | some next =>
          let isVisible := mode = .ground && 0x20 ≤ b && b ≤ 0x7E
          countFrom next (if isVisible then count + 1 else count) rest
      | none =>
          let (width, more) := cluster (b :: rest)
          countFrom .ground (count + width) (rest.drop more)
termination_by text => text.length

/-- How many columns a line takes on a terminal. -/
def count (line : Bytes) : Nat :=
  countFrom .ground 0 line

end DefinitionFiles.Columns
