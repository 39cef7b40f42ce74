import DefinitionFiles.Yaml.Scalar.Flowing
import DefinitionFiles.Yaml.Token

/-!
# Anchors, aliases and tags

A node can have a name, by which aliases refer to it, and a tag, which says what it means. A tag is
written in full between angle brackets, or as a handle and the rest of the tag.
-/

namespace DefinitionFiles.Yaml

/-! ## Names -/

/-- Whether a name may end before a text. -/
def atNameEnd (text : List Char) : Bool :=
  atGap text || text.head?.any "?:,]\x7d%@`".toList.contains

/-- Reads the name of an anchor or an alias after its mark. -/
def anchorName? (c : Cursor) : Option (Bytes × Cursor) :=
  let name := c.next.rest.takeWhile isNameChar
  let c := c.next.skip name.length
  if name != [] && atNameEnd c.rest then some (Utf8.ofChars name, c) else none

/-! ## Tags -/

/-- Whether a character stands for itself in a tag. -/
def isTagChar (c : Char) : Bool :=
  isNameChar c || ";/?:@&=+$,.!~*'()[]".toList.contains c

/-- Reads a byte that is written as a percent sign and two hexadecimal digits. -/
def octet? (c : Cursor) : Option (UInt8 × Cursor) :=
  match c.rest with
  | '%' :: a :: b :: _ => (hexNumber? [a, b]).map fun n => (n.toUInt8, c.skip 3)
  | _ => none

/-- How many bytes follow the first byte of a character. -/
def tailSize? (lead : UInt8) : Option Nat :=
  if lead < 0x80 then some 0
  else if lead &&& 0xE0 = 0xC0 then some 1
  else if lead &&& 0xF0 = 0xE0 then some 2
  else if lead &&& 0xF8 = 0xF0 then some 3
  else none

/-- Reads as many further bytes of a character as are wanted. -/
def tailOctets? : (count : Nat) → (done : Bytes) → Cursor → Option (Bytes × Cursor)
  | 0, done, c => some (done, c)
  | count + 1, done, c => do
      let (b, c) ← octet? c
      if b &&& 0xC0 = 0x80 then tailOctets? count (done ++ [b]) c else none

/-- Reads a character that is written byte by byte. -/
def octets? (c : Cursor) : Option (Bytes × Cursor) := do
  let (lead, c) ← octet? c
  tailOctets? (← tailSize? lead) [lead] c

/-- Reads the rest of a tag. -/
def tagFrom : (fuel : Nat) → (done : Bytes) → Cursor → Option (Bytes × Cursor)
  | 0, _, _ => none
  | fuel + 1, done, c =>
      if c.isAt '%' then do
        let (octets, c) ← octets? c
        tagFrom fuel (done ++ octets) c
      else if c.rest.head?.any isTagChar then
        tagFrom fuel (done ++ Utf8.ofChars (c.rest.take 1)) c.next
      else some (done, c)

/-- Reads a part of a tag that must not be empty. -/
def tagPart? (c : Cursor) : Option (Bytes × Cursor) := do
  let (text, stop) ← tagFrom (c.rest.length + 1) [] c
  if text = [] then none else return (text, stop)

/-- The handle at the front of a text that starts with an exclamation mark. What does not end in
another one may yet be the start of a tag. -/
def handleFront (text : List Char) : List Char :=
  let name := (text.drop 1).takeWhile isNameChar
  text.take (name.length + if (text.drop (name.length + 1)).head? = some '!' then 2 else 1)

/-- Reads a tag after the text of its handle. -/
def tagAfter? (front : List Char) (c : Cursor) : Option (Token × Cursor) :=
  if 1 < front.length && front.getLast? = some '!' then do
    let (rest, c) ← tagPart? c
    return (.tag (Utf8.ofChars front) rest, c)
  else do
    let (rest, c) ← tagFrom (c.rest.length + 1) (Utf8.ofChars (front.drop 1)) c
    return (if rest = [] then .tag [] (utf8 "!") else .tag (utf8 "!") rest, c)

/-- Reads a tag in angle brackets after the opening one. -/
def wholeTag? (c : Cursor) : Option (Token × Cursor) := do
  let (text, c) ← tagPart? c
  if c.isAt '>' then return (.tag [] text, c.next) else none

/-- Reads the tag that starts here. -/
def tag? (c : Cursor) : Option (Token × Cursor) := do
  let front := handleFront c.rest
  let (token, c) ←
    if c.next.isAt '<' then wholeTag? (c.skip 2) else tagAfter? front (c.skip front.length)
  if atGap c.rest then return (token, c) else none

end DefinitionFiles.Yaml
