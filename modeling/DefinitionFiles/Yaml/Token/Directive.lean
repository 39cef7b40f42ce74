import DefinitionFiles.Yaml.Token.Property

/-!
# Directives

Before a document, directives tell the version of YAML and what the handles of tags stand for. Each
stands on a line of its own, which may end in a comment.
-/

namespace DefinitionFiles.Yaml

/-- Reads a number of at most two digits. -/
def versionNumber? (c : Cursor) : Option (Nat × Cursor) :=
  let digits := c.rest.takeWhile Char.isDigit
  if digits = [] || 2 < digits.length then none
  else some (digits.foldl (fun n d => 10 * n + (d.toNat - '0'.toNat)) 0, c.skip digits.length)

/-- Reads a version: two numbers with a point between them. -/
def version? (c : Cursor) : Option (Token × Cursor) := do
  let (major, c) ← versionNumber? (c.skipWhile isBlank)
  if !c.isAt '.' then none
  let (minor, c) ← versionNumber? c.next
  return (.version major minor, c)

/-- Reads a handle and what it stands for. -/
def handle? (c : Cursor) : Option (Token × Cursor) := do
  let c := c.skipWhile isBlank
  if !c.isAt '!' then none
  let front := handleFront c.rest
  if front.getLast? != some '!' then none
  let c := c.skip front.length
  if !c.rest.head?.any isBlank then none
  let (start, c) ← tagPart? (c.skipWhile isBlank)
  if atGap c.rest then return (.handle (Utf8.ofChars front) start, c) else none

/-- Reads the directive that starts here, to the end of its line. -/
def directive? (c : Cursor) : Option (Token × Cursor) := do
  let name := c.next.rest.takeWhile isNameChar
  let c := c.next.skip name.length
  if !atGap c.rest then none
  let (token, c) ←
    if name = "YAML".toList then version? c
    else if name = "TAG".toList then handle? c
    else none
  let c := c.skipWhile isBlank
  let c := if c.isAt '#' then c.toLineEnd else c
  if c.atLineEnd then return (token, c.next) else none

end DefinitionFiles.Yaml
