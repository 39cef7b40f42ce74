import DefinitionFiles.Text.Utf8

/-!
# JSON values

A value keeps numbers and strings as they were written: the text of a number, and the contents of
a string with its escapes. Writing a value therefore keeps number texts, escapes, the order of
members and repeated members, and drops only the white space around them.
-/

namespace DefinitionFiles

/-- A JSON value. -/
inductive Json where
  | null
  | bool (b : Bool)
  /-- A number by its text. -/
  | number (text : Bytes)
  /-- A string by what stands between its quotes. -/
  | string (raw : Bytes)
  | array (items : List Json)
  /-- An object by its members; a name is what stands between its quotes. -/
  | object (members : List (Bytes × Json))
  deriving Repr, Inhabited

namespace Json

/-- The letter of the short escape of a control character that has one. -/
def shortEscape? (n : Nat) : Option UInt8 :=
  match n with
  | 0x08 => some 0x62
  | 0x09 => some 0x74
  | 0x0A => some 0x6E
  | 0x0C => some 0x66
  | 0x0D => some 0x72
  | _ => none

/-- A character as it stands in a string. -/
def escapeChar (c : Char) : Bytes :=
  if c = '"' || c = '\\' then 0x5C :: Utf8.encode c
  else if c.toNat < 0x20 then
    match shortEscape? c.toNat with
    | some letter => [0x5C, letter]
    | none => utf8 "\\u" ++ Bytes.hex 4 c.toNat
  else Utf8.encode c

/-- A text as it stands between the quotes of a string. A stray byte becomes U+FFFD. The character
stands for itself; a writer may also spell it as an escape, which is read as the same character. -/
def escape (s : Bytes) : Bytes :=
  (Utf8.chars s).flatMap escapeChar

/-- The string with the given text. -/
def text (s : Bytes) : Json :=
  .string (escape s)

/-- The number with the given value. -/
def int (n : Int) : Json :=
  .number (Bytes.signedDecimal n)

/-- The object with the given members, under names that need no escape. -/
def record (members : List (String × Json)) : Json :=
  .object (members.map fun (name, value) => (utf8 name, value))

/-- Whether a character is always escaped, so that the text can be embedded in a web page. -/
def isMarkup (c : Char) : Bool :=
  c = '<' || c = '>' || c = '&' || c = '\u2028' || c = '\u2029'

/-- String contents with the markup characters escaped. -/
def guardMarkup (raw : Bytes) : Bytes :=
  (Utf8.glyphs raw).flatMap fun
    | .scalar c => if isMarkup c then utf8 "\\u" ++ Bytes.hex 4 c.toNat else Utf8.encode c
    | .stray b => [b]

/-- The quoted form of string contents. -/
def quote (raw : Bytes) : Bytes :=
  0x22 :: guardMarkup raw ++ [0x22]

/-- How the parts of an array or object are laid out. -/
structure Layout where
  /-- What stands after an opening bracket, and after a comma between two parts. -/
  lead : (depth : Nat) → Bytes
  /-- What stands before a closing bracket. -/
  tail : (depth : Nat) → Bytes
  /-- What stands between a name and its value. -/
  colon : Bytes

namespace Layout

/-- No white space at all. -/
def compact : Layout :=
  { lead := fun _ => [], tail := fun _ => [], colon := [0x3A] }

/-- A line feed and two spaces for each level. -/
def newline (depth : Nat) : Bytes :=
  Bytes.lf :: List.replicate (2 * depth) 0x20

/-- Every part on a line of its own. -/
def indented : Layout :=
  { lead := fun depth => newline (depth + 1), tail := newline, colon := [0x3A, 0x20] }

/-- Puts written parts between brackets; without parts there is nothing between them. -/
def enclose (l : Layout) (depth : Nat) (opening closing : UInt8) (parts : List Bytes) : Bytes :=
  if parts = [] then [opening, closing]
  else
    opening :: (l.lead depth ++ Bytes.join (0x2C :: l.lead depth) parts) ++ l.tail depth ++
      [closing]

end Layout

mutual

/-- The text of a value that stands at the given depth. -/
def write (l : Layout) (depth : Nat) : Json → Bytes
  | .null => utf8 "null"
  | .bool true => utf8 "true"
  | .bool false => utf8 "false"
  | .number text => text
  | .string raw => quote raw
  | .array items => l.enclose depth 0x5B 0x5D (writeItems l (depth + 1) items)
  | .object members => l.enclose depth 0x7B 0x7D (writeMembers l (depth + 1) members)

/-- The texts of the items of an array. -/
def writeItems (l : Layout) (depth : Nat) : List Json → List Bytes
  | [] => []
  | item :: rest => write l depth item :: writeItems l depth rest

/-- The texts of the members of an object. -/
def writeMembers (l : Layout) (depth : Nat) : List (Bytes × Json) → List Bytes
  | [] => []
  | (name, value) :: rest =>
      (quote name ++ l.colon ++ write l depth value) :: writeMembers l depth rest

end

/-- The text of a value without white space. -/
def render (j : Json) : Bytes :=
  j.write .compact 0

/-- The text of a value with every part on a line of its own. -/
def renderIndented (j : Json) : Bytes :=
  j.write .indented 0

end Json

end DefinitionFiles
