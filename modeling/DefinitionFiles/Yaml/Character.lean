import DefinitionFiles.Text.Utf8

/-!
# Characters of YAML text

YAML text is UTF-8, or UTF-16 behind a byte order mark, and holds no control characters. Its lines
end at line feeds and at the line and paragraph separators of Unicode; the other ways to end a line
count as a line feed.
-/

namespace DefinitionFiles.Yaml

/-- Whether a character is white space inside a line. -/
def isBlank (c : Char) : Bool :=
  c = ' ' || c = '\t'

/-- Whether a character ends a line. -/
def isBreak (c : Char) : Bool :=
  c = '\n' || c = '\u2028' || c = '\u2029'

/-- Whether a text starts with white space or a line end, or is at its end. -/
def atGap : List Char → Bool
  | [] => true
  | c :: _ => isBlank c || isBreak c

/-- Whether a character may stand in the name of an anchor, a directive or a tag handle. -/
def isNameChar (c : Char) : Bool :=
  c.isAlphanum || c = '_' || c = '-'

/-- Whether a character may stand in YAML text. -/
def isAllowed (c : Char) : Bool :=
  let n := c.toNat
  n = 0x09 || n = 0x0A || n = 0x0D || (0x20 ≤ n && n ≤ 0x7E) || n = 0x85 ||
    (0xA0 ≤ n && n ≤ 0xFFFD) || 0x10000 ≤ n

/-- The text with every line end that is no separator written as a line feed. -/
def withLineFeeds : List Char → List Char
  | [] => []
  | '\r' :: '\n' :: rest => '\n' :: withLineFeeds rest
  | c :: rest => (if c = '\r' || c = '\u0085' then '\n' else c) :: withLineFeeds rest

/-- The characters that UTF-16 code units stand for, if every surrogate has its partner. -/
def ofUnits? : List Nat → Option (List Char)
  | [] => some []
  | unit :: rest =>
      if unit < 0xD800 || 0xE000 ≤ unit then (ofUnits? rest).map (Char.ofNat unit :: ·)
      else if 0xDC00 ≤ unit then none
      else match rest with
        | low :: rest =>
            if 0xDC00 ≤ low && low < 0xE000 then
              (ofUnits? rest).map
                (Char.ofNat (0x10000 + (unit - 0xD800) * 0x400 + (low - 0xDC00)) :: ·)
            else none
        | [] => none

/-- The code units of pairs of bytes, the more significant byte first if `big` says so. -/
def units? (big : Bool) : Bytes → Option (List Nat)
  | [] => some []
  | a :: b :: rest =>
      let unit := if big then 256 * a.toNat + b.toNat else 256 * b.toNat + a.toNat
      (units? big rest).map (unit :: ·)
  | [_] => none

/-- The characters of a text in the encoding that its byte order mark tells. -/
def decoded? (text : Bytes) : Option (List Char) :=
  match text with
  | 0xFF :: 0xFE :: rest => (units? false rest).bind ofUnits?
  | 0xFE :: 0xFF :: rest => (units? true rest).bind ofUnits?
  | 0xEF :: 0xBB :: 0xBF :: rest => if Utf8.isValid rest then some (Utf8.chars rest) else none
  | _ => if Utf8.isValid text then some (Utf8.chars text) else none

/-- The characters of a text, if all of them are allowed. -/
def characters? (text : Bytes) : Option (List Char) := do
  let chars ← decoded? text
  if chars.all isAllowed then return withLineFeeds chars else none

end DefinitionFiles.Yaml
