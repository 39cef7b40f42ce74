import DefinitionFiles.Text.Utf8
import DefinitionFiles.Text.Printable

/-!
# Quoted text

Messages show names and other foreign text between double quotes. Printable characters stand for
themselves; quotes and backslashes are escaped, and everything else is written as an escape that
names the control character, the stray byte or the code point.
-/

namespace DefinitionFiles.Quoted

/-- The letter of the escape of a control character that has one. -/
def controlLetter? (c : Char) : Option UInt8 :=
  match c.toNat with
  | 0x07 => some 0x61
  | 0x08 => some 0x62
  | 0x0C => some 0x66
  | 0x0A => some 0x6E
  | 0x0D => some 0x72
  | 0x09 => some 0x74
  | 0x0B => some 0x76
  | _ => none

/-- A character as it stands between quotes. -/
def char (c : Char) : Bytes :=
  if c = '"' || c = '\\' then 0x5C :: Utf8.encode c
  else if isPrintable c then Utf8.encode c
  else match controlLetter? c with
    | some letter => [0x5C, letter]
    | none =>
        if c.toNat < 0x80 then utf8 "\\x" ++ Bytes.hex 2 c.toNat
        else if c.toNat < 0x10000 then utf8 "\\u" ++ Bytes.hex 4 c.toNat
        else utf8 "\\U" ++ Bytes.hex 8 c.toNat

/-- A glyph as it stands between quotes. -/
def glyph : Glyph → Bytes
  | .scalar c => char c
  | .stray b => utf8 "\\x" ++ Bytes.hex 2 b.toNat

end DefinitionFiles.Quoted

namespace DefinitionFiles

/-- A byte text between double quotes, with escapes where needed. -/
def quoted (s : Bytes) : Bytes :=
  0x22 :: (Utf8.glyphs s).flatMap Quoted.glyph ++ [0x22]

end DefinitionFiles
