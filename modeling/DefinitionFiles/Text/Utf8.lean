import DefinitionFiles.Text.Bytes

/-!
# Characters of a byte text

A byte text is read from left to right as a sequence of glyphs: well-formed UTF-8 characters, and
stray bytes that begin no well-formed character. Reading never fails and loses no byte.
-/

namespace DefinitionFiles

/-- One unit of reading a byte text: a character, or a byte that is part of none. -/
inductive Glyph where
  | scalar (c : Char)
  | stray (b : UInt8)
  deriving DecidableEq, Repr

namespace Utf8

/-- The UTF-8 bytes of a character. -/
def encode (c : Char) : Bytes :=
  String.utf8EncodeChar c

/-- Whether `b` can continue a character. -/
def isTail (b : UInt8) : Bool :=
  0x80 ≤ b && b ≤ 0xBF

/-- Whether `b` can follow the lead byte `lead` of a three-byte character. Overlong forms and
surrogates are excluded here. -/
def isSecondOfThree (lead b : UInt8) : Bool :=
  if lead = 0xE0 then 0xA0 ≤ b && b ≤ 0xBF
  else if lead = 0xED then 0x80 ≤ b && b ≤ 0x9F
  else isTail b

/-- Whether `b` can follow the lead byte `lead` of a four-byte character. Overlong forms and
numbers beyond the last code point are excluded here. -/
def isSecondOfFour (lead b : UInt8) : Bool :=
  if lead = 0xF0 then 0x90 ≤ b && b ≤ 0xBF
  else if lead = 0xF4 then 0x80 ≤ b && b ≤ 0x8F
  else isTail b

/-- The six payload bits of a continuation byte. -/
def payload (b : UInt8) : Nat :=
  b.toNat % 0x40

/-- Reads the glyph at the front of `b :: rest` and gives what follows it. -/
@[inline]
def read (b : UInt8) (rest : Bytes) : Glyph × Bytes :=
  if b < 0x80 then (.scalar (Char.ofNat b.toNat), rest)
  else if 0xC2 ≤ b && b ≤ 0xDF then
    match rest with
    | b₁ :: rest₁ =>
        if isTail b₁ then
          (.scalar (Char.ofNat (b.toNat % 0x20 * 0x40 + payload b₁)), rest₁)
        else (.stray b, rest)
    | [] => (.stray b, rest)
  else if 0xE0 ≤ b && b ≤ 0xEF then
    match rest with
    | b₁ :: b₂ :: rest₂ =>
        if isSecondOfThree b b₁ && isTail b₂ then
          (.scalar (Char.ofNat
            (b.toNat % 0x10 * 0x1000 + payload b₁ * 0x40 + payload b₂)), rest₂)
        else (.stray b, rest)
    | _ => (.stray b, rest)
  else if 0xF0 ≤ b && b ≤ 0xF4 then
    match rest with
    | b₁ :: b₂ :: b₃ :: rest₃ =>
        if isSecondOfFour b b₁ && isTail b₂ && isTail b₃ then
          (.scalar (Char.ofNat
            (b.toNat % 0x08 * 0x40000 + payload b₁ * 0x1000 + payload b₂ * 0x40 + payload b₃)),
            rest₃)
        else (.stray b, rest)
    | _ => (.stray b, rest)
  else (.stray b, rest)

theorem length_read_le (b : UInt8) (rest : Bytes) :
    (read b rest).2.length ≤ rest.length := by
  unfold read
  repeat' split
  all_goals simp
  all_goals omega

/-- The glyphs of `s` from left to right, after those already collected in `acc`. -/
def glyphsFrom (acc : List Glyph) : Bytes → List Glyph
  | [] => acc.reverse
  | b :: rest => glyphsFrom ((read b rest).1 :: acc) (read b rest).2
termination_by s => s.length
decreasing_by
  have := length_read_le b rest
  simp only [List.length_cons]
  omega

/-- The glyphs of a byte text from left to right. -/
def glyphs (s : Bytes) : List Glyph :=
  glyphsFrom [] s

end Utf8

/-- The character a glyph shows: a stray byte shows as U+FFFD. -/
def Glyph.shown : Glyph → Char
  | .scalar c => c
  | .stray _ => '\uFFFD'

/-- The bytes a glyph was read from. -/
def Glyph.bytes : Glyph → Bytes
  | .scalar c => Utf8.encode c
  | .stray b => [b]

/-- How many UTF-16 code units a character takes. -/
def utf16Width (c : Char) : Nat :=
  if 0x10000 ≤ c.toNat then 2 else 1

namespace Utf8

/-- The characters of a byte text, with U+FFFD for every stray byte. -/
def chars (s : Bytes) : List Char :=
  (glyphs s).map Glyph.shown

/-- The UTF-8 bytes of a sequence of characters. -/
def ofChars (cs : List Char) : Bytes :=
  cs.flatMap encode

/-- Whether a byte text is well-formed UTF-8: it has no stray byte. -/
def isValid (s : Bytes) : Bool :=
  (glyphs s).all fun
    | .scalar _ => true
    | .stray _ => false

/-- The length of `s` in UTF-16 code units, added to `count`. -/
def unitsFrom (count : Nat) : Bytes → Nat
  | [] => count
  | b :: rest =>
      match _h : read b rest with
      | (glyph, left) => unitsFrom (count + utf16Width glyph.shown) left
termination_by s => s.length
decreasing_by
  have := length_read_le b rest
  simp only [_h] at this
  simp only [List.length_cons]
  omega

/-- The length of a byte text in UTF-16 code units; a stray byte counts as one. -/
def units (s : Bytes) : Nat :=
  unitsFrom 0 s

end Utf8

end DefinitionFiles
