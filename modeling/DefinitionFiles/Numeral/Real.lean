import DefinitionFiles.Numeral.Integer

/-!
# Floating-point numerals

A floating-point numeral denotes an exact rational number, written in decimal or, after `0x`, in
hexadecimal with a binary exponent. It is rounded once, to the nearest number of a binary format,
a tie going to the even neighbour. Numbers are represented by their bits.
-/

namespace DefinitionFiles

/-- A binary floating-point format: the bits of a significand, its leading bit included, and the
bits of an exponent. -/
structure FloatFormat where
  precision : Nat
  exponentBits : Nat
  deriving DecidableEq, Repr

namespace FloatFormat

/-- The format with 32 bits. -/
def single : FloatFormat := ⟨24, 8⟩

/-- The format with 64 bits. -/
def double : FloatFormat := ⟨53, 11⟩

/-- The biased exponent of infinities and NaN. -/
def topExponent (f : FloatFormat) : Nat :=
  1 <<< f.exponentBits - 1

/-- The exponent of the last bit of subnormal numbers. -/
def leastExponent (f : FloatFormat) : Int :=
  3 - (1 <<< (f.exponentBits - 1) : Nat) - f.precision

/-- The bits of a number without sign, given its biased exponent and the rest of its bits. -/
def pack (f : FloatFormat) (exponent fraction : Nat) : Nat :=
  exponent <<< (f.precision - 1) + fraction

/-- The bits of positive infinity. -/
def infinity (f : FloatFormat) : Nat :=
  f.pack f.topExponent 0

/-- The bits of a number that is none. -/
def nan (f : FloatFormat) : Nat :=
  f.pack f.topExponent (1 <<< (f.precision - 2))

/-- Whether the bits are those of no number. -/
def isNan (f : FloatFormat) (bits : Nat) : Bool :=
  f.infinity < bits % (1 <<< (f.precision - 1 + f.exponentBits))

/-- The sign bit, if `negative`, together with the other bits. -/
def withSign (f : FloatFormat) (negative : Bool) (bits : Nat) : Nat :=
  if negative then 1 <<< (f.precision - 1 + f.exponentBits) + bits else bits

/-- The integer nearest to `n / d`; a tie goes to the even one. -/
def nearest (n d : Nat) : Nat :=
  let q := n / d
  let r := n % d
  if 2 * r < d then q
  else if d < 2 * r then q + 1
  else if q % 2 = 0 then q else q + 1

/-- The greatest `k` with `2 ^ k ≤ n / d`, for positive `n` and `d`. -/
def log2Quotient (n d : Nat) : Int :=
  let k : Int := (Nat.log2 n : Int) - Nat.log2 d
  if d <<< k.toNat ≤ n <<< (-k).toNat then k else k - 1

/-- The bits of the number of the format that is nearest to `n / d`, or nothing when it is too
large. -/
def round? (f : FloatFormat) (n d : Nat) : Option Nat :=
  if n = 0 then some 0
  else
    let exponent := max (log2Quotient n d - (f.precision - 1 : Nat)) f.leastExponent
    let significand := nearest (n <<< (-exponent).toNat) (d <<< exponent.toNat)
    let steps := (exponent - f.leastExponent).toNat
    let bits := f.pack steps significand
    if bits < f.infinity then some bits else none

/-- The integer part of a number. Those too large for 64 bits count as the least integer, and what
is no number has none. -/
def truncate? (f : FloatFormat) (bits : Nat) : Option Int :=
  let width := f.precision - 1
  let negative := 1 <<< (width + f.exponentBits) ≤ bits
  let magnitude := bits % (1 <<< (width + f.exponentBits))
  let exponent := magnitude >>> width
  let fraction := magnitude % (1 <<< width)
  if f.isNan bits then none
  else
    let significand := if exponent = 0 then fraction else 1 <<< width + fraction
    let scale := f.leastExponent + (max exponent 1 - 1 : Nat)
    let whole :=
      if 0 ≤ scale then significand <<< scale.toNat else significand >>> (-scale).toNat
    if whole < 1 <<< 63 then some (if negative then -whole else whole)
    else if negative || whole = 1 <<< 63 then some (-(1 <<< 63 : Nat))
    else none

/-- The bits of the number that is nearest to an integer, or nothing when it is too large. -/
def ofInt? (f : FloatFormat) (n : Int) : Option Nat :=
  (f.round? n.natAbs 1).map (f.withSign (n < 0))

end FloatFormat

namespace Numeral

/-- The parts of a floating-point numeral after its sign. -/
structure RealText where
  /-- The digits of the significand as one integer. -/
  significand : Nat
  /-- How many digits it has, leading zeros not counted. -/
  size : Nat
  /-- How many of the digits stand after the point. -/
  places : Nat
  /-- The written exponent. -/
  exponent : Int
  deriving DecidableEq, Repr

/-- The state of reading the digits of a significand. -/
structure Significand where
  value : Nat := 0
  size : Nat := 0
  places : Nat := 0
  sawPoint : Bool := false
  sawDigit : Bool := false

/-- Reads digits of the given base, with underscores and at most one point among them. -/
def significand (base : Nat) : Significand → Bytes → Significand × Bytes
  | s, [] => (s, [])
  | s, b :: rest =>
      if b = 0x5F then significand base s rest
      else if b = 0x2E then
        if s.sawPoint then (s, b :: rest) else significand base { s with sawPoint := true } rest
      else match Bytes.hexValue? b with
        | none => (s, b :: rest)
        | some d =>
            if base ≤ d then (s, b :: rest)
            else significand base
              { s with
                value := s.value * base + d
                size := if s.size = 0 && d = 0 then 0 else s.size + 1
                places := if s.sawPoint then s.places + 1 else s.places
                sawDigit := true } rest

/-- Reads the digits of an exponent. Far beyond every format its exact value no longer counts, and
further digits are passed over. -/
def exponentDigits : Nat → Bytes → Option Nat
  | value, [] => some value
  | value, b :: rest =>
      if b = 0x5F then exponentDigits value rest
      else if Bytes.isDigit b then
        exponentDigits (if value < 10000 then value * 10 + (b.toNat - 0x30) else value) rest
      else none

/-- Reads an exponent after its mark. -/
def exponent? (text : Bytes) : Option Int := do
  let (negative, body) := match text with
    | 0x2B :: rest => (false, rest)
    | 0x2D :: rest => (true, rest)
    | _ => (false, text)
  let first ← body.head?
  if !Bytes.isDigit first then none
  let value ← exponentDigits 0 body
  return if negative then -value else value

/-- Reads the significand and the exponent of an unsigned numeral in the given base. Hexadecimal
numerals must have an exponent. -/
def realText? (base : Nat) (text : Bytes) : Option RealText :=
  let mark : UInt8 := if base = 16 then 0x70 else 0x65
  match significand base {} text with
  | (s, rest) =>
      if !s.sawDigit then none
      else match rest with
        | [] => if base = 16 then none else some ⟨s.value, s.size, s.places, 0⟩
        | b :: rest =>
            if Bytes.lowerByte b = mark then
              (exponent? rest).map fun e => ⟨s.value, s.size, s.places, e⟩
            else none

/-- The bits of an unsigned decimal numeral. Numerals whose magnitude is beyond every format are
settled without computing their value. -/
def roundDecimal? (f : FloatFormat) (r : RealText) : Option Nat :=
  let e := r.exponent - r.places
  let magnitude := r.size + e
  if r.significand = 0 || magnitude < -400 then some 0
  else if 400 < magnitude then none
  else f.round? (r.significand * Nat.pow 10 e.toNat) (Nat.pow 10 (-e).toNat)

/-- The bits of an unsigned hexadecimal numeral. -/
def roundHexadecimal? (f : FloatFormat) (r : RealText) : Option Nat :=
  let e := r.exponent - 4 * r.places
  let magnitude := 4 * r.size + e
  if r.significand = 0 || magnitude < -1200 then some 0
  else if 1200 < magnitude then none
  else f.round? (r.significand <<< e.toNat) (1 <<< (-e).toNat)

/-- Reads a floating-point numeral as bits of the given format. The words `inf`, `infinity` and
`nan` are numerals too, in any letter case; only the first two take a sign. -/
def real (f : FloatFormat) (text : Bytes) : Except NumeralError Nat :=
  let (isSigned, negative, body) := match text with
    | 0x2B :: rest => (true, false, rest)
    | 0x2D :: rest => (true, true, rest)
    | _ => (false, false, text)
  let word := body.map Bytes.lowerByte
  if word = utf8 "inf" || word = utf8 "infinity" then .ok (f.withSign negative f.infinity)
  else if word = utf8 "nan" && !isSigned then .ok f.nan
  else
    let (base, body) := match body with
      | 0x30 :: mark :: digit :: rest =>
          if Bytes.lowerByte mark = 0x78 then (16, digit :: rest) else (10, body)
      | _ => (10, body)
    match realText? base body with
    | none => .error .malformed
    | some r =>
        if text.contains 0x5F && !hasFittingUnderscores text then .error .malformed
        else match (if base = 16 then roundHexadecimal? f r else roundDecimal? f r) with
          | some bits => .ok (f.withSign negative bits)
          | none => .error .outOfRange

end Numeral

end DefinitionFiles
