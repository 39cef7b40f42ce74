import DefinitionFiles.Text.Quoted

/-!
# Integer numerals

Integers are written in decimal, or with a prefix in binary (`0b`), octal (`0o` or a leading zero)
or hexadecimal (`0x`). Underscores may stand between digits. A numeral is read from left to right:
the first digit that makes it too large, or the first byte that is no digit, decides its error.
-/

namespace DefinitionFiles

/-- Why a text is not the numeral of a number of the wanted kind. -/
inductive NumeralError where
  | malformed
  | outOfRange
  deriving DecidableEq, Repr

/-- The wording of a numeral error for the given text, as reported by the reader of that name. -/
def NumeralError.message (reader : String) (text : Bytes) (e : NumeralError) : Bytes :=
  utf8 "strconv." ++ utf8 reader ++ utf8 ": parsing " ++ quoted text ++
    match e with
    | .malformed => utf8 ": invalid syntax"
    | .outOfRange => utf8 ": value out of range"

namespace Numeral

/-- The value of an ASCII digit or letter, with `a` worth ten. -/
def digitValue? (b : UInt8) : Option Nat :=
  let l := Bytes.lowerByte b
  if Bytes.isDigit b then some (b.toNat - 0x30)
  else if 0x61 ≤ l && l ≤ 0x7A then some (l.toNat - 0x61 + 10)
  else none

/-- Reads digits of the given base after a number already read, which must not exceed `max`.
Underscores are passed over if they are allowed at all. -/
def digits (base : Nat) (underscores : Bool) (max : Nat) :
    (value : Nat) → Bytes → Except NumeralError Nat
  | value, [] => .ok value
  | value, b :: rest =>
      if underscores && b = 0x5F then digits base underscores max value rest
      else match digitValue? b with
        | none => .error .malformed
        | some d =>
            if base ≤ d then .error .malformed
            else if max < value * base + d then .error .outOfRange
            else digits base underscores max (value * base + d) rest

/-- What stands before a place in a numeral, as far as underscores are concerned. -/
inductive Before where
  | start
  | digit
  | underscore
  | other
  deriving DecidableEq, Repr

/-- Whether every underscore of an unsigned numeral stands between digits, or between the base
mark and a digit. -/
def underscoresFit (hex : Bool) : Before → Bytes → Bool
  | before, [] => before != .underscore
  | before, b :: rest =>
      if Bytes.isDigit b || (hex && (Bytes.hexValue? b).isSome) then underscoresFit hex .digit rest
      else if b = 0x5F then before == .digit && underscoresFit hex .underscore rest
      else before != .underscore && underscoresFit hex .other rest

/-- Whether the underscores of a numeral, which may have a sign, are placed as they should. -/
def hasFittingUnderscores (text : Bytes) : Bool :=
  let text := match text with
    | b :: rest => if b = 0x2B || b = 0x2D then rest else text
    | [] => text
  match text with
  | 0x30 :: mark :: rest =>
      let mark := Bytes.lowerByte mark
      if mark = 0x62 || mark = 0x6F || mark = 0x78 then
        underscoresFit (mark = 0x78) .digit rest
      else underscoresFit false .start text
  | _ => underscoresFit false .start text

/-- The base of an unsigned numeral and its digits. -/
def baseOf (text : Bytes) : Nat × Bytes :=
  match text with
  | 0x30 :: mark :: digit :: rest =>
      let lower := Bytes.lowerByte mark
      if lower = 0x62 then (2, digit :: rest)
      else if lower = 0x6F then (8, digit :: rest)
      else if lower = 0x78 then (16, digit :: rest)
      else (8, mark :: digit :: rest)
  | 0x30 :: rest => (8, rest)
  | _ => (10, text)

/-- Reads an unsigned numeral in any base with a value up to `max`. -/
def natural (max : Nat) (text : Bytes) : Except NumeralError Nat :=
  if text = [] then .error .malformed
  else do
    let (base, body) := baseOf text
    let value ← digits base true max 0 body
    if text.contains 0x5F && !hasFittingUnderscores text then .error .malformed
    else return value

/-- Reads an unsigned numeral without underscores in the given base, with a value up to `max`. -/
def naturalIn (base max : Nat) (text : Bytes) : Except NumeralError Nat :=
  if text = [] then .error .malformed else digits base false max 0 text

/-- Reads an unsigned decimal numeral with a value up to `max`. -/
def decimalNatural (max : Nat) (text : Bytes) : Except NumeralError Nat :=
  naturalIn 10 max text

/-- Adds an optional sign to a reader of unsigned numerals, for integers of the given width. -/
def signed (bits : Nat) (unsigned : (max : Nat) → Bytes → Except NumeralError Nat)
    (text : Bytes) : Except NumeralError Int := do
  let (negative, body) := match text with
    | 0x2B :: rest => (false, rest)
    | 0x2D :: rest => (true, rest)
    | _ => (false, text)
  let value ← unsigned (1 <<< bits - 1) body
  if negative then
    if 1 <<< (bits - 1) < value then .error .outOfRange else return -value
  else
    if 1 <<< (bits - 1) ≤ value then .error .outOfRange else return value

/-- Reads an integer numeral in any base that fits the given number of bits. -/
def integer (bits : Nat) : Bytes → Except NumeralError Int :=
  signed bits natural

/-- Reads a decimal integer numeral that fits 64 bits. -/
def decimalInteger : Bytes → Except NumeralError Int :=
  signed 64 decimalNatural

end Numeral

end DefinitionFiles
