import DefinitionFiles.Text.Bytes

/-!
# Base64

Three bytes are written as four characters that stand for six bits each. Equals signs fill up the
last group, and line ends do not count.
-/

namespace DefinitionFiles.Base64

/-- The six bits that a character stands for. -/
def value? (b : UInt8) : Option Nat :=
  if 0x41 ≤ b && b ≤ 0x5A then some (b.toNat - 0x41)
  else if 0x61 ≤ b && b ≤ 0x7A then some (b.toNat - 0x61 + 26)
  else if Bytes.isDigit b then some (b.toNat - 0x30 + 52)
  else if b = 0x2B then some 62
  else if b = 0x2F then some 63
  else none

/-- The three bytes of a number of 24 bits. -/
def triple (n : Nat) : Bytes :=
  [(n / 0x10000).toUInt8, (n / 0x100).toUInt8, n.toUInt8]

/-- The number that four characters stand for. -/
def quantum? (a b c d : UInt8) : Option Nat := do
  return (((← value? a) * 64 + (← value? b)) * 64 + (← value? c)) * 64 + (← value? d)

/-- The bytes that groups of characters stand for. Bits that fill up the last group do not count. -/
def groups? : Bytes → Option Bytes
  | [] => some []
  | [a, b, 0x3D, 0x3D] => (quantum? a b 0x41 0x41).map fun n => (triple n).take 1
  | [a, b, c, 0x3D] => (quantum? a b c 0x41).map fun n => (triple n).take 2
  | a :: b :: c :: d :: rest => do
      return triple (← quantum? a b c d) ++ (← groups? rest)
  | _ => none

/-- The bytes that a text stands for. -/
def decode? (text : Bytes) : Option Bytes :=
  groups? (text.filter fun b => b != Bytes.lf && b != Bytes.cr)

example : decode? (utf8 "aGVs\nbG8=") = some (utf8 "hello") := by decide +kernel

example : decode? (utf8 "aGVsbG8") = none := by decide +kernel

end DefinitionFiles.Base64
