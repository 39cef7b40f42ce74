import DefinitionFiles.Text.Bytes

/-!
# Numeric addresses

A host in brackets is an address of eight groups of hexadecimal digits. Two colons in a row stand
for one or more groups of zeros, the last two groups may be written as four decimal numbers, and a
zone may follow after a percent sign.
-/

namespace DefinitionFiles.Uri

/-- Whether a text is a decimal number below 256 without needless zeros. -/
def isOctet (s : Bytes) : Bool :=
  !s.isEmpty && s.length ≤ 3 && s.all Bytes.isDigit && (s.head? != some 0x30 || s.length = 1) &&
    s.foldl (fun n b => 10 * n + (b.toNat - 0x30)) 0 < 256

/-- Whether a text is four decimal numbers with dots between them. -/
def isDotted (s : Bytes) : Bool :=
  let octets := Bytes.split 0x2E s
  octets.length = 4 && octets.all isOctet

/-- Whether a text is a group: one to four hexadecimal digits. -/
def isGroup (s : Bytes) : Bool :=
  !s.isEmpty && s.length ≤ 4 && s.all fun b => (Bytes.hexValue? b).isSome

/-- How many groups the pieces between colons stand for. Only the last piece, if `last` allows it,
may be four decimal numbers, which stand for two groups. -/
def groupCount? (last : Bool) : List Bytes → Option Nat
  | [] => some 0
  | piece :: rest =>
      if isGroup piece then (groupCount? last rest).map (· + 1)
      else if last && rest.isEmpty && isDotted piece then some 2
      else none

/-- The pieces of a text between colons; the empty text has none. -/
def colonPieces (s : Bytes) : List Bytes :=
  if s = [] then [] else Bytes.split 0x3A s

/-- Whether a text is an address, possibly with a zone. -/
def isAddress (s : Bytes) : Bool :=
  let (address, hasZone) := match Bytes.cut? 0x25 s with
    | some (address, zone) => (address, zone != [])
    | none => (s, true)
  hasZone && match Bytes.find? (utf8 "::") address with
    | some n =>
        match groupCount? false (colonPieces (address.take n)),
            groupCount? true (colonPieces (address.drop (n + 2))) with
        | some before, some after => before + after < 8
        | _, _ => false
    | none => groupCount? true (Bytes.split 0x3A address) = some 8

end DefinitionFiles.Uri
