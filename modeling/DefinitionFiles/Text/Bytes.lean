/-!
# Byte text

Definition files, paths, URIs and protocol streams are sequences of bytes. They are usually
well-formed UTF-8, but nothing guarantees it, so every layer works on bytes and decodes
characters only where a rule speaks of characters.
-/

namespace DefinitionFiles

/-- A text as a sequence of bytes, not necessarily well-formed UTF-8. -/
abbrev Bytes := List UInt8

/-- The UTF-8 bytes of a character string. -/
def utf8 (s : String) : Bytes :=
  s.toUTF8.data.toList

namespace Bytes

/-- The line feed byte. -/
abbrev lf : UInt8 := 0x0A

/-- The carriage return byte. -/
abbrev cr : UInt8 := 0x0D

/-- What is true of the byte of every number below 256 is true of every byte. -/
theorem forall_of_fin {p : UInt8 → Prop} (h : ∀ n : Fin 256, p (UInt8.ofNat n)) (b : UInt8) : p b :=
  UInt8.ofNat_toNat (x := b) ▸ h ⟨b.toNat, b.toNat_lt⟩

/-- The decimal numeral of a natural number. -/
def decimal (n : Nat) : Bytes :=
  (Nat.toDigits 10 n).map fun c => c.toNat.toUInt8

/-- The decimal numeral of an integer, with a leading minus sign when it is negative. -/
def signedDecimal (n : Int) : Bytes :=
  if n < 0 then 0x2D :: decimal n.natAbs else decimal n.natAbs

/-- What follows `word` at the front of `s`, if `s` starts with `word`. -/
def after? : (word s : Bytes) → Option Bytes
  | [], s => some s
  | _ :: _, [] => none
  | w :: word, b :: s => if w = b then after? word s else none

theorem length_of_after? {word s rest : Bytes} (h : after? word s = some rest) :
    rest.length ≤ s.length := by
  induction word generalizing s with
  | nil => simp_all [after?]
  | cons w word ih =>
      cases s with
      | nil => simp [after?] at h
      | cons b s =>
          simp only [after?] at h
          split at h
          · exact Nat.le_succ_of_le (ih h)
          · simp at h

/-- The least offset at which `word` occurs in `s`, counted from `start`. -/
def findFrom (word : Bytes) (start : Nat) : Bytes → Option Nat
  | [] => if word = [] then some start else none
  | b :: s => if word.isPrefixOf (b :: s) then some start else findFrom word (start + 1) s

/-- The least offset at which `word` occurs in `s`. -/
def find? (word s : Bytes) : Option Nat :=
  findFrom word 0 s

/-- Whether `word` occurs in `s`. -/
def occursIn (word s : Bytes) : Bool :=
  (find? word s).isSome

/-- The parts of `s` before and after the first byte equal to `sep`, if there is one. -/
def cut? (sep : UInt8) (s : Bytes) : Option (Bytes × Bytes) :=
  match s.dropWhile (· != sep) with
  | [] => none
  | _ :: rest => some (s.takeWhile (· != sep), rest)

theorem length_of_cut? {sep : UInt8} {s before rest : Bytes}
    (h : cut? sep s = some (before, rest)) : rest.length < s.length := by
  unfold cut? at h
  split at h
  · simp at h
  · next b tail hdrop =>
    cases h
    have hsub : List.Sublist (s.dropWhile (· != sep)) s := List.dropWhile_sublist _
    have hle := hsub.length_le
    simp only [hdrop, List.length_cons] at hle
    omega

/-- The parts of `s` before and after the last byte equal to `sep`, if there is one. -/
def cutLast? (sep : UInt8) (s : Bytes) : Option (Bytes × Bytes) :=
  (cut? sep s.reverse).map fun (after, before) => (before.reverse, after.reverse)

/-- The pieces of `s` between the bytes equal to `sep`: one more than there are such bytes. -/
def split (sep : UInt8) (s : Bytes) : List Bytes :=
  s.foldr (fun b pieces =>
    if b = sep then [] :: pieces
    else match pieces with
      | piece :: rest => (b :: piece) :: rest
      | [] => [[b]]) [[]]

/-- The given pieces with `sep` between each two of them. -/
def join (sep : Bytes) (pieces : List Bytes) : Bytes :=
  (pieces.intersperse sep).flatten

/-- `s` with every byte `old` replaced by `new`. -/
def replaceByte (old new : UInt8) (s : Bytes) : Bytes :=
  s.map fun b => if b = old then new else b

/-- Bytewise lexicographic order. -/
def le : Bytes → Bytes → Bool
  | [], _ => true
  | _ :: _, [] => false
  | a :: s, b :: t => a < b || (a == b && le s t)

/-- A list with one more element, which stands in front of the first one whose name does not come
before its own. -/
def insertOn {α : Type} (name : α → Bytes) (a : α) : List α → List α
  | [] => [a]
  | b :: rest => if le (name a) (name b) then a :: b :: rest else b :: insertOn name a rest

/-- Elements in ascending bytewise order of their names. Those with one name keep their order. -/
def sortOn {α : Type} (name : α → Bytes) (elements : List α) : List α :=
  elements.foldr (insertOn name) []

/-- The given texts in ascending bytewise order. -/
def sort (texts : List Bytes) : List Bytes :=
  sortOn id texts

/-- Whether `b` is an ASCII decimal digit. -/
def isDigit (b : UInt8) : Bool :=
  0x30 ≤ b && b ≤ 0x39

/-- Whether `b` is an ASCII letter. -/
def isLetter (b : UInt8) : Bool :=
  (0x41 ≤ b && b ≤ 0x5A) || (0x61 ≤ b && b ≤ 0x7A)

/-- The lower-case form of an ASCII letter; every other byte is kept. -/
def lowerByte (b : UInt8) : UInt8 :=
  if 0x41 ≤ b && b ≤ 0x5A then b + 0x20 else b

/-- The upper-case form of an ASCII letter; every other byte is kept. -/
def upperByte (b : UInt8) : UInt8 :=
  if 0x61 ≤ b && b ≤ 0x7A then b - 0x20 else b

/-- The value of an ASCII hexadecimal digit. -/
def hexValue? (b : UInt8) : Option Nat :=
  if 0x30 ≤ b && b ≤ 0x39 then some (b.toNat - 0x30)
  else if 0x61 ≤ b && b ≤ 0x66 then some (b.toNat - 0x61 + 10)
  else if 0x41 ≤ b && b ≤ 0x46 then some (b.toNat - 0x41 + 10)
  else none

/-- The lower-case hexadecimal digit of a number below sixteen. -/
def hexDigit (n : Nat) : UInt8 :=
  if n < 10 then (0x30 + n).toUInt8 else (0x57 + n).toUInt8

/-- The upper-case hexadecimal digit of a number below sixteen. -/
def upperHexDigit (n : Nat) : UInt8 :=
  if n < 10 then (0x30 + n).toUInt8 else (0x37 + n).toUInt8

/-- The lower-case hexadecimal numeral of `n` in exactly `width` digits. -/
def hex (width n : Nat) : Bytes :=
  (List.range width).reverse.map fun i => hexDigit (n >>> (4 * i) % 16)

end Bytes

end DefinitionFiles
