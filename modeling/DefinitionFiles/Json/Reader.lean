import DefinitionFiles.Json

/-!
# Reading JSON text

A text holds one value, with white space allowed around it and between its parts. Containers may
nest up to a fixed depth. Reading goes from left to right; every step gives what it read together
with the rest of the text.
-/

namespace DefinitionFiles.Json

/-- The white space of JSON: space, tab, line feed and carriage return. -/
def isSpace (b : UInt8) : Bool :=
  b = 0x20 || b = 0x09 || b = 0x0A || b = 0x0D

/-- A text without the white space at its front. -/
def skip (s : Bytes) : Bytes :=
  s.dropWhile isSpace

/-- The bytes that may follow a backslash alone. -/
def isShortEscape (b : UInt8) : Bool :=
  (utf8 "\"\\/bfnrt").contains b

/-- Reads string contents up to the closing quote, after those already collected in `acc`. Control
bytes and unknown escapes are not allowed. -/
def stringFrom (acc : Bytes) : Bytes → Option (Bytes × Bytes)
  | [] => none
  | 0x5C :: 0x75 :: a :: b :: c :: d :: rest =>
      if [a, b, c, d].all fun x => (Bytes.hexValue? x).isSome then
        stringFrom (d :: c :: b :: a :: 0x75 :: 0x5C :: acc) rest
      else none
  | 0x5C :: e :: rest =>
      if isShortEscape e then stringFrom (e :: 0x5C :: acc) rest else none
  | b :: rest =>
      if b = 0x22 then some (acc.reverse, rest)
      else if b < 0x20 || b = 0x5C then none
      else stringFrom (b :: acc) rest

/-- Reads string contents up to the closing quote. -/
def string? (s : Bytes) : Option (Bytes × Bytes) :=
  stringFrom [] s

/-- Reads one or more digits. -/
def digits? (s : Bytes) : Option (Bytes × Bytes) :=
  match s.span Bytes.isDigit with
  | ([], _) => none
  | (digits, rest) => some (digits, rest)

/-- Reads the whole part of a number: a zero, or digits that do not start with one. -/
def whole? (s : Bytes) : Option (Bytes × Bytes) :=
  match s with
  | 0x30 :: rest => some ([0x30], rest)
  | _ => digits? s

/-- Reads a fraction if there is one. -/
def fraction? (s : Bytes) : Option (Bytes × Bytes) :=
  match s with
  | 0x2E :: rest => (digits? rest).map fun (digits, rest) => (0x2E :: digits, rest)
  | _ => some ([], s)

/-- Reads an exponent if there is one. -/
def exponentPart? (s : Bytes) : Option (Bytes × Bytes) :=
  match s with
  | e :: sign :: rest =>
      if e = 0x65 || e = 0x45 then
        if sign = 0x2B || sign = 0x2D then
          (digits? rest).map fun (digits, rest) => (e :: sign :: digits, rest)
        else (digits? (sign :: rest)).map fun (digits, rest) => (e :: digits, rest)
      else some ([], s)
  | [e] => if e = 0x65 || e = 0x45 then none else some ([], s)
  | [] => some ([], s)

/-- Reads the text of a number. -/
def number? (s : Bytes) : Option (Bytes × Bytes) := do
  let (sign, s) : Bytes × Bytes := match s with
    | 0x2D :: rest => ([0x2D], rest)
    | _ => ([], s)
  let (whole, s) ← whole? s
  let (fraction, s) ← fraction? s
  let (exponent, s) ← exponentPart? s
  return (sign ++ whole ++ fraction ++ exponent, s)

/-- Reads a value that is no container. -/
def scalar? (s : Bytes) : Option (Json × Bytes) :=
  match s with
  | 0x22 :: rest => (string? rest).map fun (raw, rest) => (.string raw, rest)
  | 0x6E :: rest => (Bytes.after? (utf8 "ull") rest).map fun rest => (.null, rest)
  | 0x74 :: rest => (Bytes.after? (utf8 "rue") rest).map fun rest => (.bool true, rest)
  | 0x66 :: rest => (Bytes.after? (utf8 "alse") rest).map fun rest => (.bool false, rest)
  | _ => (number? s).map fun (text, rest) => (.number text, rest)

/-- Reads the items of an array and its closing bracket, at most `bound` of them. -/
def itemsFrom {α : Type} (value : Bytes → Option (α × Bytes)) :
    (bound : Nat) → (acc : List α) → Bytes → Option (List α × Bytes)
  | 0, _, _ => none
  | bound + 1, acc, s =>
      match value s with
      | none => none
      | some (item, s) =>
          match skip s with
          | 0x2C :: s => itemsFrom value bound (item :: acc) s
          | 0x5D :: s => some ((item :: acc).reverse, s)
          | _ => none

/-- Reads an array after its opening bracket. -/
def items? {α : Type} (value : Bytes → Option (α × Bytes)) (bound : Nat) (s : Bytes) :
    Option (List α × Bytes) :=
  match skip s with
  | 0x5D :: s => some ([], s)
  | s => itemsFrom value bound [] s

/-- Reads a name, a colon and a value. -/
def member? {α : Type} (value : Bytes → Option (α × Bytes)) (s : Bytes) :
    Option ((Bytes × α) × Bytes) :=
  match skip s with
  | 0x22 :: s => do
      let (name, s) ← string? s
      match skip s with
      | 0x3A :: s =>
          let (item, s) ← value s
          return ((name, item), s)
      | _ => none
  | _ => none

/-- Reads the members of an object and its closing brace, at most `bound` of them. -/
def membersFrom {α : Type} (value : Bytes → Option (α × Bytes)) :
    (bound : Nat) → (acc : List (Bytes × α)) → Bytes → Option (List (Bytes × α) × Bytes)
  | 0, _, _ => none
  | bound + 1, acc, s =>
      match member? value s with
      | none => none
      | some (member, s) =>
          match skip s with
          | 0x2C :: s => membersFrom value bound (member :: acc) s
          | 0x7D :: s => some ((member :: acc).reverse, s)
          | _ => none

/-- Reads an object after its opening brace. -/
def members? {α : Type} (value : Bytes → Option (α × Bytes)) (bound : Nat) (s : Bytes) :
    Option (List (Bytes × α) × Bytes) :=
  match skip s with
  | 0x7D :: s => some ([], s)
  | s => membersFrom value bound [] s

/-- Reads a value whose containers nest at most `depth` deep and have at most `bound` parts
each. -/
def value? (bound : Nat) : (depth : Nat) → Bytes → Option (Json × Bytes)
  | 0, s => scalar? (skip s)
  | depth + 1, s =>
      match skip s with
      | 0x5B :: s =>
          (items? (value? bound depth) bound s).map fun (items, s) => (.array items, s)
      | 0x7B :: s =>
          (members? (value? bound depth) bound s).map fun (members, s) => (.object members, s)
      | s => scalar? s

/-- How deep containers may nest. -/
def maxDepth : Nat := 10000

/-- Gives the result of a reader that leaves nothing but white space. -/
def complete {α : Type} : Option (α × Bytes) → Option α
  | some (a, rest) => if skip rest = [] then some a else none
  | none => none

/-- Reads a whole text as one value. No container has more parts than the text has bytes. -/
def parse? (text : Bytes) : Option Json :=
  complete (value? text.length maxDepth text)

/-- Reads a value and gives the text it was read from, without the white space before it. -/
def source? (bound depth : Nat) (s : Bytes) : Option (Bytes × Bytes) :=
  let s := skip s
  (value? bound depth s).map fun (_, rest) => (s.take (s.length - rest.length), rest)

/-- Reads a whole text as one object and gives its members by the text of their values. -/
def sources? (text : Bytes) : Option (List (Bytes × Bytes)) :=
  match skip text with
  | 0x7B :: s => complete (members? (source? text.length (maxDepth - 1)) text.length s)
  | _ => none

/-- The value of four hexadecimal digits. -/
def hex4? (a b c d : UInt8) : Option Nat := do
  return (((← Bytes.hexValue? a) * 16 + (← Bytes.hexValue? b)) * 16 + (← Bytes.hexValue? c)) * 16
    + (← Bytes.hexValue? d)

/-- Whether `n` is the first half of a surrogate pair. -/
def isHighSurrogate (n : Nat) : Bool :=
  0xD800 ≤ n && n < 0xDC00

/-- Whether `n` is the second half of a surrogate pair. -/
def isLowSurrogate (n : Nat) : Bool :=
  0xDC00 ≤ n && n < 0xE000

/-- The character a UTF-16 code unit stands for alone: half a pair stands for U+FFFD. -/
def loneUnit (n : Nat) : Char :=
  if isHighSurrogate n || isLowSurrogate n then '\uFFFD' else Char.ofNat n

/-- The character of a pair of surrogates. -/
def pairUnit (high low : Nat) : Char :=
  Char.ofNat (0x10000 + (high - 0xD800) * 0x400 + (low - 0xDC00))

/-- The byte a short escape stands for. -/
def shortValue (b : UInt8) : UInt8 :=
  match b with
  | 0x62 => 0x08
  | 0x66 => 0x0C
  | 0x6E => 0x0A
  | 0x72 => 0x0D
  | 0x74 => 0x09
  | _ => b

/-- The number of a `\u` escape at the front of string contents, and what follows it. -/
def unit? : Bytes → Option (Nat × Bytes)
  | 0x5C :: 0x75 :: a :: b :: c :: d :: rest => (hex4? a b c d).map fun n => (n, rest)
  | _ => none

theorem length_of_unit? {s rest : Bytes} {n : Nat} (h : unit? s = some (n, rest)) :
    rest.length < s.length := by
  unfold unit? at h
  split at h
  · rw [Option.map_eq_some_iff] at h
    obtain ⟨_, _, h⟩ := h
    cases h
    simp only [List.length_cons]
    omega
  · simp at h

/-- The character at the front of string contents other than a `\u` escape, and what follows
it. -/
def single? : Bytes → Option (Char × Bytes)
  | [] => none
  | 0x5C :: e :: rest => some (Char.ofNat (shortValue e).toNat, rest)
  | b :: rest =>
      let (glyph, left) := Utf8.read b rest
      some (glyph.shown, left)

theorem length_of_single? {s rest : Bytes} {c : Char} (h : single? s = some (c, rest)) :
    rest.length < s.length := by
  unfold single? at h
  split at h
  · cases h
  · cases h
    simp only [List.length_cons]
    omega
  next b more _ =>
    cases h
    exact Nat.lt_succ_of_le (Utf8.length_read_le b more)

/-- The characters that string contents stand for, last first, after those in `acc`. -/
def unescapeFrom (acc : List Char) (s : Bytes) : List Char :=
  match _h : unit? s with
  | some (n, rest) =>
      match _h' : unit? rest with
      | some (low, rest') =>
          if isHighSurrogate n && isLowSurrogate low then
            unescapeFrom (pairUnit n low :: acc) rest'
          else unescapeFrom (loneUnit n :: acc) rest
      | none => unescapeFrom (loneUnit n :: acc) rest
  | none =>
      match _h' : single? s with
      | some (c, rest) => unescapeFrom (c :: acc) rest
      | none => acc
termination_by s.length
decreasing_by
  · have := length_of_unit? _h
    have := length_of_unit? _h'
    omega
  · exact length_of_unit? _h
  · exact length_of_unit? _h
  · exact length_of_single? _h'

/-- The text that string contents stand for. A stray byte and half a surrogate pair stand for
U+FFFD. -/
def unescape (raw : Bytes) : Bytes :=
  Utf8.ofChars (unescapeFrom [] raw).reverse

end DefinitionFiles.Json
