import DefinitionFiles.Text.Utf8

/-!
# Blank characters and trimming

Trimming removes the characters with the Unicode property White_Space from both ends of a byte
text. It looks at whole encoded characters: a stray byte is never blank, whatever its value.
-/

namespace DefinitionFiles

/-- The characters with the property White_Space. -/
def blanks : List Char :=
  ['\t', '\n', '\u000B', '\u000C', '\r', ' ', '\u0085', '\u00A0', '\u1680',
    '\u2000', '\u2001', '\u2002', '\u2003', '\u2004', '\u2005', '\u2006', '\u2007', '\u2008',
    '\u2009', '\u200A', '\u2028', '\u2029', '\u202F', '\u205F', '\u3000']

/-- The encodings of the blank characters. -/
def blankWords : List Bytes :=
  blanks.map Utf8.encode

/-- The encodings of the blank characters, last byte first. -/
def reversedBlankWords : List Bytes :=
  blankWords.map List.reverse

namespace Bytes

/-- What follows the first of `words` that `b :: rest` starts with, if there is one. -/
def dropWord? (words : List Bytes) (b : UInt8) (rest : Bytes) : Option Bytes :=
  words.findSome? fun
    | [] => none
    | w :: word => if w = b then after? word rest else none

theorem length_of_dropWord? {words : List Bytes} {b : UInt8} {rest left : Bytes}
    (h : dropWord? words b rest = some left) : left.length ≤ rest.length := by
  obtain ⟨word, -, hword⟩ := List.exists_of_findSome?_eq_some h
  split at hword
  · simp at hword
  · split at hword
    · exact length_of_after? hword
    · simp at hword

/-- `s` without the longest run of `words` at its front. -/
def dropWords (words : List Bytes) : Bytes → Bytes
  | [] => []
  | b :: rest =>
      match _h : dropWord? words b rest with
      | some left => dropWords words left
      | none => b :: rest
termination_by s => s.length
decreasing_by
  have := length_of_dropWord? _h
  simp only [List.length_cons]
  omega

/-- `s` without its leading blank characters. -/
def trimStart (s : Bytes) : Bytes :=
  dropWords blankWords s

/-- `s` without its trailing blank characters. -/
def trimEnd (s : Bytes) : Bytes :=
  (dropWords reversedBlankWords s.reverse).reverse

/-- `s` without its leading and trailing blank characters. -/
def trim (s : Bytes) : Bytes :=
  trimEnd (trimStart s)

end Bytes

end DefinitionFiles
