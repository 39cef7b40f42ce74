import DefinitionFiles.Text.ClusterClass

/-!
# Clusters of characters

What a reader takes for one character can be written as several: a letter with marks, a Korean
syllable as its letters, a flag as two regional letters, a picture joined from pictures. Such a
cluster has a width of its own on a terminal.
-/

namespace DefinitionFiles.Cluster

/-- What the end of a cluster admits after it. -/
inductive Tail where
  | any
  | carriageReturn
  | control
  | leading
  /-- A vowel, or a syllable that ends with one. -/
  | vowel
  | trailing
  | prepend
  | pictograph
  /-- A pictograph and a joiner. -/
  | joined
  /-- One regional letter that has no partner yet. -/
  | regional
  deriving DecidableEq, Repr

/-- The end of a cluster that starts with a character of the given class. -/
def Tail.ofClass : ClusterClass → Tail
  | .carriageReturn => .carriageReturn
  | .lineFeed | .control => .control
  | .leading => .leading
  | .vowel | .openSyllable => .vowel
  | .trailing | .closedSyllable => .trailing
  | .prepend => .prepend
  | .pictograph => .pictograph
  | .regional => .regional
  | .other | .extend | .joiner | .spacingMark => .any

/-- The end of a cluster after a character of the given class, if that belongs to it. -/
def Tail.then? : Tail → ClusterClass → Option Tail
  | .carriageReturn, .lineFeed => some .control
  | .carriageReturn, _ | .control, _ => none
  | _, .carriageReturn | _, .lineFeed | _, .control => none
  | .leading, .leading => some .leading
  | .leading, .vowel | .leading, .openSyllable => some .vowel
  | .leading, .closedSyllable => some .trailing
  | .vowel, .vowel => some .vowel
  | .vowel, .trailing | .trailing, .trailing => some .trailing
  | .pictograph, .extend => some .pictograph
  | .pictograph, .joiner => some .joined
  | .joined, .pictograph => some .pictograph
  | _, .extend | _, .joiner | _, .spacingMark => some .any
  | .regional, .regional => some .any
  | .prepend, next => some (.ofClass next)
  | _, _ => none

/-- What a later character adds to the width of a cluster whose first character has the given
class: a selector decides how a pictograph is shown, and Korean letters and flags keep the width
of their first character. -/
def addWidth (first : ClusterClass) (width : Nat) (c : Char) : Nat :=
  match first with
  | .pictograph => if c = '\uFE0E' then 1 else if c = '\uFE0F' then 2 else width
  | .regional | .leading => width
  | _ => width + charWidth c

/-- Goes on with a cluster: its width, and how many characters it has. -/
def extend (first : ClusterClass) : (tail : Tail) → (width length : Nat) → List Char → Nat × Nat
  | _, width, length, [] => (width, length)
  | tail, width, length, c :: rest =>
      match tail.then? (clusterClass c) with
      | some tail => extend first tail (addWidth first width c) (length + 1) rest
      | none => (width, length)

/-- The width of the cluster at the front of a text, and how many characters it has. -/
def first : List Char → Nat × Nat
  | [] => (0, 0)
  | c :: rest =>
      extend (clusterClass c) (.ofClass (clusterClass c)) (charWidth c) 1 rest

end DefinitionFiles.Cluster
