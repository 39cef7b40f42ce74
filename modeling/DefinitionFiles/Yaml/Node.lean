import DefinitionFiles.Yaml.Token

/-!
# Nodes of YAML documents

A document is a tree of scalars, sequences and mappings. An alias stands for a node elsewhere in the
document, possibly one that contains the alias, so nodes with a name are kept in a table.
-/

namespace DefinitionFiles.Yaml

/-- The start of the tags that YAML itself defines. -/
def standardTags : Bytes :=
  utf8 "tag:yaml.org,2002:"

/-- A tag with two exclamation marks in place of the start of standard tags. -/
def shortTag (tag : Bytes) : Bytes :=
  match Bytes.after? standardTags tag with
  | some rest => utf8 "!!" ++ rest
  | none => tag

/-- A scalar as it is written. -/
structure Scalar where
  /-- The short form of its tag. A single exclamation mark counts as none. -/
  tag? : Option Bytes := none
  /-- Whether it stands without quotes and in no block of lines. -/
  plain : Bool := true
  text : Bytes := []
  deriving DecidableEq, Repr

/-- A node of a document. -/
inductive Node where
  | scalar (s : Scalar)
  | sequence (items : List Node)
  | mapping (entries : List (Node × Node))
  /-- An alias for the node with the given number. -/
  | reference (name : Bytes) (target : Nat)

namespace Node

/-- The node where nothing is written. -/
def empty : Node :=
  .scalar {}

/-- Whether a node is a key that stands for the entries of other mappings. -/
def isMerge : Node → Bool
  | .scalar s => s.text = utf8 "<<" && (match s.tag? with
      | none => s.plain
      | some tag => tag = utf8 "!!merge")
  | _ => false

/-- Whether two keys of a mapping count as one. Scalars do if they are written alike, and so do
aliases. -/
def repeats : Node → Node → Bool
  | .scalar s, .scalar t => s.text = t.text
  | .sequence _, .sequence _ => true
  | .mapping _, .mapping _ => true
  | .reference name _, .reference other _ => name = other
  | _, _ => false

end Node

/-- A document. -/
structure Document where
  root : Node
  /-- The nodes that have a name, by number. -/
  anchored : List (Nat × Node)
  /-- A bound on how deep nodes are nested. -/
  depth : Nat

end DefinitionFiles.Yaml
