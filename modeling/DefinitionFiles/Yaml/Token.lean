import DefinitionFiles.Text.Bytes

/-!
# Tokens of YAML text

Tokens are the words of YAML text. Those that open and close block collections stand for
indentation, and those that announce keys stand for what only a later colon tells.
-/

namespace DefinitionFiles.Yaml

/-- A token of YAML text. -/
inductive Token where
  | streamEnd
  /-- A directive with the version of YAML. -/
  | version (major minor : Nat)
  /-- A directive that lets a handle stand for the start of tags. -/
  | handle (name start : Bytes)
  | documentStart
  | documentEnd
  | blockSequence
  | blockMapping
  | blockEnd
  | flowSequence
  | flowSequenceEnd
  | flowMapping
  | flowMappingEnd
  /-- The dash before an item of a block sequence. -/
  | entry
  | comma
  | key
  | value
  | reference (name : Bytes)
  | anchor (name : Bytes)
  | tag (handle rest : Bytes)
  | scalar (text : Bytes) (plain : Bool)
  deriving DecidableEq, Repr

/-- Whether a token is a directive. -/
def Token.isDirective : Token → Bool
  | .version _ _ | .handle _ _ => true
  | _ => false

end DefinitionFiles.Yaml
