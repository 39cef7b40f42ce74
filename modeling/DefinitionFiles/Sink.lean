import DefinitionFiles.Text.Bytes

/-!
# Sinks

Output goes to a sink piece by piece. A sink that fails keeps what it took before, and takes
nothing afterwards.
-/

namespace DefinitionFiles

/-- A place output goes to. -/
structure Sink where
  /-- What was written, newest piece first. -/
  pieces : List Bytes := []
  /-- How many more pieces can be written; without a number there is no limit. -/
  capacity? : Option Nat := none
  /-- Why writing fails once the capacity is used up. -/
  reason : Bytes := []
  deriving DecidableEq, Repr

namespace Sink

/-- Everything written so far. -/
def output (s : Sink) : Bytes :=
  s.pieces.reverse.flatten

/-- Writes one piece, if the sink still takes it. -/
def write? (s : Sink) (piece : Bytes) : Option Sink :=
  match s.capacity? with
  | none => some { s with pieces := piece :: s.pieces }
  | some 0 => none
  | some (n + 1) => some { s with pieces := piece :: s.pieces, capacity? := some n }

/-- Writes pieces in order up to the first one that is not taken, and says whether all were. -/
def writeAll (s : Sink) : List Bytes → Sink × Bool
  | [] => (s, true)
  | piece :: rest =>
      match s.write? piece with
      | some s => s.writeAll rest
      | none => (s, false)

end Sink

end DefinitionFiles
