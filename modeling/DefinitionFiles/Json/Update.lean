import DefinitionFiles.Json.Reader
import DefinitionFiles.Numeral.Integer
import DefinitionFiles.Text.CaseFolding

/-!
# Reading values into data

Data is read from a JSON value over what is already there: members that are absent keep the old
value, `null` leaves everything as it is, and of repeated members each one is read over the
result of the one before it. Names match without regard to case, and unknown members are
passed over.
-/

namespace DefinitionFiles.Json

/-- Reads a value over old data; fails if the value has the wrong type anywhere. -/
abbrev Update (α : Type) := Json → α → Option α

namespace Update

/-- Reads a string. -/
def text : Update Bytes
  | .null, old => some old
  | .string raw, _ => some (unescape raw)
  | _, _ => none

/-- Reads a whole number, written without fraction and exponent, that fits the given number of
bits. -/
def int (bits : Nat) : Update Int
  | .null, old => some old
  | .number text, _ => (Numeral.signed bits Numeral.decimalNatural text).toOption
  | _, _ => none

/-- Reads over one part of a structure. -/
def part {σ α : Type} (get : σ → α) (set : σ → α → σ) (update : Update α) : Update σ :=
  fun j s => (update j (get s)).map (set s)

/-- Reads the members of an object, each by the reader for its name. -/
def members {σ : Type} (readers : List (Bytes × Update σ)) : List (Bytes × Json) → σ → Option σ
  | [], s => some s
  | (name, value) :: rest, s =>
      match readers.find? fun (known, _) => sameFolded known (unescape name) with
      | some (_, update) => (update value s).bind (members readers rest)
      | none => members readers rest s

/-- Reads an object by readers for its known members. -/
def record {σ : Type} (readers : List (String × Update σ)) : Update σ
  | .null, old => some old
  | .object ms, old => members (readers.map fun (name, update) => (utf8 name, update)) ms old
  | _, _ => none

/-- Reads a value that may be absent. `null` makes it absent. -/
def optional {α : Type} (empty : α) (update : Update α) : Update (Option α)
  | .null, _ => some none
  | j, old => (update j (old.getD empty)).map some

/-- A list with room behind its end. What once stood there is not forgotten: a list that grows
again reads its new items over it. -/
structure Slots (α : Type) where
  items : List α := []
  /-- What once stood behind the items. -/
  spare : List α := []

/-- Reads items, each over the old one at its place; the old ones behind them are kept. -/
def items {α : Type} (empty : α) (update : Update α) : List Json → List α → Option (List α)
  | [], olds => some olds
  | j :: js, olds => do
      let item ← update j (olds.headD empty)
      return item :: (← items empty update js olds.tail)

/-- Reads an array over an old one. `null` and an empty array leave nothing behind. -/
def list {α : Type} (empty : α) (update : Update α) : Update (Slots α)
  | .null, _ | .array [], _ => some {}
  | .array js, old => (items empty update js (old.items ++ old.spare)).map fun all =>
      { items := all.take js.length, spare := all.drop js.length }
  | _, _ => none

end Update

end DefinitionFiles.Json
