import DefinitionFiles.Yaml.Value

/-!
# Reading documents into data

Data is read over what is already there. No value leaves texts, numbers, flags and records as they
are and empties lists. A text takes any scalar as it is written. Aliases count as the nodes they
stand for, as long as a document does not consist of little else, and a mapping can take over the
entries of others.
-/

namespace DefinitionFiles.Yaml

/-! ## Visits -/

/-- How many nodes were visited. -/
structure Tally where
  visits : Nat := 0
  /-- How many of the visits were made through aliases. -/
  aliased : Nat := 0
  deriving DecidableEq, Repr

namespace Tally

/-- Whether too many visits were made through aliases. Of the visits to a small document 99 percent
may be, of those to a large one 10 percent, and in between the share falls with their number. -/
def isExcessive (t : Tally) : Bool :=
  100 < t.aliased && 1000 < t.visits &&
    if t.visits ≤ 400000 then 99 * t.visits < 100 * t.aliased
    else if 4000000 ≤ t.visits then t.visits < 10 * t.aliased
    else t.visits * (99 * 3600000 - 89 * (t.visits - 400000)) < 100 * 3600000 * t.aliased

end Tally

/-- Where reading stands. -/
structure Setting where
  /-- The nodes that aliases can stand for. -/
  anchored : List (Nat × Node)
  /-- A bound on how deep mappings can take over others. -/
  depth : Nat
  /-- Whether the place was reached through an alias. -/
  aliased : Bool := false

/-- Reads something from nodes. -/
abbrev Reading := ReaderT Setting (StateT Tally Option)

namespace Reading

/-- Counts a visit. -/
def visit : Reading Unit := do
  let aliased := (← read).aliased
  let t ← get
  let t : Tally :=
    { visits := t.visits + 1, aliased := if aliased then t.aliased + 1 else t.aliased }
  if t.isExcessive then failure else set t

/-- Visits a node, or the one that an alias stands for, and reads it. -/
def through {α : Type} (read : Node → Reading α) (n : Node) : Reading α := do
  visit
  match n with
  | .reference _ target =>
      match (← readThe Setting).anchored.lookup target with
      | none => failure
      | some n => withReader (fun s => { s with aliased := true }) do
          visit
          read n
  | n => read n

/-- The value of a scalar. -/
def value (s : Scalar) : Reading Value :=
  match s.value? with
  | some value => return value
  | none => failure

end Reading

/-! ## Data -/

/-- Reads a node over old data, or finds that there is no value; fails if the node has the wrong
type anywhere. -/
abbrev Update (α : Type) := Node → α → Reading (Option α)

namespace Update

open Reading

/-- Reads a scalar by its value. -/
def scalar {α : Type} (take : Scalar → Value → Option α) : Update α := fun n _ =>
  n |> through fun
    | .scalar s => do
        match ← value s with
        | .null => return none
        | v =>
            match take s v with
            | some a => return some a
            | none => failure
    | _ => failure

/-- Reads a text. -/
def text : Update Bytes :=
  scalar fun s v => match v with
    | .text t => some t
    | _ => some s.text

/-- Reads an integer of 64 bits. Of a number with a fraction the integer part is taken. -/
def int : Update Int :=
  scalar fun _ v => match v with
    | .integer n => if n < (1 <<< 63 : Nat) then some n else none
    | .real bits => FloatFormat.double.truncate? bits
    | _ => none

/-- Reads a flag. Some older words for flags count too. -/
def flag : Update Bool :=
  scalar fun _ v => match v with
    | .flag b => some b
    | .text t =>
        if isOneOf ["y", "Y", "yes", "on"] t then some true
        else if isOneOf ["n", "N", "no", "off"] t then some false
        else none
    | _ => none

/-- Reads a list; what is no value is no item. -/
def list {α : Type} (empty : α) (update : Update α) : Update (List α) := fun n _ =>
  n |> through fun
    | .sequence items => return some (← items.filterMapM fun item => update item empty)
    | .scalar s => do
        match ← value s with
        | .null => return some []
        | _ => failure
    | _ => failure

/-- Reads over one part of a structure. -/
def part {σ α : Type} (get : σ → α) (set : σ → α → σ) (update : Update α) : Update σ :=
  fun n s => return (← update n (get s)).map (set s)

/-! ## Mappings -/

/-- Whether a key is written twice. -/
def hasRepeats : List (Node × Node) → Bool
  | [] => false
  | (key, _) :: rest => rest.any (fun (other, _) => key.repeats other) || hasRepeats rest

/-- A record in the middle of reading. -/
structure Progress (σ : Type) where
  data : σ
  /-- The names of the fields that were read from this mapping. -/
  done : List Bytes := []
  /-- If entries are taken over, the names that are taken already. -/
  taken? : Option (List Bytes) := none

/-- Reads an entry by the reader for its key. Unknown keys are passed over, and so are keys without
value, names that are taken already, and entries of other mappings. No field can be read twice. -/
def entry {σ : Type} (readers : List (String × Update σ)) (p : Progress σ) :
    Node × Node → Reading (Progress σ)
  | (key, n) => do
      if key.isMerge then return p
      match ← text key [] with
      | none => return p
      | some name =>
          if p.taken?.any (·.contains name) then return p
          let p := { p with taken? := p.taken?.map (name :: ·) }
          match readers.find? fun (known, _) => utf8 known = name with
          | none => return p
          | some (_, update) =>
              if p.done.contains name then failure
              let data := (← update n p.data).getD p.data
              return { p with data := data, done := name :: p.done }

/-- The names of the keys of a mapping. -/
def names (entries : List (Node × Node)) : Reading (List Bytes) :=
  entries.filterMapM fun (key, _) => text key []

/-- What the entries of other mappings are taken from: a mapping, or several of them. -/
def sources : Node → List Node
  | .sequence items => items
  | n => [n]

/-- Reads the entries of a mapping, and then those it takes over from other mappings. If it is taken
over itself, the given names are taken already, and the names taken in the end are returned. -/
def fields {σ : Type} (readers : List (String × Update σ)) :
    (depth : Nat) → List (Node × Node) → (data : σ) → (taken? : Option (List Bytes)) →
      Reading (σ × Option (List Bytes))
  | 0, _, _, _ => failure
  | depth + 1, entries, data, taken? => do
      if hasRepeats entries then failure
      let p ← entries.foldlM (entry readers) { data := data, taken? := taken? }
      match entries.find? fun (key, _) => key.isMerge with
      | none => return (p.data, p.taken?)
      | some (_, n) =>
          let taken ← match p.taken? with
            | some taken => pure taken
            | none => names entries
          let (data, merged?) ← (sources n).foldlM (fun (data, taken?) source =>
            source |> through fun
              | .mapping others => fields readers depth others data taken?
              | _ => failure) (p.data, some taken)
          return (data, if taken?.isSome then merged? else none)

/-- Reads a mapping by readers for its known keys. -/
def record {σ : Type} (readers : List (String × Update σ)) : Update σ := fun n old =>
  n |> through fun
    | .mapping entries => do
        let (data, _) ← fields readers (← readThe Setting).depth entries old none
        return some data
    | .scalar s => do
        match ← value s with
        | .null => return none
        | _ => failure
    | _ => failure

end Update

/-- Reads a document over old data. -/
def Document.update? {α : Type} (d : Document) (update : Update α) (old : α) : Option α := do
  let reading : Reading (Option α) := do
    Reading.visit
    update d.root old
  let (new?, _) ← (reading.run { anchored := d.anchored, depth := d.depth }).run {}
  return new?.getD old

end DefinitionFiles.Yaml
