import DefinitionFiles.Uri

/-!
# Sections and definitions

A section is one `[header]` of a document with the entries of its block; a definition is what one
document holds.
-/

namespace DefinitionFiles

/-- One header of a document and the entries that belong to it. -/
@[ext]
structure Section where
  header : Bytes
  /-- The zero-based index of the header's line. -/
  line : Nat
  /-- The values by their keys, in an order without meaning. -/
  entries : List (Bytes × Bytes) := []
  /-- The keys in the order in which they first appeared. -/
  keys : List Bytes := entries.map Prod.fst
  /-- There are values for the keys and for nothing else. -/
  keys_perm : keys.Perm (entries.map Prod.fst) := by exact .refl _
  deriving DecidableEq, Repr

namespace Section

/-- Sets `key` to `value` in a list of entries: a known key keeps its place. -/
def setEntry (key value : Bytes) : List (Bytes × Bytes) → List (Bytes × Bytes)
  | [] => [(key, value)]
  | (k, v) :: rest => if k = key then (k, value) :: rest else (k, v) :: setEntry key value rest

theorem map_fst_setEntry (key value : Bytes) (entries : List (Bytes × Bytes)) :
    (setEntry key value entries).map Prod.fst =
      if (entries.lookup key).isSome then entries.map Prod.fst
      else entries.map Prod.fst ++ [key] := by
  induction entries with
  | nil => rfl
  | cons entry rest ih =>
      obtain ⟨k, v⟩ := entry
      by_cases h : k = key
      · simp [setEntry, h]
      · have hne : (key == k) = false := by simpa using Ne.symm h
        rw [setEntry, if_neg h, List.map_cons, ih, List.lookup_cons, hne]
        split <;> rfl

/-- Stores a value under a key. A repeated key takes the new value and keeps its place. -/
def set (s : Section) (key value : Bytes) : Section :=
  { s with
    entries := setEntry key value s.entries
    keys := if (s.entries.lookup key).isSome then s.keys else s.keys ++ [key]
    keys_perm := by
      rw [map_fst_setEntry]
      split
      · exact s.keys_perm
      · exact s.keys_perm.append_right [key] }

/-- The value stored for a key. -/
def get? (s : Section) (key : Bytes) : Option Bytes :=
  s.entries.lookup key

end Section

/-- What a document defines. -/
structure Definition where
  name : Bytes
  uri : Bytes
  category : Category
  sections : List Section
  deriving DecidableEq, Repr

/-- The first section with the given header. -/
def Definition.section? (d : Definition) (header : Bytes) : Option Section :=
  d.sections.find? fun s => s.header = header

end DefinitionFiles
