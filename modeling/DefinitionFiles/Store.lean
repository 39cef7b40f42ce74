import DefinitionFiles.Section

/-!
# Definition store

The store keeps what every document defined over time, newest last, and can be limited to the
newest few definitions of each document.
-/

namespace DefinitionFiles

/-- The history of definitions by document. -/
structure Store where
  /-- How many definitions of a document are kept; zero keeps all. -/
  limit : Nat := 0
  /-- The definitions of each document, oldest first. No document has an empty history. -/
  histories : List (Bytes × List Definition) := []
  deriving DecidableEq, Repr

namespace Store

/-- An empty store. A limit that is not positive keeps everything. -/
def withLimit (limit : Int) : Store :=
  { limit := limit.toNat }

/-- The newest `limit` elements of a history, or all of it when the limit is zero. -/
def newest (limit : Nat) (history : List Definition) : List Definition :=
  if limit = 0 then history else history.drop (history.length - limit)

/-- Every definition recorded for a document, oldest first. -/
def history (s : Store) (uri : Bytes) : List Definition :=
  (s.histories.lookup uri).getD []

/-- Replaces the history of a document. -/
def setHistory (uri : Bytes) (definitions : List Definition) :
    List (Bytes × List Definition) → List (Bytes × List Definition)
  | [] => [(uri, definitions)]
  | (u, ds) :: rest =>
      if u = uri then (u, definitions) :: rest else (u, ds) :: setHistory uri definitions rest

/-- Records the newest definition of a document. -/
def append (s : Store) (d : Definition) : Store :=
  { s with histories :=
      setHistory d.uri (newest s.limit (s.history d.uri ++ [d])) s.histories }

/-- The most recent definition of a document. -/
def latest? (s : Store) (uri : Bytes) : Option Definition :=
  (s.history uri).getLast?

/-- Drops the history of a document. -/
def forget (s : Store) (uri : Bytes) : Store :=
  { s with histories := s.histories.filter fun (u, _) => u != uri }

/-- The documents with at least one definition, in ascending order. -/
def uris (s : Store) : List Bytes :=
  Bytes.sort (s.histories.map Prod.fst)

/-- The number of documents with at least one definition. -/
def size (s : Store) : Nat :=
  s.histories.length

end Store

end DefinitionFiles
