import DefinitionFiles.Editor.Document
import DefinitionFiles.Json.Update

/-!
# Parameters of requests and notifications

Each kind of message has parameters of its own shape. Members that are not given keep their
starting value: an empty text, zero, no span, no changes.
-/

namespace DefinitionFiles.Server

open Json (Update)

/-- Reads the text of parameters over starting values. Parameters that were not given are no
JSON text and are refused. -/
def params? {α : Type} (update : Update α) (start : α) (source : Bytes) : Option α :=
  (Json.parse? source).bind fun j => update j start

/-- Reads a position. -/
def position : Update Position :=
  .record [
    ("line", .part Position.line (fun p n => { p with line := n }) (.int 64)),
    ("character", .part Position.character (fun p n => { p with character := n }) (.int 64))]

/-- Reads the span between two positions. -/
def span : Update Span :=
  .record [
    ("start", .part Span.start (fun s p => { s with start := p }) position),
    ("end", .part Span.stop (fun s p => { s with stop := p }) position)]

/-- Reads one change of a document. -/
def change : Update Change :=
  .record [
    ("range", .part Change.span? (fun c s => { c with span? := s }) (.optional {} span)),
    ("text", .part Change.text (fun c t => { c with text := t }) .text)]

/-- A document that was opened. -/
structure Opened where
  uri : Bytes := []
  language : Bytes := []
  version : Int := 0
  text : Bytes := []

/-- Reads the parameters of an opening. -/
def Opened.params : Update Opened :=
  .record [("textDocument", .record [
    ("uri", .part Opened.uri (fun o t => { o with uri := t }) .text),
    ("languageId", .part Opened.language (fun o t => { o with language := t }) .text),
    ("version", .part Opened.version (fun o n => { o with version := n }) (.int 32)),
    ("text", .part Opened.text (fun o t => { o with text := t }) .text)])]

/-- A document that was changed. -/
structure Changed where
  uri : Bytes := []
  version : Int := 0
  changes : Update.Slots Change := {}

/-- Reads the parameters of a change. -/
def Changed.params : Update Changed :=
  .record [
    ("textDocument", .record [
      ("uri", .part Changed.uri (fun c t => { c with uri := t }) .text),
      ("version", .part Changed.version (fun c n => { c with version := n }) (.int 32))]),
    ("contentChanges",
      .part Changed.changes (fun c l => { c with changes := l }) (.list {} change))]

/-- Reads the identifier of a document. -/
def identifier : Update Bytes :=
  .record [("uri", .text)]

/-- Reads the parameters of a closing. -/
def closed : Update Bytes :=
  .record [("textDocument", identifier)]

/-- A place at which completions are asked for. -/
structure Place where
  uri : Bytes := []
  position : Position := {}

/-- Reads the parameters of a request for completions. -/
def Place.params : Update Place :=
  .record [
    ("textDocument", .part Place.uri (fun p t => { p with uri := t }) identifier),
    ("position", .part Place.position (fun p q => { p with position := q }) Server.position)]

end DefinitionFiles.Server
