import DefinitionFiles.Log
import DefinitionFiles.Rpc.Message
import DefinitionFiles.Rpc.Reply
import DefinitionFiles.Server.Answer
import DefinitionFiles.Server.Params
import DefinitionFiles.Store

/-!
# The language server

The server follows the documents an editor has open. It handles one message after the other; every
opening and change of a document is read, recorded in the store and answered by publishing the
diagnostics. A session is the repeated step `advance`, which takes one frame off the stream.
-/

namespace DefinitionFiles

open Rpc

/-- The reasons that the editor is given when a text is refused. The reader of JSON words them, and
the server passes them on as they are. -/
structure Server.Wording where
  /-- Why the body of a frame is not a message. -/
  malformed (body : Bytes) : String := "the body is not a message"
  /-- Why the text of parameters does not fit a method. -/
  invalidParams (method params : Bytes) : String := "the parameters do not fit the method"

/-- The state of the server. -/
structure Server where
  settings : Settings
  /-- The version told to editors; an empty one is not told. -/
  version : Bytes := []
  wording : Server.Wording := {}
  /-- The open documents; no two have the same URI. -/
  documents : List Document := []
  store : Store := {}
  initialized : Bool := false
  /-- Whether the editor asked for the end of the session. -/
  stopping : Bool := false
  /-- The way to the editor. -/
  sink : Sink := {}
  /-- The log, newest entry first. -/
  log : List Log.Entry := []

namespace Server

/-- Why a request or a message is refused. -/
inductive Refusal where
  | malformed (reason : String := ({} : Wording).malformed [])
  | invalidParams (reason : String := ({} : Wording).invalidParams [] [])
  | notInitialized
  | stopping
  | unknownMethod (method : Bytes)
  deriving DecidableEq, Repr

/-- The code and wording of a refusal. -/
def Refusal.failure : Refusal → Failure
  | .malformed reason => ⟨-32700, utf8 reason⟩
  | .invalidParams reason => ⟨-32602, utf8 reason⟩
  | .notInitialized => ⟨-32002, utf8 "server not initialized"⟩
  | .stopping => ⟨-32600, utf8 "server is shutting down"⟩
  | .unknownMethod method => ⟨-32601, utf8 "method not found: " ++ method⟩

/-- Why a notification had no effect, or not its full effect. -/
inductive Mishap where
  | invalidParams (reason : String)
  | unopened (uri : Bytes)
  | reversed (uri : Bytes) (change : Change.Reversed)
  | unsent (cause : SendError)
  deriving DecidableEq, Repr

/-- The wording of a mishap. -/
def Mishap.message : Mishap → Bytes
  | .invalidParams reason => (Refusal.invalidParams reason).failure.text
  | .unopened uri => utf8 "change for unopened document " ++ uri
  | .reversed uri change => utf8 "apply change to " ++ uri ++ utf8 ": " ++ change.message
  | .unsent cause => cause.message

/-- Adds an entry to the log. -/
def note (s : Server) (level : Log.Level) (fields : List (String × Log.Value))
    (message : Bytes) : Server :=
  { s with log := (Log.entry level fields message).from "lsp" :: s.log }

/-- Sends a message to the editor. -/
def send (s : Server) (m : Outgoing) : Server × Option SendError :=
  let (sink, e?) := s.sink.send m
  ({ s with sink := sink }, e?)

/-- Sends what is to be shown for a document. -/
def publish (s : Server) (uri : Bytes) (version? : Option Int) (diagnostics : List Json) :
    Server × Option Mishap :=
  let params := publication uri version? diagnostics
  let (s, e?) := s.send (.notification (utf8 "textDocument/publishDiagnostics")
    (some (.json params)))
  (s, e?.map .unsent)

/-- The open document with the given URI. -/
def document? (s : Server) (uri : Bytes) : Option Document :=
  s.documents.find? fun d => d.uri = uri

/-- The server without the document with the given URI. -/
def close (s : Server) (uri : Bytes) : Server :=
  { s with documents := s.documents.filter fun d => d.uri != uri }

/-- The server with a document opened or replaced. -/
def put (s : Server) (d : Document) : Server :=
  { s with documents := d :: (s.close d.uri).documents }

/-- Reads a document, records what it defines and publishes its diagnostics. -/
def review (s : Server) (d : Document) : Server × Option Mishap :=
  let (definition, diagnostics) := Definition.parse s.settings.dialect d.uri d.text
  let s := { s with store := s.store.append definition }
  let s := s.note .debug [("uri", .text d.uri), ("category", .text definition.category.tag),
    ("sections", .int definition.sections.length), ("diagnostics", .int diagnostics.length)]
    (utf8 "parsed")
  s.publish d.uri (some d.version) (diagnostics.map (Diagnostic.toJson d.lineCount))

/-- Handles the opening of a document. -/
def opened (s : Server) (o : Opened) : Server × Option Mishap :=
  let d : Document := { uri := o.uri, version := o.version, text := o.text }
  (s.put d).review d

/-- Handles changes of a document. When a change is reversed, those before it stay in the text,
but the version stays and the document is not read again. -/
def changed (s : Server) (c : Changed) : Server × Option Mishap :=
  match s.document? c.uri with
  | none => (s, some (.unopened c.uri))
  | some d =>
      match d.apply c.changes.items with
      | (d, some e) => (s.put d, some (.reversed d.uri e))
      | (d, none) =>
          let d := { d with version := c.version }
          (s.put d).review d

/-- Handles the closing of a document: nothing is shown for it any more. -/
def closing (s : Server) (uri : Bytes) : Server × Option Mishap :=
  (s.close uri).publish uri none []

/-- Handles the parameters of a notification, if they can be read. -/
def withParams {α : Type} (s : Server) (m : Message) (update : Json.Update α) (start : α)
    (handle : Server → α → Server × Option Mishap) : Server × Option Mishap :=
  match params? update start m.params with
  | some a => handle s a
  | none => (s, some (.invalidParams (s.wording.invalidParams m.method m.params)))

/-- Handles a notification. Before the initialization nothing has an effect, and notifications of
other kinds never have one. -/
def notified (s : Server) (m : Message) : Server × Option Mishap :=
  if !s.initialized then (s, none)
  else if m.method = utf8 "textDocument/didOpen" then s.withParams m Opened.params {} opened
  else if m.method = utf8 "textDocument/didChange" then s.withParams m Changed.params {} changed
  else if m.method = utf8 "textDocument/didClose" then s.withParams m closed [] closing
  else (s, none)

/-- The completions at a place: the configured keywords in every open document. -/
def completions (s : Server) (p : Place) : Json :=
  match s.document? p.uri with
  | some _ => .array (s.settings.completions.map completionItem)
  | none => .array []

/-- Handles a request. -/
def requested (s : Server) (m : Message) : Server × Except Refusal Json :=
  if s.stopping then (s, .error .stopping)
  else if m.method = utf8 "initialize" then
    ({ s with initialized := true }.note .info [] (utf8 "initialized"),
      .ok (capabilities s.version))
  else if !s.initialized then (s, .error .notInitialized)
  else if m.method = utf8 "shutdown" then ({ s with stopping := true }, .ok .null)
  else if m.method = utf8 "textDocument/completion" then
    match params? Place.params {} m.params with
    | some place => (s, .ok (s.completions place))
    | none => (s, .error (.invalidParams (s.wording.invalidParams m.method m.params)))
  else (s, .error (.unknownMethod m.method))

/-- The identifier of a message as JSON. -/
def identifierOf (m : Message) : Json :=
  (Json.parse? m.id).getD .null

/-- Handles a message other than the one that ends the session. Only an answer that cannot be sent
is an error. -/
def dispatch (s : Server) (m : Message) : Server × Option SendError :=
  let s := s.note .debug [("method", .text m.method), ("notification", .flag m.isNotification)]
    (utf8 "message")
  if m.isNotification then
    match s.notified m with
    | (s, none) => (s, none)
    | (s, some e) =>
        (s.note .warn [("error", .text e.message), ("method", .text m.method)]
          (utf8 "notification failed"), none)
  else
    match s.requested m with
    | (s, .ok result) => s.send (.result (identifierOf m) (.json result))
    | (s, .error e) =>
        let s := s.note .warn [("method", .text m.method), ("code", .int e.failure.code)]
          e.failure.message
        s.send (.failure (identifierOf m) e.failure)

/-- How a session ended. -/
inductive Outcome where
  /-- The editor asked for the end and left. -/
  | finished
  | exitWithoutShutdown
  /-- The stream ended without a message that ends the session. -/
  | connectionClosed
  | unreadable (cause : FrameError)
  | unsent (cause : SendError)
  | cancelled
  deriving DecidableEq, Repr

/-- The wording of an outcome that is an error. -/
def Outcome.message? : Outcome → Option Bytes
  | .finished => none
  | .exitWithoutShutdown => some (utf8 "exit received before shutdown")
  | .connectionClosed => some (utf8 "connection closed")
  | .unreadable cause => some (utf8 "read: " ++ cause.message)
  | .unsent cause => some cause.message
  | .cancelled => some (utf8 "context canceled")

/-- How the session ends when no frame can be read. A stream that ends before a body counts as
closed as well. -/
def Outcome.ofFrameError : FrameError → Outcome
  | .ended | .bodyMissing => .connectionClosed
  | e => .unreadable e

/-- Handles the body of a frame; gives the outcome if the session ends here. -/
def handle (s : Server) (body : Bytes) : Server × Option Outcome :=
  match Message.parse? body with
  | none =>
      let f := (Refusal.malformed (s.wording.malformed body)).failure
      let s := s.note .warn [("error", .text f.text)] (utf8 "discarding malformed message")
      let (s, e?) := s.send (.failure .null f)
      (s, e?.map .unsent)
  | some m =>
      if m.method = utf8 "exit" then
        (s.note .info [("shutdown", .flag s.stopping)] (utf8 "exit"),
          some (if s.stopping then .finished else .exitWithoutShutdown))
      else
        let (s, e?) := s.dispatch m
        (s, e?.map .unsent)

/-- Takes one frame off the stream and handles it: the new state with the rest of the stream, or
with the outcome if the session ends here. -/
def advance (s : Server) (source : Source) : Server × Except Outcome Source :=
  match Frame.read source with
  | .error e => (s, .error (.ofFrameError e))
  | .ok (body, rest) =>
      match s.handle body with
      | (s, some outcome) => (s, .error outcome)
      | (s, none) => (s, .ok rest)

theorem length_of_advance {s next : Server} {source rest : Source}
    (h : s.advance source = (next, .ok rest)) : rest.bytes.length < source.bytes.length := by
  unfold advance at h
  split at h
  · simp at h
  · next hread =>
    split at h
    · simp at h
    · cases h
      exact Frame.length_of_read hread

/-- Serves a stream to its end. -/
def serve (s : Server) (source : Source) : Server × Outcome :=
  match _h : s.advance source with
  | (s, .error outcome) => (s, outcome)
  | (s, .ok rest) => serve s rest
termination_by source.bytes.length
decreasing_by exact length_of_advance _h

end Server

end DefinitionFiles
