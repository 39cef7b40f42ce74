import DefinitionFiles.Json.Update

/-!
# Incoming messages

A message is a JSON object with a method and, if it expects an answer, an identifier. Identifier
and parameters are kept as the text they were written in: the identifier goes back to the peer,
and what the parameters should look like depends on the method.
-/

namespace DefinitionFiles.Rpc

/-- A request or a notification. A part that was not given is empty. -/
structure Message where
  /-- The protocol version. -/
  version : Bytes := []
  /-- The text of the identifier. -/
  id : Bytes := []
  method : Bytes := []
  /-- The text of the parameters. -/
  params : Bytes := []
  deriving DecidableEq, Repr

namespace Message

/-- Whether a message expects no answer: it has no identifier, or a null one. -/
def isNotification (m : Message) : Bool :=
  m.id = [] || m.id = utf8 "null"

/-- Reads a string from its text over an old one. -/
def text? (source old : Bytes) : Option Bytes :=
  (Json.parse? source).bind fun j => Json.Update.text j old

/-- Takes one more member of the object, by its name and the text of its value. -/
def member (m : Message) (name source : Bytes) : Option Message :=
  if sameFolded name (utf8 "jsonrpc") then
    (text? source m.version).map fun version => { m with version := version }
  else if sameFolded name (utf8 "id") then some { m with id := source }
  else if sameFolded name (utf8 "method") then
    (text? source m.method).map fun method => { m with method := method }
  else if sameFolded name (utf8 "params") then some { m with params := source }
  else some m

/-- Takes members in order; of repeated ones the last counts. -/
def members (m : Message) : List (Bytes × Bytes) → Option Message
  | [] => some m
  | (name, source) :: rest => (m.member (Json.unescape name) source).bind (members · rest)

/-- Reads a message from the body of a frame. A null body is an empty message; any other body
that is no object, or has a member of the wrong type, is no message. -/
def parse? (body : Bytes) : Option Message :=
  match Json.sources? body with
  | some sources => members {} sources
  | none =>
      match Json.parse? body with
      | some .null => some {}
      | _ => none

end Message

end DefinitionFiles.Rpc
