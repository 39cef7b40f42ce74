import DefinitionFiles.Json.Reader
import DefinitionFiles.Rpc.Frame
import DefinitionFiles.Sink

/-!
# Outgoing messages

What goes to a peer is an answer to one of its requests or a notification. Each is written as a
frame in two steps, header and body; a sink that fails keeps what it took before.
-/

namespace DefinitionFiles.Rpc

/-- Why a request is not answered as asked. -/
structure Failure where
  code : Int
  message : Bytes
  deriving DecidableEq, Repr

/-- A failure as a text of its own. -/
def Failure.text (f : Failure) : Bytes :=
  utf8 "jsonrpc error " ++ Bytes.signedDecimal f.code ++ utf8 ": " ++ f.message

/-- A value to be sent. -/
inductive Payload where
  | json (value : Json)
  /-- A value without a JSON form, by the name of its type. -/
  | foreign (type : Bytes)

/-- A message to a peer. -/
inductive Outgoing where
  /-- The result of the request with the given identifier. -/
  | result (id : Json) (result : Payload)
  /-- The failure of the request with the given identifier. -/
  | failure (id : Json) (failure : Failure)
  | notification (method : Bytes) (params? : Option Payload)

/-- Why a message could not be sent. -/
inductive SendError where
  | unencodableResult (type : Bytes)
  | unencodableParams (type : Bytes)
  | headerFailed (reason : Bytes)
  | bodyFailed (reason : Bytes)
  deriving DecidableEq, Repr

/-- The wording of the error. -/
def SendError.message : SendError → Bytes
  | .unencodableResult type => utf8 "marshal result: json: unsupported type: " ++ type
  | .unencodableParams type => utf8 "marshal: json: unsupported type: " ++ type
  | .headerFailed reason => utf8 "write header: " ++ reason
  | .bodyFailed reason => utf8 "write body: " ++ reason

namespace Outgoing

/-- The protocol version named in every message. -/
def version : String × Json :=
  ("jsonrpc", .text (utf8 "2.0"))

/-- The JSON form of a message. -/
def toJson : Outgoing → Except SendError Json
  | .result _ (.foreign type) => .error (.unencodableResult type)
  | .result id (.json value) => .ok (.record [version, ("id", id), ("result", value)])
  | .failure id f =>
      .ok (.record [version, ("id", id),
        ("error", .record [("code", .int f.code), ("message", .text f.message)])])
  | .notification _ (some (.foreign type)) => .error (.unencodableParams type)
  | .notification method (some (.json params)) =>
      .ok (.record [version, ("method", .text method), ("params", params)])
  | .notification method none => .ok (.record [version, ("method", .text method)])

end Outgoing

end DefinitionFiles.Rpc

namespace DefinitionFiles.Sink

open Rpc

/-- Writes the frame of a body: first the header, then the body. -/
def writeFrame (s : Sink) (body : Bytes) : Sink × Option SendError :=
  match s.write? (Frame.headerOf body) with
  | none => (s, some (.headerFailed s.reason))
  | some s =>
      match s.write? body with
      | none => (s, some (.bodyFailed s.reason))
      | some s => (s, none)

/-- Sends a message. -/
def send (s : Sink) (m : Outgoing) : Sink × Option SendError :=
  match m.toJson with
  | .error e => (s, some e)
  | .ok j => s.writeFrame j.render

end DefinitionFiles.Sink
