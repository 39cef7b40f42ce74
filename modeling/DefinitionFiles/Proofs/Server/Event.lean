import DefinitionFiles.Server
import Mathlib.Data.List.Basic
import Mathlib.Data.List.Induction
import Mathlib.Data.List.Infix

/-!
# Events of a session

Openings, changes and closings are the only messages that touch the open documents and the store.
A document follows from the events of its URI alone. What a server sends is an answer, or a notice
of what is to be shown for a document.
-/

namespace DefinitionFiles.Server

open Rpc

/-- A notification about a document. -/
inductive Event where
  | opened (o : Opened)
  | changed (c : Changed)
  | closed (uri : Bytes)

namespace Event

/-- The document an event is about. -/
def uri : Event → Bytes
  | opened o => o.uri
  | changed c => c.uri
  | closed uri => uri

/-- The event that a notification reports, if its parameters can be read. -/
def ofMessage? (m : Message) : Option Event :=
  if m.method = utf8 "textDocument/didOpen" then (params? Opened.params {} m.params).map opened
  else if m.method = utf8 "textDocument/didChange" then
    (params? Changed.params {} m.params).map changed
  else if m.method = utf8 "textDocument/didClose" then
    (params? Server.closed [] m.params).map closed
  else none

/-- The event in the body of a frame. -/
def ofBody? (body : Bytes) : Option Event :=
  (Message.parse? body).bind fun m => if m.isNotification then ofMessage? m else none

/-- The document after one more event of its URI. -/
def next (d? : Option Document) : Event → Option Document
  | opened o => some { uri := o.uri, version := o.version, text := o.text }
  | changed c => d?.map fun d => { (d.apply c.changes.items).1 with version := c.version }
  | closed _ => none

/-- The document that events of one URI leave open. -/
def document? (events : List Event) : Option Document :=
  events.foldl next none

/-- Whether an event opens the document or closes it. -/
def opens? : Event → Option Bool
  | opened _ => some true
  | changed _ => none
  | closed _ => some false

/-- The documents that events of one URI leave open one after the other. -/
def readings (events : List Event) : List Document :=
  events.inits.filterMap document?

theorem document?_concat (events : List Event) (e : Event) :
    document? (events ++ [e]) = e.next (document? events) :=
  List.foldl_concat ..

/-- A document is open if it was opened after it was last closed. -/
theorem isSome_document?_iff (events : List Event) :
    (document? events).isSome ↔ (events.filterMap opens?).getLast? = some true := by
  induction events using List.reverseRecOn with
  | nil => simp [document?]
  | append_singleton events e ih =>
      rw [document?_concat, List.filterMap_append]
      cases e with
      | opened | closed => simp [next, opens?]
      | changed => simpa [next, opens?] using ih

theorem readings_concat (events : List Event) (e : Event) :
    readings (events ++ [e]) = readings events ++ (e.next (document? events)).toList := by
  simp only [readings, List.inits_append, List.filterMap_append]
  cases hnext : e.next (document? events) <;> simp [document?_concat, hnext]

/-- The open document is the one that was read last. -/
theorem getLast?_readings {events : List Event} {d : Document} (h : document? events = some d) :
    (readings events).getLast? = some d := by
  cases events using List.reverseRecOn with
  | nil => cases h
  | append_singleton events e =>
      rw [document?_concat] at h
      rw [readings_concat, h]
      exact List.getLast?_concat

end Event

/-! ## Open documents -/

theorem uri_of_document? {s : Server} {uri : Bytes} {d : Document}
    (h : s.document? uri = some d) : d.uri = uri := by
  simpa using List.find?_some h

theorem document?_close (s : Server) (u uri : Bytes) :
    (s.close u).document? uri = if u = uri then none else s.document? uri := by
  simp only [document?, close, List.find?_filter]
  split
  next h =>
    subst h
    exact List.find?_eq_none.mpr (by simp)
  next h =>
    congr 1
    funext d
    by_cases hd : d.uri = uri
    · simp [hd, Ne.symm h]
    · simp [hd]

theorem document?_put (s : Server) (d : Document) (uri : Bytes) :
    (s.put d).document? uri = if d.uri = uri then some d else s.document? uri := by
  have hcons : (s.put d).document? uri =
      if d.uri = uri then some d else (s.close d.uri).document? uri := by
    simp only [put, document?, List.find?_cons]
    by_cases h : d.uri = uri <;> simp [h]
  rw [hcons, document?_close]
  split <;> rfl

end DefinitionFiles.Server
