import DefinitionFiles.Proofs.Server.Event
import DefinitionFiles.Proofs.Store

/-!
# What handling a message does

A body reports an event, or it leaves the documents and the store alone. Either way at most one
message is sent. An event concerns the document of its URI only: it is read and recorded if the
event leaves it open.
-/

namespace DefinitionFiles.Server

open Rpc

/-! ## Messages sent -/

/-- A message that a server sends. -/
inductive Sent where
  /-- What is to be shown for a document, and the version it belongs to. -/
  | notice (uri : Bytes) (version? : Option Int) (diagnostics : List Json)
  /-- An answer to the editor's message. -/
  | answer (m : Outgoing)

namespace Sent

/-- The form in which a message is sent. -/
def message : Sent → Outgoing
  | notice uri version? diagnostics =>
      .notification (utf8 "textDocument/publishDiagnostics")
        (some (.json (publication uri version? diagnostics)))
  | answer m => m

/-- The document a notice is for. -/
def uri? : Sent → Option Bytes
  | notice uri _ _ => some uri
  | answer _ => none

/-- The notice of everything found in a document. -/
def ofDocument (settings : Settings) (d : Document) : Sent :=
  notice d.uri (some d.version)
    ((Definition.parse settings.dialect d.uri d.text).2.map (Diagnostic.toJson d.lineCount))

end Sent

/-- The sink after a message is sent, if there is one. -/
def Sent.deliver (sink : Sink) (sent? : Option Sent) : Sink :=
  sent?.elim sink fun m => (sink.send m.message).1

/-! ## Taking an event -/

/-- Takes an event. -/
def take (s : Server) : Event → Server × Option Mishap
  | .opened o => s.opened o
  | .changed c => s.changed c
  | .closed uri => s.closing uri

/-- The document that is read when an event is taken. -/
def reading? (s : Server) : Event → Option Document
  | .changed c => (s.document? c.uri).bind fun d =>
      match d.apply c.changes.items with
      | (d, none) => some { d with version := c.version }
      | (_, some _) => none
  | e => e.next none

/-- The notice sent when an event is taken. -/
def notice? (s : Server) : Event → Option Sent
  | .closed uri => some (.notice uri none [])
  | e => (s.reading? e).map (.ofDocument s.settings)

/-- Whether no change of an event is reversed. -/
def Applies (s : Server) (e : Event) : Prop :=
  ∀ c d, e = .changed c → s.document? c.uri = some d → (d.apply c.changes.items).2 = none

instance (s : Server) (e : Event) : Decidable (s.Applies e) :=
  match e with
  | .changed c =>
      decidable_of_iff (∀ d ∈ s.document? c.uri, (d.apply c.changes.items).2 = none)
        ⟨fun h _ d heq hd => by cases heq; exact h d hd, fun h d hd => h c d rfl hd⟩
  | .opened _ | .closed _ => .isTrue fun _ _ heq => by cases heq

/-- Unless a change is reversed, the document is read that the event leaves open. -/
theorem Applies.reading?_eq {s : Server} {e : Event} (h : s.Applies e) :
    s.reading? e = e.next (s.document? e.uri) := by
  cases e with
  | opened | closed => rfl
  | changed c =>
      simp only [reading?, Event.next, Event.uri]
      cases hd : s.document? c.uri with
      | none => rfl
      | some d =>
          have happly := h c d rfl hd
          cases hresult : d.apply c.changes.items with
          | mk d' reversed? =>
              rw [hresult] at happly
              subst happly
              simp [hresult]

theorem take_of_reading? {s : Server} {e : Event} {d : Document} (h : s.reading? e = some d) :
    s.take e = (s.put d).review d ∧ d.uri = e.uri := by
  cases e with
  | opened o =>
      cases h
      exact ⟨rfl, rfl⟩
  | closed uri => cases h
  | changed c =>
      obtain ⟨old, hold, hread⟩ := Option.bind_eq_some_iff.mp h
      rcases hresult : old.apply c.changes.items with ⟨new, _ | reversed⟩
      · rw [hresult] at hread
        cases hread
        refine ⟨by simp only [take, changed, hold, hresult], ?_⟩
        exact (congrArg (·.1.uri) hresult).symm.trans (uri_of_document? hold)
      · rw [hresult] at hread
        cases hread

/-- Taking an event records the document that is read and sends a notice. -/
theorem take_eq (s : Server) (e : Event) :
    ∃ documents log, (s.take e).1 = { s with
      documents := documents
      store := (s.reading? e).elim s.store fun d =>
        s.store.append (Definition.parse s.settings.dialect d.uri d.text).1
      sink := Sent.deliver s.sink (s.notice? e)
      log := log } := by
  cases e with
  | opened o => exact ⟨_, _, rfl⟩
  | closed uri => exact ⟨_, _, rfl⟩
  | changed c =>
      simp only [notice?]
      cases hread : s.reading? (.changed c) with
      | some d => exact ⟨_, _, by rw [(take_of_reading? hread).1]; rfl⟩
      | none =>
          simp only [take, changed]
          cases hd : s.document? c.uri with
          | none => exact ⟨_, _, rfl⟩
          | some d =>
              rcases hresult : d.apply c.changes.items with ⟨new, _ | reversed⟩
              · simp [reading?, hd, hresult] at hread
              · exact ⟨_, _, by simp only [hresult]; rfl⟩

theorem settings_take (s : Server) (e : Event) : (s.take e).1.settings = s.settings := by
  obtain ⟨documents, log, htake⟩ := take_eq s e
  rw [htake]

theorem limit_take (s : Server) (e : Event) : (s.take e).1.store.limit = s.store.limit := by
  obtain ⟨documents, log, htake⟩ := take_eq s e
  rw [htake]
  cases s.reading? e <;> rfl

/-- Taking an event adds what is read to the history of its URI. -/
theorem history_take (s : Server) (e : Event) (uri : Bytes) :
    (s.take e).1.store.history uri =
      if e.uri = uri then (s.reading? e).elim (s.store.history uri) fun d =>
        Store.newest s.store.limit (s.store.history uri ++
          [(Definition.parse s.settings.dialect uri d.text).1])
      else s.store.history uri := by
  obtain ⟨documents, log, htake⟩ := take_eq s e
  rw [htake]
  cases hread : s.reading? e with
  | none => simp
  | some d =>
      have hparse : (Definition.parse s.settings.dialect d.uri d.text).1.uri = e.uri :=
        (take_of_reading? hread).2
      simp only [Option.elim_some, Store.history_append, hparse]
      split
      next huri => rw [(take_of_reading? hread).2, huri]
      next => rfl

/-- Taking an event concerns the document of its URI only. -/
theorem Applies.document?_take {s : Server} {e : Event} (h : s.Applies e) (uri : Bytes) :
    (s.take e).1.document? uri =
      if e.uri = uri then e.next (s.document? e.uri) else s.document? uri := by
  cases hread : s.reading? e with
  | some d =>
      obtain ⟨htake, huri⟩ := take_of_reading? hread
      rw [htake, ← h.reading?_eq, hread, ← huri]
      exact document?_put s d uri
  | none =>
      cases e with
      | opened o => cases hread
      | closed u => exact document?_close s u uri
      | changed c =>
          rw [h.reading?_eq] at hread
          have hclosed : s.document? c.uri = none := Option.map_eq_none_iff.mp hread
          have htake : (s.take (.changed c)).1 = s := by simp only [take, changed, hclosed]
          rw [htake, hread]
          split
          next huri => exact huri ▸ hclosed
          next => rfl

/-! ## Handling a message -/

/-- The event in a body, if the server takes notice of it. -/
def event? (s : Server) (body : Bytes) : Option Event :=
  if s.initialized then Event.ofBody? body else none

/-- Whether a body asks for the initialization. -/
def isInitialize (body : Bytes) : Bool :=
  match Message.parse? body with
  | some m => !m.isNotification && m.method = utf8 "initialize"
  | none => false

/-- Whether a body asks for the end of the session. -/
def isShutdown (body : Bytes) : Bool :=
  match Message.parse? body with
  | some m => !m.isNotification && m.method = utf8 "shutdown"
  | none => false

/-- The answer to a request. -/
def reply (s : Server) (m : Message) : Outgoing :=
  match (s.requested m).2 with
  | .ok result => .result (identifierOf m) (.json result)
  | .error e => .failure (identifierOf m) e.failure

/-- The answer to a body. -/
def answer? (s : Server) (body : Bytes) : Option Sent :=
  match Message.parse? body with
  | none => some (.answer (.failure .null (Refusal.malformed (s.wording.malformed body)).failure))
  | some m =>
      if m.method = utf8 "exit" || m.isNotification then none else some (.answer (s.reply m))

/-- The message that is sent when a body is handled. -/
def sending? (s : Server) (body : Bytes) : Option Sent :=
  match s.event? body with
  | some e => s.notice? e
  | none => s.answer? body

theorem withParams_map {α : Type} (s : Server) (m : Message) (update : Json.Update α) (start : α)
    (handle : Server → α → Server × Option Mishap) (event : α → Event)
    (h : ∀ a, handle s a = s.take (event a)) :
    (s.withParams m update start handle).1 =
      ((params? update start m.params).map event).elim s fun e => (s.take e).1 := by
  unfold withParams
  cases params? update start m.params with
  | none => rfl
  | some a => simp [h]

/-- A notification has the effect of the event that it reports, once the server is initialized. -/
theorem notified_eq (s : Server) (m : Message) :
    (s.notified m).1 =
      (if s.initialized then Event.ofMessage? m else none).elim s fun e => (s.take e).1 := by
  unfold notified
  cases s.initialized with
  | false => rfl
  | true =>
      simp only [Bool.not_true, Bool.false_eq_true, if_false, if_true]
      unfold Event.ofMessage?
      split
      next => exact withParams_map s m _ _ _ _ fun _ => rfl
      next =>
        split
        next => exact withParams_map s m _ _ _ _ fun _ => rfl
        next =>
          split
          next => exact withParams_map s m _ _ _ _ fun _ => rfl
          next => rfl

theorem eq_with_flags {s : Server} {initialized stopping : Bool}
    (hinitialized : initialized = s.initialized) (hstopping : stopping = s.stopping) :
    s = { s with initialized := initialized, stopping := stopping, log := s.log } := by
  rw [hinitialized, hstopping]

/-- A request changes the flags at most: the first `initialize` and the first `shutdown` after it
count. -/
theorem requested_eq (s : Server) (m : Message) :
    ∃ log, (s.requested m).1 = { s with
      initialized := s.initialized || (!s.stopping && m.method = utf8 "initialize")
      stopping := s.stopping || (s.initialized && m.method = utf8 "shutdown")
      log := log } := by
  unfold requested
  split
  next hstopping => exact ⟨s.log, eq_with_flags (by simp [hstopping]) (by simp [hstopping])⟩
  next hrunning =>
    split
    next hmethod =>
      have hother : m.method ≠ utf8 "shutdown" := by
        rw [hmethod]
        decide
      have hinitialized :
          (s.initialized || (!s.stopping && m.method = utf8 "initialize")) = true := by
        simp [hmethod, hrunning]
      have hstopping :
          (s.stopping || (s.initialized && m.method = utf8 "shutdown")) = s.stopping := by
        simp [hother]
      rw [hinitialized, hstopping]
      exact ⟨_, rfl⟩
    next hmethod =>
      split
      next hinit => exact ⟨s.log, eq_with_flags (by simp [hmethod]) (by simp_all)⟩
      next hinit =>
        split
        next hshutdown =>
          refine ⟨s.log, ?_⟩
          simp_all
        next hshutdown =>
          refine ⟨s.log, ?_⟩
          split
          next => split <;> exact eq_with_flags (by simp [hmethod]) (by simp [hshutdown])
          next => exact eq_with_flags (by simp [hmethod]) (by simp [hshutdown])

/-- What is asked of a server does not depend on its log. -/
theorem requested_log (s : Server) (log : List Log.Entry) (m : Message) :
    ({ s with log := log }.requested m).2 = (s.requested m).2 := by
  unfold requested
  repeat' split
  all_goals rfl

theorem dispatch_of_notification {m : Message} (hm : m.isNotification = true) (s : Server) :
    ∃ log log', (s.dispatch m).1 = { ({ s with log := log }.notified m).1 with log := log' } := by
  unfold dispatch note
  simp only [hm, if_true]
  split
  next t hnotified => exact ⟨_, t.log, by rw [hnotified]⟩
  next t e hnotified => exact ⟨_, _, by rw [hnotified]⟩

theorem dispatch_of_request {m : Message} (hm : m.isNotification = false) (s : Server) :
    ∃ log, (s.dispatch m).1 = { s with
      initialized := s.initialized || (!s.stopping && m.method = utf8 "initialize")
      stopping := s.stopping || (s.initialized && m.method = utf8 "shutdown")
      sink := (s.sink.send (s.reply m)).1
      log := log } := by
  unfold dispatch
  simp only [hm, Bool.false_eq_true, if_false]
  generalize hnoted : s.note _ _ _ = noted
  obtain ⟨log, hstate⟩ := requested_eq noted m
  have hresult : (noted.requested m).2 = (s.requested m).2 := by
    rw [← hnoted]
    exact requested_log s _ m
  rcases hrequested : noted.requested m with ⟨t, result⟩
  rw [hrequested] at hstate hresult
  subst hnoted hstate
  cases result with
  | ok result => exact ⟨log, by simp only [reply, ← hresult]; rfl⟩
  | error refusal => exact ⟨_, by simp only [reply, ← hresult]; rfl⟩

theorem event?_of_notification {body : Bytes} {m : Message}
    (hparse : Message.parse? body = some m) (hm : m.isNotification = true) (s : Server) :
    s.event? body = if s.initialized then Event.ofMessage? m else none := by
  simp [event?, Event.ofBody?, hparse, hm]

theorem event?_of_request {body : Bytes} {m : Message}
    (hparse : Message.parse? body = some m) (hm : m.isNotification = false) (s : Server) :
    s.event? body = none := by
  simp [event?, Event.ofBody?, hparse, hm]

theorem exists_notification_of_event? {s : Server} {body : Bytes} {e : Event}
    (h : s.event? body = some e) :
    ∃ m, Message.parse? body = some m ∧ m.isNotification = true := by
  cases hparse : Message.parse? body with
  | none => simp [event?, Event.ofBody?, hparse] at h
  | some m =>
      refine ⟨m, rfl, ?_⟩
      by_contra hm
      rw [event?_of_request hparse (by simpa using hm)] at h
      cases h

theorem Event.ofMessage?_exit {m : Message} (h : m.method = utf8 "exit") :
    Event.ofMessage? m = none := by
  unfold Event.ofMessage?
  rw [h, if_neg (by decide), if_neg (by decide), if_neg (by decide)]

theorem handle_of_parse {body : Bytes} {m : Message} (hparse : Message.parse? body = some m)
    (hexit : m.method ≠ utf8 "exit") (s : Server) : (s.handle body).1 = (s.dispatch m).1 := by
  simp [handle, hparse, hexit]

/-- A body has the effect of the event that it reports, apart from the log. -/
theorem handle_of_event {s : Server} {body : Bytes} {e : Event} (h : s.event? body = some e) :
    ∃ log log', (s.handle body).1 = { ({ s with log := log }.take e).1 with log := log' } := by
  obtain ⟨m, hparse, hm⟩ := exists_notification_of_event? h
  rw [event?_of_notification hparse hm] at h
  have hexit : m.method ≠ utf8 "exit" := by
    intro hexit
    simp [Event.ofMessage?_exit hexit] at h
  obtain ⟨log, log', hdispatch⟩ := dispatch_of_notification hm s
  refine ⟨log, log', ?_⟩
  rw [handle_of_parse hparse hexit, hdispatch, notified_eq]
  simp only [h, Option.elim_some]

/-- Without an event a body changes the flags at most, and is answered. -/
theorem handle_of_no_event {s : Server} {body : Bytes} (h : s.event? body = none) :
    ∃ log, (s.handle body).1 = { s with
      initialized := s.initialized || (!s.stopping && isInitialize body)
      stopping := s.stopping || (s.initialized && isShutdown body)
      sink := Sent.deliver s.sink (s.answer? body)
      log := log } := by
  cases hparse : Message.parse? body with
  | none =>
      have hinit : isInitialize body = false := by simp [isInitialize, hparse]
      have hshutdown : isShutdown body = false := by simp [isShutdown, hparse]
      refine ⟨(s.handle body).1.log, ?_⟩
      simp only [handle, hinit, hshutdown, answer?, hparse, Bool.and_false, Bool.or_false]
      rfl
  | some m =>
      -- Neither the end of the session nor a notification is answered.
      by_cases hexit : m.method = utf8 "exit"
      · have hinit : isInitialize body = false := by
          simp only [isInitialize, hparse, hexit, Bool.and_eq_false_imp]
          exact fun _ => by decide
        have hshutdown : isShutdown body = false := by
          simp only [isShutdown, hparse, hexit, Bool.and_eq_false_imp]
          exact fun _ => by decide
        refine ⟨(s.handle body).1.log, ?_⟩
        simp [handle, hinit, hshutdown, answer?, hparse, hexit, note, Sent.deliver]
      · rw [handle_of_parse hparse hexit]
        cases hm : m.isNotification with
        | false =>
            obtain ⟨log, hdispatch⟩ := dispatch_of_request hm s
            refine ⟨log, ?_⟩
            rw [hdispatch]
            simp [isInitialize, isShutdown, answer?, hparse, hm, hexit, Sent.deliver, Sent.message]
        | true =>
            obtain ⟨log, log', hdispatch⟩ := dispatch_of_notification hm s
            rw [event?_of_notification hparse hm] at h
            refine ⟨log', ?_⟩
            rw [hdispatch, notified_eq]
            simp [h, isInitialize, isShutdown, answer?, hparse, hm, Sent.deliver]

/-- Handling a body sends one message at most. -/
theorem sink_handle (s : Server) (body : Bytes) :
    (s.handle body).1.sink = Sent.deliver s.sink (s.sending? body) := by
  unfold sending?
  cases hevent : s.event? body with
  | none =>
      obtain ⟨log, hstate⟩ := handle_of_no_event hevent
      rw [hstate]
  | some e =>
      obtain ⟨log, log', hstate⟩ := handle_of_event hevent
      obtain ⟨documents, log'', htake⟩ := take_eq { s with log := log } e
      rw [hstate, htake]
      cases e <;> rfl

/-- A server is initialized by the first request for it, and stopped by the first request for that
once it is initialized. -/
theorem flags_handle {s : Server} (horder : s.stopping = true → s.initialized = true)
    (body : Bytes) :
    (s.handle body).1.initialized = (s.initialized || isInitialize body) ∧
      (s.handle body).1.stopping = (s.stopping || (s.initialized && isShutdown body)) := by
  cases hevent : s.event? body with
  | none =>
      obtain ⟨log, hstate⟩ := handle_of_no_event hevent
      rw [hstate]
      refine ⟨?_, rfl⟩
      -- A server that is stopping refuses the request, but it is initialized already.
      cases hinit : s.initialized with
      | true => simp
      | false =>
          have hrunning : s.stopping = false := by simpa [hinit] using horder
          simp [hrunning]
  | some e =>
      obtain ⟨log, log', hstate⟩ := handle_of_event hevent
      obtain ⟨documents, log'', htake⟩ := take_eq { s with log := log } e
      have hinit : s.initialized = true := by
        by_contra h
        simp [event?, h] at hevent
      have hshutdown : isShutdown body = false := by
        obtain ⟨m, hparse, hm⟩ := exists_notification_of_event? hevent
        simp [isShutdown, hparse, hm]
      rw [hstate, htake]
      simp [hinit, hshutdown]

/-- A server is initialized by the first request for it, and stops only after that. -/
theorem initialized_handle {s : Server} (horder : s.stopping = true → s.initialized = true)
    (body : Bytes) :
    (s.handle body).1.initialized = (s.initialized || isInitialize body) ∧
      ((s.handle body).1.stopping = true → (s.handle body).1.initialized = true) := by
  obtain ⟨hinitialized, hstopping⟩ := flags_handle horder body
  refine ⟨hinitialized, ?_⟩
  rw [hinitialized, hstopping]
  cases hinit : s.initialized with
  | true => simp
  | false =>
      have hrunning : s.stopping = false := by simpa [hinit] using horder
      simp [hrunning]

end DefinitionFiles.Server
