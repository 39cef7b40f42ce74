import DefinitionFiles.Proofs.Rpc.Message
import DefinitionFiles.Proofs.Server.Service
import Mathlib.Data.List.Forall2
import Mathlib.Logic.Basic

/-!
# Responses

A server that can write answers every request and every body that is no message, one by one and in
order, and leaves other bodies unanswered. Apart from the answers it writes one notice for each
opening, change and closing that it accepts. Everything that a body calls for is written before the
next one is taken up.
-/

namespace DefinitionFiles

/-- The value of the first member of an object under a name. -/
def Json.field? (name : String) : Json → Option Json
  | .object members => members.lookup (utf8 name)
  | _ => none

/-- The bytes of a value on its way to a peer. -/
def Rpc.Frame.ofJson (j : Json) : Bytes :=
  headerOf j.render ++ j.render

namespace Server

open Rpc

/-- Whether a body is a request. -/
def isRequest (body : Bytes) : Bool :=
  (Message.parse? body).any fun m => !m.isNotification

/-- Whether a body is to be answered: it is no message, or it is a request. -/
def expectsAnswer (body : Bytes) : Bool :=
  (Message.parse? body).all fun m => !m.isNotification

/-- Whether a message to the editor is a response. -/
def isResponse (message : Json) : Bool :=
  (message.field? "id").isSome

/-- The code of the error in a response. -/
def errorCode? (response : Json) : Option Json :=
  (response.field? "error").bind (Json.field? "code")

/-! ## What a body calls for -/

/-- A response to a body. -/
structure Answers (body : Bytes) (response : Json) : Prop where
  /-- There is a result or an error, but not both. -/
  exclusive : Xor ((response.field? "result").isSome = true)
    ((response.field? "error").isSome = true)
  /-- A body that is no message has no identifier, and its error says what it is. -/
  malformed : Message.parse? body = none →
    response.field? "id" = some .null ∧ errorCode? response = some (.int (-32700))
  /-- A request is answered under its own identifier. -/
  identified : ∀ m, Message.parse? body = some m →
    ∃ id, Json.parse? m.id = some id ∧ id ≠ .null ∧ response.field? "id" = some id

/-- Whether a server accepts the event in a body: it is initialized, and what is changed is open
and no change of it is reversed. -/
structure Accepts (s : Server) (body : Bytes) (e : Event) : Prop where
  initialized : s.initialized = true
  reported : Event.ofBody? body = some e
  applies : ∀ c, e = .changed c →
    ∃ d, s.document? c.uri = some d ∧ (d.apply c.changes.items).2 = none

/-- A message that tells what is to be shown for the document of an event. -/
structure Publishes (e : Event) (message : Json) : Prop where
  unidentified : message.field? "id" = none
  method : message.field? "method" = some (.text (utf8 "textDocument/publishDiagnostics"))
  document : (message.field? "params").bind (Json.field? "uri") = some (.text e.uri)

/-- The messages that a body calls for. -/
inductive Exchange (s : Server) (body : Bytes) : (messages : List Json) → Prop where
  | answer {response : Json} (hexpects : expectsAnswer body = true)
      (hanswers : Answers body response) : Exchange s body [response]
  | notice {e : Event} {message : Json} (haccepts : s.Accepts body e)
      (hpublishes : Publishes e message) : Exchange s body [message]
  | silence (hexpects : expectsAnswer body = false) (haccepts : ∀ e, ¬ s.Accepts body e) :
      Exchange s body []

/-- The messages that are written for bodies handled in order, body by body. -/
inductive Conversation : Server → List Bytes → (written : List (List Json)) → Prop where
  | nil {s : Server} : Conversation s [] []
  | cons {s : Server} {body : Bytes} {bodies : List Bytes} {messages : List Json}
      {later : List (List Json)} (hexchange : s.Exchange body messages)
      (houtput : (s.handle body).1.sink.output =
        s.sink.output ++ messages.flatMap Frame.ofJson)
      (hlater : Conversation (s.handle body).1 bodies later) :
      Conversation s (body :: bodies) (messages :: later)

/-! ## Answers -/

theorem Sent.frame_of_toJson {m : Sent} {j : Json} (h : m.message.toJson = .ok j) :
    m.frame = Frame.ofJson j := by
  rw [Sent.frame, h]
  rfl

theorem isResponse_of_answers {body : Bytes} {response : Json} (h : Answers body response) :
    isResponse response = true := by
  unfold isResponse
  cases hparse : Message.parse? body with
  | none => simp [(h.malformed hparse).1]
  | some m =>
      obtain ⟨id, -, -, hid⟩ := h.identified m hparse
      simp [hid]

theorem answers_malformed {body : Bytes} (hparse : Message.parse? body = none) (reason : String) :
    ∃ response, (Outgoing.failure .null (Refusal.malformed reason).failure).toJson = .ok response ∧
      Answers body response := by
  refine ⟨_, rfl, .inr ⟨rfl, Bool.false_ne_true⟩, fun _ => ⟨rfl, rfl⟩, ?_⟩
  intro m hm
  cases hparse.symm.trans hm

/-- The answer to a request has its identifier, and a refusal has its code. -/
theorem answers_reply {body : Bytes} {m : Message} (hparse : Message.parse? body = some m)
    (hm : m.isNotification = false) (s : Server) :
    ∃ response, (s.reply m).toJson = .ok response ∧ Answers body response ∧
      ∀ e, (s.requested m).2 = .error e →
        errorCode? response = some (.int e.failure.code) := by
  obtain ⟨id, hid, hnull⟩ := Message.exists_identifier hparse hm
  have hidentifier : identifierOf m = id := by simp [identifierOf, hid]
  have hidentified : ∀ response : Json, response.field? "id" = some id →
      ∀ m', Message.parse? body = some m' →
        ∃ id, Json.parse? m'.id = some id ∧ id ≠ .null ∧ response.field? "id" = some id := by
    intro response hmember m' hm'
    cases hparse.symm.trans hm'
    exact ⟨id, hid, hnull, hmember⟩
  have hmessage : ∀ response : Json, Message.parse? body = none →
      response.field? "id" = some .null ∧ errorCode? response = some (.int (-32700)) := by
    intro response hnone
    cases hnone.symm.trans hparse
  unfold reply
  cases hresult : (s.requested m).2 with
  | ok result =>
      refine ⟨_, rfl, ⟨.inl ⟨rfl, Bool.false_ne_true⟩, hmessage _, hidentified _ ?_⟩, ?_⟩
      · rw [← hidentifier]
        rfl
      · intro e he
        cases he
  | error e =>
      refine ⟨_, rfl, ⟨.inr ⟨rfl, Bool.false_ne_true⟩, hmessage _, hidentified _ ?_⟩, ?_⟩
      · rw [← hidentifier]
        rfl
      · intro e' he
        cases he
        rfl

theorem sending?_of_malformed {body : Bytes} (hparse : Message.parse? body = none) (s : Server) :
    s.sending? body =
      some (.answer (.failure .null (Refusal.malformed (s.wording.malformed body)).failure)) := by
  simp [sending?, event?, Event.ofBody?, answer?, hparse]

theorem sending?_of_request {body : Bytes} {m : Message} (hparse : Message.parse? body = some m)
    (hm : m.isNotification = false) (hexit : isExit body = false) (s : Server) :
    s.sending? body = some (.answer (s.reply m)) := by
  have hmethod : m.method ≠ utf8 "exit" := by simpa [isExit, hparse] using hexit
  simp [sending?, event?_of_request hparse hm, answer?, hparse, hm, hmethod]

/-! ## Notices -/

theorem sending?_of_notification {body : Bytes} {m : Message}
    (hparse : Message.parse? body = some m) (hm : m.isNotification = true) (s : Server) :
    s.sending? body = (s.event? body).bind s.notice? := by
  unfold sending?
  cases s.event? body with
  | none => simp [answer?, hparse, hm]
  | some e => rfl

theorem isSome_notice?_iff (s : Server) (e : Event) :
    (s.notice? e).isSome = true ↔ ∀ c, e = .changed c →
      ∃ d, s.document? c.uri = some d ∧ (d.apply c.changes.items).2 = none := by
  cases e with
  | opened | closed => simp [notice?, reading?, Event.next]
  | changed c =>
      simp only [notice?, reading?, Option.isSome_map, Event.changed.injEq, forall_eq']
      cases s.document? c.uri with
      | none => simp
      | some d =>
          rcases hresult : d.apply c.changes.items with ⟨d', _ | reversed⟩ <;> simp [hresult]

theorem accepts_iff (s : Server) (body : Bytes) (e : Event) :
    s.Accepts body e ↔ s.event? body = some e ∧ (s.notice? e).isSome = true := by
  rw [isSome_notice?_iff]
  constructor
  · rintro ⟨hinitialized, hreported, happlies⟩
    exact ⟨by simp [event?, hinitialized, hreported], happlies⟩
  · rintro ⟨hevent, happlies⟩
    unfold event? at hevent
    split at hevent
    next hinitialized => exact ⟨hinitialized, hevent, happlies⟩
    next => cases hevent

theorem publishes_of_notice? {s : Server} {e : Event} {m : Sent} (h : s.notice? e = some m) :
    ∃ message, m.message.toJson = .ok message ∧ Publishes e message := by
  have huri := uri?_of_notice? h
  cases m with
  | answer m => cases huri
  | notice uri version? diagnostics =>
      cases huri
      exact ⟨_, rfl, rfl, rfl, rfl⟩

/-! ## Exchanges -/

/-- Whatever body is handled, what is sent is what it calls for. -/
theorem exists_exchange {body : Bytes} (hexit : isExit body = false) (s : Server) :
    ∃ messages, s.Exchange body messages ∧
      (s.sending? body).toList.flatMap Sent.frame = messages.flatMap Frame.ofJson := by
  cases hparse : Message.parse? body with
  | none =>
      obtain ⟨response, hjson, hanswers⟩ := answers_malformed hparse (s.wording.malformed body)
      refine ⟨[response], .answer (by simp [expectsAnswer, hparse]) hanswers, ?_⟩
      simp [sending?_of_malformed hparse, Sent.frame_of_toJson (m := .answer _) hjson]
  | some m =>
      cases hm : m.isNotification with
      | false =>
          obtain ⟨response, hjson, hanswers, -⟩ := answers_reply hparse hm s
          refine ⟨[response], .answer (by simp [expectsAnswer, hparse, hm]) hanswers, ?_⟩
          have hframe := Sent.frame_of_toJson (m := .answer (s.reply m)) hjson
          simp [sending?_of_request hparse hm hexit, hframe]
      | true =>
          -- Nothing answers a notification, but a notice follows if it reports an event that is
          -- accepted.
          have hexpects : expectsAnswer body = false := by simp [expectsAnswer, hparse, hm]
          rw [sending?_of_notification hparse hm]
          cases hsent : (s.event? body).bind s.notice? with
          | none =>
              refine ⟨[], .silence hexpects ?_, rfl⟩
              intro e haccepts
              obtain ⟨hevent, hnotice⟩ := (accepts_iff s body e).mp haccepts
              rw [hevent, Option.bind_some] at hsent
              simp [hsent] at hnotice
          | some m =>
              obtain ⟨e, hevent, hnotice⟩ := Option.bind_eq_some_iff.mp hsent
              obtain ⟨message, hjson, hpublishes⟩ := publishes_of_notice? hnotice
              have haccepts : s.Accepts body e :=
                (accepts_iff s body e).mpr ⟨hevent, by simp [hnotice]⟩
              refine ⟨[message], .notice haccepts hpublishes, ?_⟩
              simp [Sent.frame_of_toJson hjson]

theorem Accepts.expectsAnswer_eq {s : Server} {body : Bytes} {e : Event} (h : s.Accepts body e) :
    expectsAnswer body = false := by
  obtain ⟨hevent, -⟩ := (accepts_iff s body e).mp h
  obtain ⟨m, hparse, hm⟩ := exists_notification_of_event? hevent
  simp [expectsAnswer, hparse, hm]

/-- Of what a body calls for, a response is there exactly if the body is to be answered. -/
theorem Exchange.forall₂_answers {s : Server} {body : Bytes} {messages : List Json}
    (h : s.Exchange body messages) :
    List.Forall₂ Answers ([body].filter expectsAnswer) (messages.filter isResponse) := by
  cases h with
  | answer hexpects hanswers =>
      simpa [hexpects, isResponse_of_answers hanswers] using hanswers
  | notice haccepts hpublishes =>
      simp [haccepts.expectsAnswer_eq, isResponse, hpublishes.unidentified]
  | silence hexpects => simp [hexpects]

/-! ## Conversations -/

namespace Conversation

variable {s : Server} {bodies : List Bytes} {written : List (List Json)}

theorem output_after (h : s.Conversation bodies written) :
    (s.after bodies).sink.output = s.sink.output ++ written.flatten.flatMap Frame.ofJson := by
  induction h with
  | nil => simp [after]
  | @cons s body bodies messages later hexchange houtput hlater ih =>
      calc (s.after (body :: bodies)).sink.output
        _ = (s.handle body).1.sink.output ++ later.flatten.flatMap Frame.ofJson := ih
        _ = s.sink.output ++ (messages :: later).flatten.flatMap Frame.ofJson := by
            rw [houtput, List.flatten_cons, List.flatMap_append, List.append_assoc]

theorem forall₂_answers (h : s.Conversation bodies written) :
    List.Forall₂ Answers (bodies.filter expectsAnswer) (written.flatten.filter isResponse) := by
  induction h with
  | nil => exact .nil
  | @cons s body bodies messages later hexchange houtput hlater ih =>
      rw [← List.singleton_append, List.filter_append, List.flatten_cons, List.filter_append]
      exact List.rel_append hexchange.forall₂_answers ih

end Conversation

theorem exists_conversation {s : Server} (hsink : s.sink.capacity? = none) {bodies : List Bytes}
    (hexit : ∀ body ∈ bodies, isExit body = false) : ∃ written, s.Conversation bodies written := by
  induction bodies generalizing s with
  | nil => exact ⟨[], .nil⟩
  | cons body bodies ih =>
      obtain ⟨messages, hexchange, hframes⟩ := exists_exchange (hexit body List.mem_cons_self) s
      have hdelivers := delivers_of_unlimited hsink body
      obtain ⟨later, hlater⟩ := ih (unlimited_handle hsink body)
        fun other hother => hexit other (List.mem_cons_of_mem _ hother)
      exact ⟨messages :: later, .cons hexchange (by rw [hdelivers.output_handle, hframes]) hlater⟩

/-- A body that is no message changes nothing but the output and the log. -/
theorem handle_of_malformed {body : Bytes} (hparse : Message.parse? body = none) (s : Server) :
    (s.handle body).1.documents = s.documents ∧ (s.handle body).1.store = s.store ∧
      (s.handle body).1.initialized = s.initialized ∧
      (s.handle body).1.stopping = s.stopping := by
  have hevent : s.event? body = none := by simp [event?, Event.ofBody?, hparse]
  obtain ⟨log, hstate⟩ := handle_of_no_event hevent
  rw [hstate]
  simp [isInitialize, isShutdown, hparse]

/-! ## Sessions -/

/-- The messages of a session, body by body. -/
structure Transcribes (s : Server) (source : Source) (written : List (List Json)) : Prop where
  /-- What a body calls for is written when it is handled. -/
  conversation : s.Conversation (served source) written
  /-- Nothing else is written. -/
  output : (s.serve source).1.sink.output = s.sink.output ++ written.flatten.flatMap Frame.ofJson
  /-- The responses belong one by one to the bodies that are to be answered. -/
  responses : List.Forall₂ Answers ((served source).filter expectsAnswer)
    (written.flatten.filter isResponse)
  /-- A body that is no message leaves the documents, the store and the flags alone. -/
  discarded : ∀ earlier body later, served source = earlier ++ body :: later →
    Message.parse? body = none →
    let t := s.after earlier
    (t.handle body).1.documents = t.documents ∧ (t.handle body).1.store = t.store ∧
      (t.handle body).1.initialized = t.initialized ∧ (t.handle body).1.stopping = t.stopping

/-- Whatever stream is served, the messages written are those that its bodies call for. -/
theorem exists_transcribes {s : Server} (hsink : s.sink.capacity? = none) (source : Source) :
    ∃ written, s.Transcribes source written := by
  have hexit : ∀ body ∈ served source, isExit body = false := fun _ => isExit_of_mem_served
  obtain ⟨written, hwritten⟩ := exists_conversation hsink hexit
  refine ⟨written, hwritten, ?_, hwritten.forall₂_answers, ?_⟩
  · obtain ⟨log, hstate⟩ := exists_serve_fst_eq hsink source
    rw [hstate]
    exact hwritten.output_after
  · intro earlier body later _ hparse
    exact handle_of_malformed hparse (s.after earlier)

/-- A body that is no message, a request, and a notification before the end of the session. -/
theorem exists_transcribes_closing :
    let s := fresh {} [] {} 0 {} []
    let bodies := [utf8 "?"] ++ [
      [("id", .int 1), ("method", .text (utf8 "initialize"))],
      [("method", .text (utf8 "textDocument/didClose")), ("params", .record [])],
      [("method", .text (utf8 "exit"))],
      [("id", .int 2), ("method", .text (utf8 "shutdown"))]].map fun members =>
        (Json.record members).render
    let source : Source := ⟨bodies.flatMap fun body => Frame.headerOf body ++ body, none⟩
    s.sink.capacity? = none ∧ (served source).map expectsAnswer = [true, true, false] ∧
      ∃ written, s.Transcribes source written := by
  intro s bodies source
  have hserved : (served source).map expectsAnswer = [true, true, false] := by decide +kernel
  exact ⟨rfl, hserved, exists_transcribes rfl source⟩

end Server

end DefinitionFiles
