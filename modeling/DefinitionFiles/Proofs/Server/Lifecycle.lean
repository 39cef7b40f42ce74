import DefinitionFiles.Proofs.Server.Responses

/-!
# The phases of a session

A server waits until it is initialized, runs until it is asked to stop, and then refuses every
request. Both steps are taken once and for all. How the session ends depends on whether they were
taken before the first message that ends it, and on nothing behind that message.
-/

namespace DefinitionFiles.Server

open Rpc

/-- Whether bodies contain a request for the initialization and, after it, one for the end of the
session. -/
def Stopped (bodies : List Bytes) : Prop :=
  ∃ earlier body later, bodies = earlier ++ body :: later ∧ isShutdown body = true ∧
    earlier.any isInitialize = true

/-- Whether handling a body writes a response to it, an error with the given code, and nothing
else. -/
def Refuses (s : Server) (body : Bytes) (code : Int) : Prop :=
  ∃ response, (s.handle body).1.sink.output = s.sink.output ++ Frame.ofJson response ∧
    Answers body response ∧ errorCode? response = some (.int code)

/-! ## Refusals -/

theorem exists_message_of_isRequest {body : Bytes} (h : isRequest body = true) :
    ∃ m, Message.parse? body = some m ∧ m.isNotification = false := by
  unfold isRequest at h
  cases hparse : Message.parse? body with
  | none => simp [hparse] at h
  | some m => exact ⟨m, rfl, by simpa [hparse] using h⟩

/-- A refusal of a request is all that is written for it. -/
theorem refuses_of_requested {s : Server} (hsink : s.sink.capacity? = none) {body : Bytes}
    {m : Message} (hparse : Message.parse? body = some m) (hm : m.isNotification = false)
    (hexit : isExit body = false) {e : Refusal} (hrequested : (s.requested m).2 = .error e) :
    s.Refuses body e.failure.code := by
  obtain ⟨response, hjson, hanswers, hcode⟩ := answers_reply hparse hm s
  refine ⟨response, ?_, hanswers, hcode e hrequested⟩
  have hframe := Sent.frame_of_toJson (m := .answer (s.reply m)) hjson
  rw [(delivers_of_unlimited hsink body).output_handle, sending?_of_request hparse hm hexit]
  simp [hframe]

theorem refuses_of_waiting {s : Server} (hsink : s.sink.capacity? = none)
    (hinitialized : s.initialized = false) (hstopping : s.stopping = false) {body : Bytes}
    (hrequest : isRequest body = true) (hexit : isExit body = false)
    (hother : isInitialize body = false) : s.Refuses body (-32002) := by
  obtain ⟨m, hparse, hm⟩ := exists_message_of_isRequest hrequest
  have hmethod : m.method ≠ utf8 "initialize" := by simpa [isInitialize, hparse, hm] using hother
  have hrequested : (s.requested m).2 = .error .notInitialized := by
    simp [requested, hstopping, hmethod, hinitialized]
  exact refuses_of_requested hsink hparse hm hexit hrequested

theorem refuses_of_stopping {s : Server} (hsink : s.sink.capacity? = none)
    (hstopping : s.stopping = true) {body : Bytes} (hrequest : isRequest body = true)
    (hexit : isExit body = false) : s.Refuses body (-32600) := by
  obtain ⟨m, hparse, hm⟩ := exists_message_of_isRequest hrequest
  have hrequested : (s.requested m).2 = .error .stopping := by simp [requested, hstopping]
  exact refuses_of_requested hsink hparse hm hexit hrequested

/-! ## Waiting for the initialization -/

theorem waiting_handle {s : Server} (hinitialized : s.initialized = false) {body : Bytes}
    (hother : isInitialize body = false) :
    (s.handle body).1.documents = s.documents ∧ (s.handle body).1.store = s.store ∧
      (s.handle body).1.initialized = false := by
  have hevent : s.event? body = none := by simp [event?, hinitialized]
  obtain ⟨log, hstate⟩ := handle_of_no_event hevent
  rw [hstate]
  simp [hinitialized, hother]

theorem waiting_after {s : Server} (hinitialized : s.initialized = false) {bodies : List Bytes}
    (hother : ∀ body ∈ bodies, isInitialize body = false) :
    (s.after bodies).documents = s.documents ∧ (s.after bodies).store = s.store := by
  induction bodies generalizing s with
  | nil => exact ⟨rfl, rfl⟩
  | cons body bodies ih =>
      obtain ⟨hdocuments, hstore, hwaiting⟩ :=
        waiting_handle hinitialized (hother body List.mem_cons_self)
      obtain ⟨hdocuments', hstore'⟩ :=
        ih hwaiting fun other hmem => hother other (List.mem_cons_of_mem _ hmem)
      exact ⟨hdocuments'.trans hdocuments, hstore'.trans hstore⟩

theorem Exchange.isResponse_of_waiting {s : Server} {body : Bytes} {messages : List Json}
    (h : s.Exchange body messages) (hinitialized : s.initialized = false) :
    ∀ message ∈ messages, isResponse message = true := by
  intro message hmessage
  cases h with
  | answer hexpects hanswers =>
      rw [List.mem_singleton] at hmessage
      subst hmessage
      exact isResponse_of_answers hanswers
  | notice haccepts hpublishes => cases hinitialized.symm.trans haccepts.initialized
  | silence => cases hmessage

/-- While a server waits, it publishes nothing. -/
theorem Conversation.isResponse_of_waiting {s : Server} {bodies : List Bytes}
    {written : List (List Json)} (h : s.Conversation bodies written)
    (hinitialized : s.initialized = false) (hother : ∀ body ∈ bodies, isInitialize body = false) :
    ∀ message ∈ written.flatten, isResponse message = true := by
  induction h with
  | nil =>
      intro message hmessage
      cases hmessage
  | cons hexchange houtput hlater ih =>
      intro message hmessage
      rw [List.flatten_cons, List.mem_append] at hmessage
      rcases hmessage with hnow | hafter
      · exact hexchange.isResponse_of_waiting hinitialized message hnow
      · have hwaiting := (waiting_handle hinitialized (hother _ List.mem_cons_self)).2.2
        exact ih hwaiting (fun other hmem => hother other (List.mem_cons_of_mem _ hmem)) message
          hafter

/-! ## The flags -/

theorem stopped_concat (bodies : List Bytes) (body : Bytes) :
    Stopped (bodies ++ [body]) ↔
      Stopped bodies ∨ isShutdown body = true ∧ bodies.any isInitialize = true := by
  constructor
  · rintro ⟨earlier, second, later, heq, hshutdown, hinitialize⟩
    -- The second request is the last body, or it stands among those before it.
    cases later using List.reverseRecOn with
    | nil =>
        obtain ⟨rfl, rfl⟩ := List.append_singleton_inj.mp heq
        exact .inr ⟨hshutdown, hinitialize⟩
    | append_singleton later last =>
        rw [← List.cons_append, ← List.append_assoc] at heq
        obtain ⟨rfl, -⟩ := List.append_singleton_inj.mp heq
        exact .inl ⟨earlier, second, later, rfl, hshutdown, hinitialize⟩
  · rintro (⟨earlier, second, later, rfl, hshutdown, hinitialize⟩ | ⟨hshutdown, hinitialize⟩)
    · exact ⟨earlier, second, later ++ [body], by simp, hshutdown, hinitialize⟩
    · exact ⟨bodies, body, [], rfl, hshutdown, hinitialize⟩

theorem Stopped.mono {earlier later : List Bytes} (h : Stopped earlier)
    (hfront : earlier <+: later) : Stopped later := by
  obtain ⟨more, rfl⟩ := hfront
  obtain ⟨before, body, behind, rfl, hshutdown, hinitialize⟩ := h
  exact ⟨before, body, behind ++ more, by simp, hshutdown, hinitialize⟩

section Fresh

variable (settings : Settings) (version : Bytes) (wording : Wording) (limit : Int) (sink : Sink)
  (log : List Log.Entry)

/-- A server stops exactly if it was asked to after it was initialized. -/
theorem stopping_after_iff (bodies : List Bytes) :
    ((fresh settings version wording limit sink log).after bodies).stopping = true ↔
      Stopped bodies := by
  induction bodies using List.reverseRecOn with
  | nil => simp [after, fresh, Stopped]
  | append_singleton bodies body ih =>
      obtain ⟨hinitialized, horder⟩ :=
        initialized_after settings version wording limit sink log bodies
      have hstep := (flags_handle horder body).2
      rw [after_concat, hstep, stopped_concat, ← ih, ← hinitialized, Bool.or_eq_true,
        Bool.and_eq_true, and_comm (a := isShutdown body = true)]

theorem flags_after_of_waiting {bodies : List Bytes}
    (hother : ∀ body ∈ bodies, isInitialize body = false) :
    ((fresh settings version wording limit sink log).after bodies).initialized = false ∧
      ((fresh settings version wording limit sink log).after bodies).stopping = false := by
  obtain ⟨hinitialized, horder⟩ := initialized_after settings version wording limit sink log bodies
  have hwaiting :
      ((fresh settings version wording limit sink log).after bodies).initialized = false := by
    rw [hinitialized, List.any_eq_false]
    intro body hbody
    simp [hother body hbody]
  refine ⟨hwaiting, ?_⟩
  rw [← Bool.not_eq_true]
  intro hstopping
  cases hwaiting.symm.trans (horder hstopping)

/-- Neither flag is cleared by further bodies. -/
theorem flags_after_mono {earlier later : List Bytes} (hfront : earlier <+: later) :
    (((fresh settings version wording limit sink log).after earlier).initialized = true →
        ((fresh settings version wording limit sink log).after later).initialized = true) ∧
      (((fresh settings version wording limit sink log).after earlier).stopping = true →
        ((fresh settings version wording limit sink log).after later).stopping = true) := by
  constructor
  · rw [(initialized_after settings version wording limit sink log earlier).1,
      (initialized_after settings version wording limit sink log later).1, List.any_eq_true,
      List.any_eq_true]
    rintro ⟨body, hbody, hinitialize⟩
    exact ⟨body, hfront.subset hbody, hinitialize⟩
  · rw [stopping_after_iff, stopping_after_iff]
    intro hstopped
    exact hstopped.mono hfront

end Fresh

/-! ## Outcomes -/

theorem exitOutcome_eq_finished_iff (s : Server) :
    s.exitOutcome = .finished ↔ s.stopping = true := by
  unfold exitOutcome
  cases s.stopping <;> simp

theorem exitOutcome_eq_exitWithoutShutdown_iff (s : Server) :
    s.exitOutcome = .exitWithoutShutdown ↔ ¬ s.stopping = true := by
  unfold exitOutcome
  cases s.stopping <;> simp

/-- What stands behind the message that ends the session has no effect. -/
theorem exists_serve_front {s : Server} (hsink : s.sink.capacity? = none) {source : Source}
    {earlier : List Bytes} {body : Bytes} (h : ExitsAt source earlier body) :
    ∃ front rest, source.bytes = front ++ rest ∧
      (Frame.readAll ⟨front, none⟩).1 = earlier ++ [body] ∧
      ∀ other failure?, s.serve ⟨front ++ other, failure?⟩ = s.serve source := by
  obtain ⟨front, rest, hbytes, hfront⟩ := Frame.exists_front h.read
  refine ⟨front, rest, hbytes, ?_, ?_⟩
  · have hempty : Frame.readAll ⟨[], none⟩ = ([], .ended) :=
      Frame.readAll_of_error (by decide +kernel)
    simpa [hempty] using hfront [] none
  · intro other failure?
    have hexits : ExitsAt ⟨front ++ other, failure?⟩ earlier body :=
      { h with read := hfront other failure? ▸ List.prefix_append _ _ }
    rw [serve_of_exitsAt hsink h, serve_of_exitsAt hsink hexits]

/-! ## Sessions -/

/-- The phases of a session from its start to its end. -/
structure Lifecycle (start : Server) (source : Source) : Prop where
  /-- Up to the initialization the documents and the store stay as they were, and nothing but
  responses is written. -/
  waiting : ∀ earlier, earlier <+: served source →
    (∀ body ∈ earlier, isInitialize body = false) →
    (start.after earlier).documents = start.documents ∧
      (start.after earlier).store = start.store ∧
      ∃ responses : List Json, (start.after earlier).sink.output =
          start.sink.output ++ responses.flatMap Frame.ofJson ∧
        ∀ response ∈ responses, isResponse response = true
  /-- Up to the initialization every other request is refused. -/
  uninitialized : ∀ earlier body, earlier ++ [body] <+: served source →
    (∀ other ∈ earlier ++ [body], isInitialize other = false) → isRequest body = true →
    (start.after earlier).Refuses body (-32002)
  /-- Once the server was asked to stop, every request is refused. -/
  stopped : ∀ earlier body, earlier ++ [body] <+: served source → Stopped earlier →
    isRequest body = true → (start.after earlier).Refuses body (-32600)
  /-- No flag is cleared. -/
  kept : ∀ earlier later, earlier <+: later → later <+: served source →
    ((start.after earlier).initialized = true → (start.after later).initialized = true) ∧
      ((start.after earlier).stopping = true → (start.after later).stopping = true)
  /-- At the end the state is the one that the bodies before the end left. -/
  final : ∃ log, (start.serve source).1 = { start.after (served source) with log := log }
  /-- The session is finished if the server was asked to stop before the message that ends it. -/
  finished : (start.serve source).2 = .finished ↔
    ∃ earlier body, ExitsAt source earlier body ∧ Stopped earlier
  /-- Otherwise that message comes too early. -/
  abandoned : (start.serve source).2 = .exitWithoutShutdown ↔
    ∃ earlier body, ExitsAt source earlier body ∧ ¬ Stopped earlier
  /-- Whatever stands behind that message, nothing is different. -/
  behind : ∀ earlier body, ExitsAt source earlier body →
    ∃ front rest, source.bytes = front ++ rest ∧
      (Frame.readAll ⟨front, none⟩).1 = earlier ++ [body] ∧
      ∀ other failure?, start.serve ⟨front ++ other, failure?⟩ = start.serve source

/-- Whatever stream a new server is given, the session goes through its phases. -/
theorem lifecycle_fresh (settings : Settings) (version : Bytes) (wording : Wording) (limit : Int)
    (sink : Sink) (log : List Log.Entry) (hsink : sink.capacity? = none) (source : Source) :
    Lifecycle (fresh settings version wording limit sink log) source := by
  have hwritable : (fresh settings version wording limit sink log).sink.capacity? = none := hsink
  have hserved : ∀ {bodies}, bodies <+: served source → ∀ body ∈ bodies, isExit body = false :=
    fun hfront body hbody => isExit_of_mem_served (hfront.subset hbody)
  refine ⟨?waiting, ?uninitialized, ?stopped, ?kept, exists_serve_fst_eq hwritable source,
    ?finished, ?abandoned, fun _ _ => exists_serve_front hwritable⟩
  case waiting =>
    intro earlier hfront hother
    have hinitialized : (fresh settings version wording limit sink log).initialized = false := rfl
    obtain ⟨hdocuments, hstore⟩ := waiting_after hinitialized hother
    obtain ⟨written, hwritten⟩ := exists_conversation hwritable (hserved hfront)
    exact ⟨hdocuments, hstore, written.flatten, hwritten.output_after,
      hwritten.isResponse_of_waiting hinitialized hother⟩
  case uninitialized =>
    intro earlier body hfront hother hrequest
    obtain ⟨hinitialized, hstopping⟩ :=
      flags_after_of_waiting settings version wording limit sink log
        fun other hmem => hother other (List.mem_append_left _ hmem)
    have hlast : body ∈ earlier ++ [body] := by simp
    exact refuses_of_waiting (unlimited_after hwritable earlier) hinitialized hstopping hrequest
      (hserved hfront body hlast) (hother body hlast)
  case stopped =>
    intro earlier body hfront hstopped hrequest
    have hstopping := (stopping_after_iff settings version wording limit sink log earlier).mpr hstopped
    exact refuses_of_stopping (unlimited_after hwritable earlier) hstopping hrequest
      (hserved hfront body (by simp))
  case kept =>
    intro earlier later hfront _
    exact flags_after_mono settings version wording limit sink log hfront
  case finished =>
    rw [snd_serve_eq_iff hwritable source (by rintro ⟨⟩ <;> simp [Outcome.ofFrameError])]
    simp only [exitOutcome_eq_finished_iff, stopping_after_iff]
  case abandoned =>
    rw [snd_serve_eq_iff hwritable source (by rintro ⟨⟩ <;> simp [Outcome.ofFrameError])]
    simp only [exitOutcome_eq_exitWithoutShutdown_iff, stopping_after_iff]

/-- A first request to stop comes before the initialization and does not count, a second one
does. -/
theorem lifecycle_fresh_second_shutdown :
    let start := fresh {} [] {} 0 {} []
    let bodies := ["shutdown", "initialize", "shutdown", "exit", "initialize"].map fun method =>
      (Json.record [("id", .int 1), ("method", .text (utf8 method))]).render
    let source : Source := ⟨bodies.flatMap fun body => Frame.headerOf body ++ body, none⟩
    start.sink.capacity? = none ∧ served source = bodies.take 3 ∧
      (start.serve source).2 = .finished ∧ Lifecycle start source := by
  intro start bodies source
  have hserved : served source = bodies.take 3 := by decide +kernel
  have houtcome : (start.serve source).2 = .finished := by decide +kernel
  exact ⟨rfl, hserved, houtcome, lifecycle_fresh {} [] {} 0 {} [] rfl source⟩

end DefinitionFiles.Server
