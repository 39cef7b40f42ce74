import DefinitionFiles.Proofs.Server.Following

/-!
# Sessions

A server that handles one body after the other follows the events that arrive after the
initialization. For each URI they decide which document is open, what the store recorded, what the
editor was last told to show, and what completions are offered.
-/

namespace DefinitionFiles.Server

open Rpc

/-- A server before its first message. -/
def fresh (settings : Settings) (version : Bytes) (wording : Wording) (limit : Int) (sink : Sink)
    (log : List Log.Entry) : Server :=
  { settings := settings, version := version, wording := wording, store := .withLimit limit
    sink := sink, log := log }

/-- The server after it handled bodies in order. -/
def after (s : Server) (bodies : List Bytes) : Server :=
  bodies.foldl (fun s body => (s.handle body).1) s

theorem after_concat (s : Server) (bodies : List Bytes) (body : Bytes) :
    s.after (bodies ++ [body]) = ((s.after bodies).handle body).1 :=
  List.foldl_concat ..

theorem exists_after_of_advance (s : Server) (source : Source) :
    ∃ bodies, (s.advance source).1 = s.after bodies := by
  unfold advance
  split
  next => exact ⟨[], rfl⟩
  next body rest hread =>
    refine ⟨[body], ?_⟩
    split
    next t outcome hhandle => exact (congrArg Prod.fst hhandle).symm
    next t hhandle => exact (congrArg Prod.fst hhandle).symm

/-- Serving a stream handles the bodies of its frames in order. -/
theorem exists_after_of_serve (s : Server) (source : Source) :
    ∃ bodies, (s.serve source).1 = s.after bodies := by
  fun_induction serve s source with
  | case1 s source t outcome hadvance =>
      obtain ⟨bodies, hbodies⟩ := exists_after_of_advance s source
      exact ⟨bodies, (congrArg Prod.fst hadvance).symm.trans hbodies⟩
  | case2 s source t rest hadvance ih =>
      obtain ⟨first, hfirst⟩ := exists_after_of_advance s source
      obtain ⟨later, hlater⟩ := ih
      refine ⟨first ++ later, ?_⟩
      have ht : t = s.after first := (congrArg Prod.fst hadvance).symm.trans hfirst
      rw [hlater, ht, after, after, after, List.foldl_append]

/-- Whether a property holds of each body and the state in which it is handled. -/
def Throughout (s : Server) (P : Server → Bytes → Prop) : List Bytes → Prop
  | [] => True
  | body :: rest => P s body ∧ Throughout (s.handle body).1 P rest

instance decidableThroughout (P : Server → Bytes → Prop) [∀ s body, Decidable (P s body)] :
    (s : Server) → (bodies : List Bytes) → Decidable (s.Throughout P bodies)
  | _, [] => inferInstanceAs (Decidable True)
  | s, body :: rest =>
      have := decidableThroughout P (s.handle body).1 rest
      inferInstanceAs (Decidable (P s body ∧ (s.handle body).1.Throughout P rest))

theorem Throughout.of_concat {s : Server} {P : Server → Bytes → Prop} {bodies : List Bytes}
    {body : Bytes} (h : s.Throughout P (bodies ++ [body])) :
    s.Throughout P bodies ∧ P (s.after bodies) body := by
  induction bodies generalizing s with
  | nil => exact ⟨trivial, h.1⟩
  | cons first rest ih => exact ⟨⟨h.1, (ih h.2).1⟩, (ih h.2).2⟩

/-! ## Events that arrive -/

/-- The events that arrive after the initialization. -/
def arrived (bodies : List Bytes) : List Event :=
  (bodies.dropWhile fun body => !isInitialize body).filterMap Event.ofBody?

theorem ofBody?_of_isInitialize {body : Bytes} (h : isInitialize body = true) :
    Event.ofBody? body = none := by
  unfold isInitialize at h
  split at h
  next m hparse =>
    simp only [Bool.and_eq_true, Bool.not_eq_true'] at h
    simp [Event.ofBody?, hparse, h.1]
  next => cases h

theorem arrived_cons (body : Bytes) (rest : List Bytes) :
    arrived (body :: rest) =
      if isInitialize body then rest.filterMap Event.ofBody? else arrived rest := by
  cases hinit : isInitialize body with
  | true => simp [arrived, hinit, ofBody?_of_isInitialize hinit]
  | false => simp [arrived, hinit]

theorem arrived_concat (bodies : List Bytes) (body : Bytes) :
    arrived (bodies ++ [body]) = arrived bodies ++
      (if bodies.any isInitialize then Event.ofBody? body else none).toList := by
  induction bodies with
  | nil =>
      rw [List.nil_append, arrived_cons]
      cases isInitialize body <;> rfl
  | cons first rest ih =>
      rw [List.cons_append, arrived_cons, arrived_cons, List.any_cons]
      cases isInitialize first with
      | true =>
          cases hevent : Event.ofBody? body <;> simp [hevent]
      | false => simpa using ih

/-! ## Messages sent -/

/-- Whether the message that a body calls for, if any, is written completely. -/
def Delivers (s : Server) (body : Bytes) : Prop :=
  ∀ m ∈ s.sending? body, (s.sink.send m.message).2 = none

/-- The message that was written completely when a body was handled. -/
def sent? (s : Server) (body : Bytes) : Option Sent :=
  (s.sending? body).filter fun m => (s.sink.send m.message).2.isNone

/-- The messages that were written completely while bodies were handled in order. -/
def transcript (s : Server) : List Bytes → List Sent
  | [] => []
  | body :: rest => (s.sent? body).toList ++ transcript (s.handle body).1 rest

theorem transcript_concat (s : Server) (bodies : List Bytes) (body : Bytes) :
    s.transcript (bodies ++ [body]) =
      s.transcript bodies ++ ((s.after bodies).sent? body).toList := by
  induction bodies generalizing s with
  | nil => simp [transcript, after]
  | cons first rest ih =>
      rw [List.cons_append, transcript, transcript, ih, List.append_assoc]
      rfl

theorem Delivers.sent?_eq {s : Server} {body : Bytes} (h : s.Delivers body) :
    s.sent? body = s.sending? body := by
  unfold sent?
  cases hsending : s.sending? body with
  | none => rfl
  | some m => simp [h m hsending]

/-- The bytes of a message on its way to the editor. -/
def Sent.frame (m : Sent) : Bytes :=
  match m.message.toJson with
  | .ok j => Frame.headerOf j.render ++ j.render
  | .error _ => []

theorem output_of_write? {sink next : Sink} {piece : Bytes} (h : sink.write? piece = some next) :
    next.output = sink.output ++ piece := by
  unfold Sink.write? at h
  split at h
  · cases h
    simp [Sink.output]
  · cases h
  · cases h
    simp [Sink.output]

/-- A message without an error is written as a whole. -/
theorem output_send {sink : Sink} {m : Sent} (h : (sink.send m.message).2 = none) :
    (sink.send m.message).1.output = sink.output ++ m.frame := by
  unfold Sent.frame
  unfold Sink.send at h ⊢
  cases hjson : m.message.toJson with
  | error e => simp [hjson] at h
  | ok j =>
      simp only [hjson, Sink.writeFrame] at h ⊢
      cases hheader : sink.write? (Frame.headerOf j.render) with
      | none => simp [hheader] at h
      | some headed =>
          simp only [hheader] at h ⊢
          cases hbody : headed.write? j.render with
          | none => simp [hbody] at h
          | some done =>
              rw [output_of_write? hbody, output_of_write? hheader, List.append_assoc]

theorem Delivers.output_handle {s : Server} {body : Bytes} (h : s.Delivers body) :
    (s.handle body).1.sink.output =
      s.sink.output ++ (s.sending? body).toList.flatMap Sent.frame := by
  rw [sink_handle]
  cases hsending : s.sending? body with
  | none => simp [Sent.deliver]
  | some m => simpa [Sent.deliver] using output_send (h m hsending)

/-! ## Runs -/

section Runs

variable (settings : Settings) (version : Bytes) (wording : Wording) (limit : Int) (sink : Sink)
  (log : List Log.Entry) (bodies : List Bytes) (uri : Bytes)

/-- A server is initialized once a request for it was among the bodies. -/
theorem initialized_after :
    let s := (fresh settings version wording limit sink log).after bodies
    s.initialized = bodies.any isInitialize ∧ (s.stopping = true → s.initialized = true) := by
  induction bodies using List.reverseRecOn with
  | nil => exact ⟨rfl, fun h => h⟩
  | append_singleton bodies body ih =>
      have hstep := initialized_handle ih.2 body
      simp only [after_concat, List.any_append]
      refine ⟨?_, hstep.2⟩
      rw [hstep.1, ih.1]
      simp

/-- What arrives for a document is what the server takes notice of. -/
theorem filter_arrived_concat (body : Bytes) :
    (arrived (bodies ++ [body])).filter (fun e => e.uri = uri) =
      (arrived bodies).filter (fun e => e.uri = uri) ++
        ((fresh settings version wording limit sink log).after bodies).heard uri body := by
  rw [arrived_concat, List.filter_append, heard, event?,
    (initialized_after settings version wording limit sink log bodies).1]

/-- Along every run the state follows the events that arrived for a document. -/
theorem follows_after
    (happlies : (fresh settings version wording limit sink log).Throughout AppliesAll bodies) :
    Follows settings limit.toNat uri ((fresh settings version wording limit sink log).after bodies)
      ((arrived bodies).filter fun e => e.uri = uri) := by
  -- The induction takes the last body off, so that the step lemma meets the state before it.
  induction bodies using List.reverseRecOn with
  | nil => exact ⟨rfl, rfl, rfl, (Store.newest_nil _).symm⟩
  | append_singleton bodies body ih =>
      obtain ⟨hearlier, hbody⟩ := happlies.of_concat
      rw [after_concat, filter_arrived_concat settings version wording limit sink log]
      exact (ih hearlier).handle hbody

/-- Along every run the last notice for a document is the one that its events call for. -/
theorem shown?_after
    (happlies : (fresh settings version wording limit sink log).Throughout AppliesAll bodies)
    (hdelivers : (fresh settings version wording limit sink log).Throughout Delivers bodies) :
    shown? uri ((fresh settings version wording limit sink log).transcript bodies) =
      Event.notice? settings uri ((arrived bodies).filter fun e => e.uri = uri) := by
  induction bodies using List.reverseRecOn with
  | nil => rfl
  | append_singleton bodies body ih =>
      obtain ⟨hearlier, hbody⟩ := happlies.of_concat
      obtain ⟨hwritten, hsent⟩ := hdelivers.of_concat
      have hfollows := follows_after settings version wording limit sink log bodies uri hearlier
      rw [transcript_concat, hsent.sent?_eq,
        filter_arrived_concat settings version wording limit sink log]
      exact hfollows.shown?_handle (ih hearlier hwritten) hbody

theorem output_after (s : Server) (hdelivers : s.Throughout Delivers bodies) :
    (s.after bodies).sink.output =
      s.sink.output ++ (s.transcript bodies).flatMap Sent.frame := by
  induction bodies using List.reverseRecOn with
  | nil => simp [after, transcript]
  | append_singleton bodies body ih =>
      obtain ⟨hwritten, hsent⟩ := hdelivers.of_concat
      rw [after_concat, transcript_concat, hsent.sent?_eq, hsent.output_handle, ih hwritten,
        List.flatMap_append, List.append_assoc]

end Runs

/-! ## What a session makes of a document -/

/-- Whether a body asks for the completions at a place, and the server accepts the request. -/
structure AsksCompletions (s : Server) (body : Bytes) (m : Message) (place : Place) : Prop where
  parsed : Message.parse? body = some m
  request : m.isNotification = false
  method : m.method = utf8 "textDocument/completion"
  params : params? Place.params {} m.params = some place
  initialized : s.initialized = true
  running : s.stopping = false

theorem AsksCompletions.sending?_eq {s : Server} {body : Bytes} {m : Message} {place : Place}
    (h : s.AsksCompletions body m place) :
    s.sending? body = some (.answer (.result (identifierOf m) (.json (s.completions place)))) := by
  have hexit : m.method ≠ utf8 "exit" := by
    rw [h.method]
    decide
  have hresult : (s.requested m).2 = .ok (s.completions place) := by
    unfold requested
    rw [h.method, h.running, h.initialized, h.params]
    rfl
  rw [sending?, event?_of_request h.parsed h.request]
  simp [answer?, h.parsed, hexit, h.request, reply, hresult]

/-- What a server has of one document and has told about it after it handled bodies in order, by
the events that arrived for that document. -/
structure Reflects (start : Server) (limit : Int) (bodies : List Bytes) (uri : Bytes) : Prop where
  /-- A document is open if and only if the last event that opened or closed it opened it. -/
  isOpen : ((start.after bodies).document? uri).isSome ↔
    (((arrived bodies).filter fun e => e.uri = uri).filterMap Event.opens?).getLast? = some true
  /-- Text and version of an open document are those that its events left. -/
  document : (start.after bodies).document? uri =
    Event.document? ((arrived bodies).filter fun e => e.uri = uri)
  /-- The newest definition of an open document is that of its current text. -/
  latest : ∀ d, (start.after bodies).document? uri = some d →
    (start.after bodies).store.latest? uri =
      some (Definition.parse start.settings.dialect uri d.text).1
  /-- The store has the definitions of all texts that openings and changes left, or the newest of
  them if there is a limit. -/
  history : (start.after bodies).store.history uri =
    let definitions := (Event.readings ((arrived bodies).filter fun e => e.uri = uri)).map fun d =>
      (Definition.parse start.settings.dialect uri d.text).1
    if 0 < limit then definitions.rtake limit.toNat else definitions
  /-- Unless a write failed, the frames of all messages sent were written. -/
  output : start.Throughout Delivers bodies →
    (start.after bodies).sink.output =
      start.sink.output ++ (start.transcript bodies).flatMap Sent.frame
  /-- Unless a write failed, the last notice for an open document has its current version and
  everything found in its current text. -/
  shown : start.Throughout Delivers bodies → ∀ d, (start.after bodies).document? uri = some d →
    shown? uri (start.transcript bodies) = some (.notice uri (some d.version)
      ((Definition.parse start.settings.dialect uri d.text).2.map (Diagnostic.toJson d.lineCount)))
  /-- Unless a write failed, the last notice for a document that was closed and is not open is
  empty. -/
  cleared : start.Throughout Delivers bodies → (start.after bodies).document? uri = none →
    .closed uri ∈ arrived bodies →
    shown? uri (start.transcript bodies) = some (.notice uri none [])
  /-- A request for completions is answered by the configured keywords in an open document, and by
  none elsewhere. -/
  completions : ∀ body m place, (start.after bodies).AsksCompletions body m place →
    place.uri = uri →
    ((start.after bodies).handle body).1.sink =
      ((start.after bodies).sink.send (.result (identifierOf m) (.json (.array
        (if ((start.after bodies).document? uri).isSome then
          start.settings.completions.map completionItem else []))))).1

/-- Whatever bodies a server handles from its start, as long as no change is reversed it reflects
the events that arrived for every document. -/
theorem reflects_after (settings : Settings) (version : Bytes) (wording : Wording) (limit : Int)
    (sink : Sink) (log : List Log.Entry) (bodies : List Bytes) (uri : Bytes)
    (happlies : (fresh settings version wording limit sink log).Throughout AppliesAll bodies) :
    Reflects (fresh settings version wording limit sink log) limit bodies uri := by
  have hfollows := follows_after settings version wording limit sink log bodies uri happlies
  have hshown := shown?_after settings version wording limit sink log bodies uri happlies
  refine ⟨?isOpen, hfollows.document_eq, fun d hd => hfollows.latest?_eq hd, ?history,
    output_after bodies _, ?shown, ?cleared, ?completions⟩
  case isOpen =>
    rw [hfollows.document_eq]
    exact Event.isSome_document?_iff _
  case history =>
    rw [hfollows.history_eq]
    exact Store.newest_toNat limit _
  case shown =>
    intro hdelivers d hd
    rw [hshown hdelivers, Event.notice?, ← hfollows.document_eq, hd]
    obtain rfl := uri_of_document? hd
    rfl
  case cleared =>
    intro hdelivers hnone hclosed
    rw [hshown hdelivers]
    apply Event.notice?_of_closed (hfollows.document_eq.symm.trans hnone)
    exact List.mem_filter.mpr ⟨hclosed, by simp [Event.uri]⟩
  case completions =>
    intro body m place hasks huri
    rw [sink_handle, hasks.sending?_eq, Sent.deliver, Option.elim_some, Sent.message,
      Server.completions, huri, hfollows.settings_eq]
    cases ((fresh settings version wording limit sink log).after bodies).document? uri <;> rfl

/-- A document is opened, and then text is inserted at its start. -/
theorem reflects_after_insertion :
    let start := fresh {} [] {} 1 {} []
    let document := ("textDocument", Json.record [("uri", .text (utf8 "u")), ("version", .int 1),
      ("text", .text (utf8 "["))])
    let insertion := Json.record [("range", .record []), ("text", .text (utf8 "A"))]
    let bodies := [
      [("id", .int 1), ("method", .text (utf8 "initialize"))],
      [("method", .text (utf8 "textDocument/didOpen")), ("params", .record [document])],
      [("method", .text (utf8 "textDocument/didChange")),
        ("params", .record [document, ("contentChanges", .array [insertion])])]].map fun members =>
          (Json.record members).render
    (start.Throughout AppliesAll bodies ∧
      (start.after bodies).document? (utf8 "u") = some ⟨utf8 "u", 1, utf8 "A["⟩) ∧
      Reflects start 1 bodies (utf8 "u") := by
  intro start document insertion bodies
  have hsession : start.Throughout AppliesAll bodies ∧
      (start.after bodies).document? (utf8 "u") = some ⟨utf8 "u", 1, utf8 "A["⟩ := by
    decide +kernel
  exact ⟨hsession, reflects_after {} [] {} 1 {} [] bodies (utf8 "u") hsession.1⟩

end DefinitionFiles.Server
