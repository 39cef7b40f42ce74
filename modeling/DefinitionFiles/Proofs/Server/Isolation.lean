import DefinitionFiles.Proofs.Rpc.Envelope
import DefinitionFiles.Proofs.Server.Service

/-!
# Documents do not see each other

All documents share one server: its flags, its store and its way to the editor. Two servers are
alike for a document if it cannot tell them apart. An event of another document leads to a server
that is alike, and everything else keeps servers alike and makes them publish the same. So a
document sees the same session without the events of the others, in whatever order these come.
-/

namespace DefinitionFiles.Server

open Rpc

/-! ## Bodies of other documents -/

/-- The document that a body reports an event of. -/
def about? (body : Bytes) : Option Bytes :=
  (Event.ofBody? body).map Event.uri

/-- Whether a body reports no event of another document. -/
def concerns (uri body : Bytes) : Bool :=
  about? body = none || about? body = some uri

theorem exists_event_of_not_concerns {uri body : Bytes} (h : concerns uri body = false) :
    ∃ e, Event.ofBody? body = some e ∧ e.uri ≠ uri := by
  unfold concerns about? at h
  cases hevent : Event.ofBody? body with
  | none => simp [hevent] at h
  | some e =>
      rw [hevent] at h
      exact ⟨e, rfl, by simpa using h⟩

theorem ofBody?_of_event? {s : Server} {body : Bytes} {e : Event} (h : s.event? body = some e) :
    Event.ofBody? body = some e := by
  unfold event? at h
  split at h
  · exact h
  · cases h

theorem uri_of_concerns {s : Server} {uri body : Bytes} {e : Event}
    (h : concerns uri body = true) (hevent : s.event? body = some e) : e.uri = uri := by
  rw [concerns, about?, ofBody?_of_event? hevent] at h
  simpa using h

theorem not_request_of_ofBody? {body : Bytes} {e : Event} (h : Event.ofBody? body = some e) :
    isInitialize body = false ∧ isShutdown body = false := by
  obtain ⟨m, hparse, hm⟩ := Option.bind_eq_some_iff.mp h
  have hnotification : m.isNotification = true := by
    by_contra hrequest
    simp [hrequest] at hm
  simp [isInitialize, isShutdown, hparse, hnotification]

theorem concerns_of_isExit {body : Bytes} (h : isExit body = true) (uri : Bytes) :
    concerns uri body = true := by
  unfold isExit at h
  split at h
  next m hparse =>
    have hevent : Event.ofMessage? m = none := Event.ofMessage?_exit (by simpa using h)
    simp [concerns, about?, Event.ofBody?, hparse, hevent]
  next => cases h

/-! ## The document that an event leaves -/

/-- The document after an event of its URI. Up to a reversed change a batch has an effect on the
text, but not on the version. -/
def Event.leaves? (d? : Option Document) : Event → Option Document
  | .opened o => some { uri := o.uri, version := o.version, text := o.text }
  | .changed c => d?.map fun d =>
      match d.apply c.changes.items with
      | (d, none) => { d with version := c.version }
      | (d, some _) => d
  | .closed _ => none

theorem document?_changed {s : Server} {c : Changed} {d : Document}
    (h : s.document? c.uri = some d) :
    ∃ left, left.uri = c.uri ∧ (Event.changed c).leaves? (some d) = some left ∧
      ∀ uri, (s.changed c).1.document? uri = (s.put left).document? uri := by
  rcases happly : d.apply c.changes.items with ⟨left, reversed?⟩
  have huri : left.uri = c.uri :=
    (congrArg (·.1.uri) happly).symm.trans (uri_of_document? h)
  cases reversed? with
  | none =>
      have hchanged : s.changed c = (s.put { left with version := c.version }).review
          { left with version := c.version } := by
        simp only [changed, h, happly]
      refine ⟨{ left with version := c.version }, huri, by simp [Event.leaves?, happly], ?_⟩
      intro uri
      rw [hchanged]
      rfl
  | some change =>
      have hchanged : s.changed c = (s.put left, some (.reversed left.uri change)) := by
        simp only [changed, h, happly]
      refine ⟨left, huri, by simp [Event.leaves?, happly], ?_⟩
      intro uri
      rw [hchanged]

/-- An event has an effect on the document of its URI only, also where a change is reversed. -/
theorem document?_take (s : Server) (e : Event) (uri : Bytes) :
    (s.take e).1.document? uri =
      if e.uri = uri then e.leaves? (s.document? e.uri) else s.document? uri := by
  cases e with
  | opened o => exact document?_put s _ uri
  | closed u => exact document?_close s u uri
  | changed c =>
      change (s.changed c).1.document? uri =
        if c.uri = uri then (Event.changed c).leaves? (s.document? c.uri) else s.document? uri
      cases hd : s.document? c.uri with
      | none =>
          have hchanged : (s.changed c).1 = s := by simp only [changed, hd]
          rw [hchanged]
          split
          next huri => exact huri ▸ hd
          next => rfl
      | some d =>
          obtain ⟨left, huri, hleaves, hchanged⟩ := document?_changed hd
          rw [hchanged, hleaves, document?_put, huri]

theorem initialized_take (s : Server) (e : Event) :
    (s.take e).1.initialized = s.initialized := by
  obtain ⟨documents, log, htake⟩ := take_eq s e
  rw [htake]

theorem stopping_take (s : Server) (e : Event) : (s.take e).1.stopping = s.stopping := by
  obtain ⟨documents, log, htake⟩ := take_eq s e
  rw [htake]

/-! ## Servers that are alike -/

/-- What a document depends on is the same in two servers. -/
structure Alike (uri : Bytes) (s t : Server) : Prop where
  settings_eq : s.settings = t.settings
  initialized_eq : s.initialized = t.initialized
  stopping_eq : s.stopping = t.stopping
  limit_eq : s.store.limit = t.store.limit
  document_eq : s.document? uri = t.document? uri
  history_eq : s.store.history uri = t.store.history uri

namespace Alike

variable {uri : Bytes} {s t : Server}

theorem refl (uri : Bytes) (s : Server) : Alike uri s s :=
  ⟨rfl, rfl, rfl, rfl, rfl, rfl⟩

theorem with_logs (h : Alike uri s t) (log log' : List Log.Entry) :
    Alike uri { s with log := log } { t with log := log' } :=
  ⟨h.settings_eq, h.initialized_eq, h.stopping_eq, h.limit_eq, h.document_eq, h.history_eq⟩

theorem trans {r : Server} (h : Alike uri s t) (h' : Alike uri t r) : Alike uri s r where
  settings_eq := h.settings_eq.trans h'.settings_eq
  initialized_eq := h.initialized_eq.trans h'.initialized_eq
  stopping_eq := h.stopping_eq.trans h'.stopping_eq
  limit_eq := h.limit_eq.trans h'.limit_eq
  document_eq := h.document_eq.trans h'.document_eq
  history_eq := h.history_eq.trans h'.history_eq

theorem reading?_eq (h : Alike uri s t) {e : Event} (huri : e.uri = uri) :
    s.reading? e = t.reading? e := by
  cases e with
  | opened | closed => rfl
  | changed c =>
      have hdocument : s.document? c.uri = t.document? c.uri := by
        rw [show c.uri = uri from huri]
        exact h.document_eq
      simp only [reading?, hdocument]

theorem notice?_eq (h : Alike uri s t) {e : Event} (huri : e.uri = uri) :
    s.notice? e = t.notice? e := by
  cases e with
  | closed => rfl
  | opened | changed => simp only [notice?, h.reading?_eq huri, h.settings_eq]

theorem event?_eq (h : Alike uri s t) (body : Bytes) : s.event? body = t.event? body := by
  rw [event?, event?, h.initialized_eq]

theorem take (h : Alike uri s t) {e : Event} (huri : e.uri = uri) :
    Alike uri (s.take e).1 (t.take e).1 where
  settings_eq := by rw [settings_take, settings_take, h.settings_eq]
  initialized_eq := by rw [initialized_take, initialized_take, h.initialized_eq]
  stopping_eq := by rw [stopping_take, stopping_take, h.stopping_eq]
  limit_eq := by rw [limit_take, limit_take, h.limit_eq]
  document_eq := by
    rw [document?_take, document?_take, if_pos huri, if_pos huri, huri, h.document_eq]
  history_eq := by
    rw [history_take, history_take, if_pos huri, if_pos huri, h.reading?_eq huri, h.settings_eq,
      h.limit_eq, h.history_eq]

theorem take_other {e : Event} (huri : e.uri ≠ uri) (s : Server) :
    Alike uri (s.take e).1 s where
  settings_eq := settings_take s e
  initialized_eq := initialized_take s e
  stopping_eq := stopping_take s e
  limit_eq := limit_take s e
  document_eq := by rw [document?_take, if_neg huri]
  history_eq := by rw [history_take, if_neg huri]

/-- A body that reports no event of another document keeps servers alike. -/
theorem handle (h : Alike uri s t) {body : Bytes} (hbody : concerns uri body = true) :
    Alike uri (s.handle body).1 (t.handle body).1 := by
  cases hevent : s.event? body with
  | none =>
      obtain ⟨log, hs⟩ := handle_of_no_event hevent
      obtain ⟨log', ht⟩ := handle_of_no_event ((h.event?_eq body).symm.trans hevent)
      rw [hs, ht]
      refine ⟨h.settings_eq, ?_, ?_, h.limit_eq, h.document_eq, h.history_eq⟩
      · simp only [h.initialized_eq, h.stopping_eq]
      · simp only [h.initialized_eq, h.stopping_eq]
  | some e =>
      have huri : e.uri = uri := uri_of_concerns hbody hevent
      obtain ⟨log, after, hs⟩ := handle_of_event hevent
      obtain ⟨log', after', ht⟩ := handle_of_event ((h.event?_eq body).symm.trans hevent)
      rw [hs, ht]
      exact ((h.with_logs log log').take huri).with_logs after after'

/-- A body that reports an event of another document leads to a server that is alike. -/
theorem handle_other {body : Bytes} (hbody : concerns uri body = false) (s : Server) :
    Alike uri (s.handle body).1 s := by
  obtain ⟨e, hevent, huri⟩ := exists_event_of_not_concerns hbody
  cases hheard : s.event? body with
  | none =>
      obtain ⟨hinit, hshutdown⟩ := not_request_of_ofBody? hevent
      obtain ⟨log, hs⟩ := handle_of_no_event hheard
      rw [hs]
      exact ⟨rfl, by simp [hinit], by simp [hshutdown], rfl, rfl, rfl⟩
  | some heard =>
      cases (ofBody?_of_event? hheard).symm.trans hevent
      obtain ⟨log, after, hs⟩ := handle_of_event hheard
      rw [hs]
      exact ((take_other huri { s with log := log }).with_logs after log).trans
        ((refl uri s).with_logs log s.log)

end Alike

/-! ## What is published for a document -/

def published (s : Server) (uri : Bytes) (bodies : List Bytes) : List Sent :=
  (s.transcript bodies).filter fun m => m.uri? = some uri

theorem published_cons (s : Server) (uri body : Bytes) (rest : List Bytes) :
    s.published uri (body :: rest) =
      ((s.sent? body).toList.filter fun m => m.uri? = some uri) ++
        (s.handle body).1.published uri rest :=
  List.filter_append ..

/-- Only an event of a document is answered by a notice for it. -/
theorem filter_sent? {s : Server} (hsink : s.sink.capacity? = none) (uri body : Bytes) :
    ((s.sent? body).toList.filter fun m => m.uri? = some uri) =
      (s.heard uri body).flatMap fun e => (s.notice? e).toList := by
  rw [(delivers_of_unlimited hsink body).sent?_eq, sending?, heard]
  cases hevent : s.event? body with
  | none =>
      apply List.filter_eq_nil_iff.mpr
      intro m hm
      simp [uri?_of_answer? (Option.mem_toList.mp hm)]
  | some e =>
      have hnotice : ∀ m ∈ (s.notice? e).toList, m.uri? = some e.uri :=
        fun m hm => uri?_of_notice? (Option.mem_toList.mp hm)
      by_cases huri : e.uri = uri
      · have hall : ((s.notice? e).toList.filter fun m => m.uri? = some uri) =
            (s.notice? e).toList :=
          List.filter_eq_self.mpr fun m hm => by simp [hnotice m hm, huri]
        simpa [huri] using hall
      · have hnone : ((s.notice? e).toList.filter fun m => m.uri? = some uri) = [] :=
          List.filter_eq_nil_iff.mpr fun m hm => by simp [hnotice m hm, huri]
        simpa [huri] using hnone

theorem Alike.filter_sent?_eq {uri : Bytes} {s t : Server} (h : Alike uri s t)
    (hs : s.sink.capacity? = none) (ht : t.sink.capacity? = none) (body : Bytes) :
    ((s.sent? body).toList.filter fun m => m.uri? = some uri) =
      (t.sent? body).toList.filter fun m => m.uri? = some uri := by
  have hheard : s.heard uri body = t.heard uri body := by
    rw [heard, heard, h.event?_eq]
  rw [filter_sent? hs, filter_sent? ht, hheard]
  apply List.flatMap_congr
  intro e he
  have huri : e.uri = uri := by simpa using List.of_mem_filter he
  rw [h.notice?_eq huri]

theorem heard_of_not_concerns {uri body : Bytes} (h : concerns uri body = false) (s : Server) :
    s.heard uri body = [] := by
  obtain ⟨e, hevent, huri⟩ := exists_event_of_not_concerns h
  apply List.filter_eq_nil_iff.mpr
  intro heard hheard
  cases (ofBody?_of_event? (Option.mem_toList.mp hheard)).symm.trans hevent
  simpa using huri

/-- Servers that are alike stay so and publish the same if one of them misses the events of other
documents. -/
theorem Alike.after_filter {uri : Bytes} {s t : Server} (h : Alike uri s t)
    (hs : s.sink.capacity? = none) (ht : t.sink.capacity? = none) (bodies : List Bytes) :
    Alike uri (s.after bodies) (t.after (bodies.filter (concerns uri))) ∧
      s.published uri bodies = t.published uri (bodies.filter (concerns uri)) := by
  induction bodies generalizing s t with
  | nil => exact ⟨h, rfl⟩
  | cons body bodies ih =>
      have hs' := unlimited_handle hs body
      cases hbody : concerns uri body with
      | true =>
          obtain ⟨halike, hpublished⟩ := ih (h.handle hbody) hs' (unlimited_handle ht body)
          rw [List.filter_cons_of_pos hbody]
          refine ⟨halike, ?_⟩
          rw [published_cons, published_cons, h.filter_sent?_eq hs ht, hpublished]
      | false =>
          -- The other server does not handle this body, and this one comes to no more by it.
          obtain ⟨halike, hpublished⟩ := ih ((handle_other hbody s).trans h) hs' ht
          rw [List.filter_cons_of_neg (by simp [hbody])]
          refine ⟨halike, ?_⟩
          rw [published_cons, filter_sent? hs, heard_of_not_concerns hbody, hpublished]
          rfl

/-! ## Sessions -/

/-- What a session lets one see of a document. -/
structure View where
  published : List Sent
  document? : Option Document
  history : List Definition
  outcome : Outcome

def view (s : Server) (uri : Bytes) (source : Source) : View where
  published := s.published uri (served source)
  document? := (s.serve source).1.document? uri
  history := (s.serve source).1.store.history uri
  outcome := (s.serve source).2

theorem snd_serve {s : Server} (hsink : s.sink.capacity? = none) (source : Source) :
    (s.serve source).2 =
      if (Frame.readAll source).1.any isExit then (s.after (served source)).exitOutcome
      else .ofFrameError (Frame.readAll source).2 := by
  rw [serve_eq hsink]
  split
  next hnone =>
    have hall : ∀ body ∈ (Frame.readAll source).1, isExit body = false := by
      simpa using hnone
    have hany : (Frame.readAll source).1.any isExit = false := by
      simpa using hall
    simp [hany]
  next body later hlater =>
    have hexits := exitsAt_of_dropWhile hlater
    have hmem : body ∈ (Frame.readAll source).1 :=
      hexits.read.subset (List.mem_append_right _ (List.mem_singleton_self body))
    have hany : (Frame.readAll source).1.any isExit = true :=
      List.any_eq_true.mpr ⟨body, hmem, hexits.exit⟩
    simp [hany]

theorem takeWhile_filter_concerns (uri : Bytes) (bodies : List Bytes) :
    ((bodies.filter (concerns uri)).takeWhile fun body => !isExit body) =
        (bodies.takeWhile fun body => !isExit body).filter (concerns uri) ∧
      (bodies.filter (concerns uri)).any isExit = bodies.any isExit := by
  -- The message that ends a session is no event, so it is never among those left out.
  have hexit : ∀ body, isExit body = true → concerns uri body = true :=
    fun body h => concerns_of_isExit h uri
  constructor
  · rw [List.takeWhile_filter]
    congr 2
    funext body
    cases h : isExit body with
    | true => simp [hexit body h]
    | false => simp
  · rw [List.any_filter]
    congr 1
    funext body
    cases h : isExit body with
    | true => simp [hexit body h]
    | false => simp

theorem view_eq_of_concerns {s : Server} (hsink : s.sink.capacity? = none) (uri : Bytes)
    (source : Source) :
    let heeded := (served source).filter (concerns uri)
    s.view uri source =
      { published := s.published uri heeded
        document? := (s.after heeded).document? uri
        history := (s.after heeded).store.history uri
        outcome :=
          if (Frame.readAll source).1.any isExit then (s.after heeded).exitOutcome
          else .ofFrameError (Frame.readAll source).2 } := by
  intro heeded
  obtain ⟨halike, hpublished⟩ := (Alike.refl uri s).after_filter hsink hsink (served source)
  obtain ⟨log, hserve⟩ := exists_serve_fst_eq hsink source
  have hdocument : (s.serve source).1.document? uri = (s.after heeded).document? uri := by
    rw [hserve]
    exact halike.document_eq
  have hhistory : (s.serve source).1.store.history uri = (s.after heeded).store.history uri := by
    rw [hserve]
    exact halike.history_eq
  have hexit : (s.after (served source)).exitOutcome = (s.after heeded).exitOutcome := by
    rw [exitOutcome, exitOutcome, halike.stopping_eq]
  rw [view, hdocument, hhistory, snd_serve hsink, hexit, hpublished]

/-- A document sees the same of two streams if they differ in events of other documents only. -/
theorem view_eq {s : Server} (hsink : s.sink.capacity? = none) {uri : Bytes}
    {first second : Source}
    (hbodies : (Frame.readAll first).1.filter (concerns uri) =
      (Frame.readAll second).1.filter (concerns uri))
    (hend : (Frame.readAll first).2 = (Frame.readAll second).2) :
    s.view uri first = s.view uri second := by
  have hserved : (served first).filter (concerns uri) = (served second).filter (concerns uri) := by
    rw [served, served, ← (takeWhile_filter_concerns uri _).1, hbodies,
      (takeWhile_filter_concerns uri _).1]
  have hany : (Frame.readAll first).1.any isExit = (Frame.readAll second).1.any isExit := by
    rw [← (takeWhile_filter_concerns uri _).2, hbodies, (takeWhile_filter_concerns uri _).2]
  rw [view_eq_of_concerns hsink, view_eq_of_concerns hsink, hserved, hany, hend]

/-! ## Sessions of frames -/

def session (frames : List Envelope) (tail : Source) : Source :=
  { tail with bytes := frames.flatMap Envelope.bytes ++ tail.bytes }

theorem readAll_session (frames : List Envelope) (tail : Source) :
    Frame.readAll (session frames tail) =
      (frames.map Envelope.content ++ (Frame.readAll tail).1, (Frame.readAll tail).2) :=
  Envelope.readAll_flatMap_append frames tail.bytes tail.failure?

theorem view_session_eq {s : Server} (hsink : s.sink.capacity? = none) {uri : Bytes}
    {first second : List Envelope}
    (h : (first.filter fun f => concerns uri f.content) =
      second.filter fun f => concerns uri f.content) (tail : Source) :
    s.view uri (session first tail) = s.view uri (session second tail) := by
  have hcontents : (first.map Envelope.content).filter (concerns uri) =
      (second.map Envelope.content).filter (concerns uri) := by
    rw [List.filter_map, List.filter_map]
    exact congrArg (List.map Envelope.content) h
  apply view_eq hsink
  · rw [readAll_session, readAll_session, List.filter_append, List.filter_append, hcontents]
  · rw [readAll_session, readAll_session]

theorem output_serve {s : Server} (hsink : s.sink.capacity? = none) (source : Source) :
    (s.serve source).1.sink.output =
      s.sink.output ++ (s.transcript (served source)).flatMap Sent.frame := by
  have hdelivers : ∀ bodies : List Bytes, s.Throughout Delivers bodies := by
    intro bodies
    induction bodies generalizing s with
    | nil => trivial
    | cons body bodies ih =>
        exact ⟨delivers_of_unlimited hsink body, ih (unlimited_handle hsink body)⟩
  obtain ⟨log, hserve⟩ := exists_serve_fst_eq hsink source
  rw [hserve]
  exact output_after _ s (hdelivers _)

/-- A document sees the same of a session without the events of other documents: what is published
for it, its text and version, its history, and how the session ends. So events of two documents may
come in any order that keeps the order of each. What is published is part of the output. -/
theorem view_session (s : Server) (hsink : s.sink.capacity? = none) (tail : Source) :
    (∀ source, (s.serve source).1.sink.output =
      s.sink.output ++ (s.transcript (served source)).flatMap Sent.frame) ∧
    (∀ uri frames, s.view uri (session (frames.filter fun f => concerns uri f.content) tail) =
      s.view uri (session frames tail)) ∧
    ∀ uri other before first second after,
      (∀ f ∈ first ++ second, about? f.content = some uri ∨ about? f.content = some other) →
      (∀ u ∈ [uri, other], (first.filter fun f => about? f.content = some u) =
        second.filter fun f => about? f.content = some u) →
      ∀ u ∈ [uri, other], s.view u (session (before ++ first ++ after) tail) =
        s.view u (session (before ++ second ++ after) tail) := by
  refine ⟨output_serve hsink, ?_, ?_⟩
  · intro uri frames
    apply view_session_eq hsink
    simp
  · intro uri other before first second after hevents horder u hu
    have habout : ∀ f ∈ first ++ second,
        concerns u f.content = decide (about? f.content = some u) := by
      intro f hf
      have hevent : about? f.content ≠ none := by
        rcases hevents f hf with huri | hother
        · simp [huri]
        · simp [hother]
      simp [concerns, hevent]
    have hmiddle : (first.filter fun f => concerns u f.content) =
        second.filter fun f => concerns u f.content := by
      rw [List.filter_congr fun f hf => habout f (List.mem_append_left second hf),
        List.filter_congr fun f hf => habout f (List.mem_append_right first hf), horder u hu]
    apply view_session_eq hsink
    simp only [List.filter_append, hmiddle]

/-- A document that is opened sees nothing of another one that is opened before it or behind it. -/
theorem view_session_opened_beside :
    let s := fresh {} [] {} 0 {} []
    let start : Body := ⟨(Json.record [("id", .int 1),
      ("method", .text (utf8 "initialize"))]).render, by decide +kernel, by decide +kernel⟩
    let opening : Body := ⟨(Json.record [("method", .text (utf8 "textDocument/didOpen")),
      ("params", .record [("textDocument", .record [("uri", .text (utf8 "a")),
        ("text", .text (utf8 "[A"))])])]).render, by decide +kernel, by decide +kernel⟩
    let other : Body := ⟨(Json.record [("method", .text (utf8 "textDocument/didOpen")),
      ("params", .record [("textDocument", .record [("uri", .text (utf8 "b"))])])]).render,
      by decide +kernel, by decide +kernel⟩
    let view := fun bodies =>
      s.view (utf8 "a") (session (bodies.map Envelope.plain) ⟨[], none⟩)
    s.sink.capacity? = none ∧ view [start, opening] = view [start, other, opening] ∧
      view [start, opening, other] = view [start, other, opening] := by
  intro s start opening other view
  have hne : utf8 "b" ≠ utf8 "a" := by decide
  have hstart : about? (Envelope.plain start).content = none := by decide +kernel
  have hopening : about? (Envelope.plain opening).content = some (utf8 "a") := by decide +kernel
  have hother : about? (Envelope.plain other).content = some (utf8 "b") := by decide +kernel
  obtain ⟨-, hfilter, horder⟩ := view_session s rfl ⟨[], none⟩
  refine ⟨rfl, ?_, ?_⟩
  · have hkept : (([start, other, opening].map Envelope.plain).filter
        fun f => concerns (utf8 "a") f.content) = [start, opening].map Envelope.plain := by
      simp [concerns, hstart, hopening, hother, hne]
    have hview := hfilter (utf8 "a") ([start, other, opening].map Envelope.plain)
    rw [hkept] at hview
    exact hview
  · have hview := horder (utf8 "a") (utf8 "b") [.plain start] [.plain opening, .plain other]
      [.plain other, .plain opening] [] (by simp [hopening, hother])
      (by simp [hopening, hother, hne, hne.symm]) (utf8 "a") List.mem_cons_self
    exact hview

end DefinitionFiles.Server
