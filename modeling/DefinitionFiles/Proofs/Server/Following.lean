import DefinitionFiles.Proofs.Server.Step

/-!
# Following the events of a document

The open document and the history of a URI follow from the events of that URI, and so does what the
editor is told to show for it. An event of another URI changes none of them.
-/

namespace DefinitionFiles.Server

open Rpc

/-- The event of a document in a body, if the server takes notice of it. -/
def heard (s : Server) (uri body : Bytes) : List Event :=
  (s.event? body).toList.filter fun e => e.uri = uri

/-- Whether no change in a body is reversed. -/
def AppliesAll (s : Server) (body : Bytes) : Prop :=
  ∀ e ∈ s.event? body, s.Applies e

instance (s : Server) (body : Bytes) : Decidable (s.AppliesAll body) :=
  inferInstanceAs (Decidable (∀ e ∈ s.event? body, s.Applies e))

/-- The state that the events of one URI lead to. -/
structure Follows (settings : Settings) (limit : Nat) (uri : Bytes) (s : Server)
    (events : List Event) : Prop where
  settings_eq : s.settings = settings
  limit_eq : s.store.limit = limit
  document_eq : s.document? uri = Event.document? events
  history_eq : s.store.history uri = Store.newest limit
    ((Event.readings events).map fun d => (Definition.parse settings.dialect uri d.text).1)

namespace Follows

variable {settings : Settings} {limit : Nat} {uri : Bytes} {s : Server} {events : List Event}

/-- An event moves its own document on and leaves the others where they are. -/
theorem take (h : Follows settings limit uri s events) {e : Event} (happlies : s.Applies e) :
    Follows settings limit uri (s.take e).1
      (if e.uri = uri then events ++ [e] else events) where
  settings_eq := (settings_take s e).trans h.settings_eq
  limit_eq := (limit_take s e).trans h.limit_eq
  document_eq := by
    rw [happlies.document?_take]
    split
    next huri => rw [huri, h.document_eq, Event.document?_concat]
    next => exact h.document_eq
  history_eq := by
    rw [history_take]
    split
    next huri =>
      rw [Event.readings_concat, happlies.reading?_eq, huri, h.document_eq, h.limit_eq,
        h.settings_eq, h.history_eq]
      cases e.next (Event.document? events) with
      | none => simp
      | some d => simp [Store.newest_newest_append]
    next => exact h.history_eq

theorem handle (h : Follows settings limit uri s events) {body : Bytes}
    (happlies : s.AppliesAll body) :
    Follows settings limit uri (s.handle body).1 (events ++ s.heard uri body) := by
  cases hevent : s.event? body with
  | none =>
      obtain ⟨log, hstate⟩ := handle_of_no_event hevent
      rw [hstate, heard, hevent, Option.toList_none, List.filter_nil, List.append_nil]
      exact ⟨h.settings_eq, h.limit_eq, h.document_eq, h.history_eq⟩
  | some e =>
      obtain ⟨log, log', hstate⟩ := handle_of_event hevent
      have hlogged : Follows settings limit uri { s with log := log } events :=
        ⟨h.settings_eq, h.limit_eq, h.document_eq, h.history_eq⟩
      have htaken := hlogged.take (e := e) (happlies e hevent)
      have hheard : events ++ s.heard uri body =
          if e.uri = uri then events ++ [e] else events := by
        rw [heard, hevent]
        by_cases huri : e.uri = uri <;> simp [huri]
      rw [hstate, hheard]
      exact ⟨htaken.settings_eq, htaken.limit_eq, htaken.document_eq, htaken.history_eq⟩

/-- The newest definition of an open document is that of its text. -/
theorem latest?_eq (h : Follows settings limit uri s events) {d : Document}
    (hd : s.document? uri = some d) :
    s.store.latest? uri = some (Definition.parse settings.dialect uri d.text).1 := by
  have hlast := Event.getLast?_readings (h.document_eq.symm.trans hd)
  rw [Store.latest?, h.history_eq, Store.getLast?_newest, List.getLast?_map, hlast]
  rfl

end Follows

/-! ## What the editor is told to show -/

/-- The last notice for a document among messages sent. -/
def shown? (uri : Bytes) (messages : List Sent) : Option Sent :=
  (messages.filter fun m => m.uri? = some uri).getLast?

/-- What is to be shown for a document after events of its URI: what is found in it while it is
open, and nothing once it is closed. -/
def Event.notice? (settings : Settings) (uri : Bytes) (events : List Event) : Option Sent :=
  match Event.document? events with
  | some d => some (.ofDocument settings d)
  | none =>
      if (events.filterMap Event.opens?).getLast? = some false then some (.notice uri none [])
      else none

theorem Event.notice?_of_closed {settings : Settings} {uri : Bytes} {events : List Event}
    (hnone : Event.document? events = none) (hclosed : .closed uri ∈ events) :
    Event.notice? settings uri events = some (.notice uri none []) := by
  have hmem : false ∈ events.filterMap Event.opens? :=
    List.mem_filterMap.mpr ⟨_, hclosed, rfl⟩
  have hlast : (events.filterMap Event.opens?).getLast? = some false := by
    cases hmark : (events.filterMap Event.opens?).getLast? with
    | none =>
        rw [List.getLast?_eq_none_iff] at hmark
        rw [hmark] at hmem
        cases hmem
    | some mark =>
        cases mark with
        | false => rfl
        | true =>
            have hopen := (Event.isSome_document?_iff events).mpr hmark
            rw [hnone] at hopen
            cases hopen
  simp [Event.notice?, hnone, hlast]

theorem uri?_of_notice? {s : Server} {e : Event} {m : Sent} (h : s.notice? e = some m) :
    m.uri? = some e.uri := by
  cases e with
  | opened | closed =>
      cases h
      rfl
  | changed c =>
      obtain ⟨d, hd, rfl⟩ := Option.map_eq_some_iff.mp h
      exact congrArg some (take_of_reading? hd).2

theorem uri?_of_answer? {s : Server} {body : Bytes} {m : Sent} (h : s.answer? body = some m) :
    m.uri? = none := by
  unfold answer? at h
  split at h
  · cases h
    rfl
  · split at h
    · cases h
    · cases h
      rfl

theorem shown?_append_of_ne {uri : Bytes} {sent? : Option Sent}
    (h : ∀ m ∈ sent?, m.uri? ≠ some uri) (messages : List Sent) :
    shown? uri (messages ++ sent?.toList) = shown? uri messages := by
  cases sent? with
  | none => simp
  | some m => simp [shown?, h m rfl]

theorem shown?_append_of_eq {uri : Bytes} {sent? : Option Sent}
    (h : ∀ m ∈ sent?, m.uri? = some uri) (messages : List Sent) :
    shown? uri (messages ++ sent?.toList) = sent?.or (shown? uri messages) := by
  cases sent? with
  | none => simp
  | some m => simp [shown?, h m rfl]

namespace Follows

variable {settings : Settings} {limit : Nat} {uri : Bytes} {s : Server} {events : List Event}

/-- The notice of an event replaces what was shown for its document before. -/
theorem notice?_or (h : Follows settings limit uri s events) {e : Event} (happlies : s.Applies e)
    (huri : e.uri = uri) :
    (s.notice? e).or (Event.notice? settings uri events) =
      Event.notice? settings uri (events ++ [e]) := by
  have hread : s.reading? e = e.next (Event.document? events) := by
    rw [happlies.reading?_eq, huri, h.document_eq]
  cases e with
  | opened o =>
      simp [notice?, Event.notice?, Event.document?_concat, hread, h.settings_eq, Event.next]
  | closed u =>
      have hu : u = uri := huri
      simp [notice?, Event.notice?, Event.document?_concat, Event.next, Event.opens?, hu]
  | changed c =>
      simp only [notice?, Event.notice?, Event.document?_concat, hread, h.settings_eq]
      -- A change of a document that is not open sends nothing, and what was shown before stays.
      cases Event.document? events with
      | none => simp [Event.next, Event.opens?]
      | some d => simp [Event.next]

theorem shown?_handle (h : Follows settings limit uri s events) {messages : List Sent}
    (hshown : shown? uri messages = Event.notice? settings uri events) {body : Bytes}
    (happlies : s.AppliesAll body) :
    shown? uri (messages ++ (s.sending? body).toList) =
      Event.notice? settings uri (events ++ s.heard uri body) := by
  rw [sending?, heard]
  cases hevent : s.event? body with
  | none =>
      have hother : ∀ m ∈ s.answer? body, m.uri? ≠ some uri := by
        intro m hm
        simp [uri?_of_answer? hm]
      simpa [shown?_append_of_ne hother] using hshown
  | some e =>
      by_cases huri : e.uri = uri
      · have hsame : ∀ m ∈ s.notice? e, m.uri? = some uri := by
          intro m hm
          rw [uri?_of_notice? hm, huri]
        rw [shown?_append_of_eq hsame, hshown, h.notice?_or (happlies e hevent) huri]
        simp [huri]
      · have hother : ∀ m ∈ s.notice? e, m.uri? ≠ some uri := by
          intro m hm
          simpa [uri?_of_notice? hm] using huri
        rw [shown?_append_of_ne hother, hshown]
        simp [huri]

end Follows

end DefinitionFiles.Server
