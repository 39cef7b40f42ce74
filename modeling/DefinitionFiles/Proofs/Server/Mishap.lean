import DefinitionFiles.Proofs.Server.Session

/-!
# Notifications that fail

A notification that fails for another reason than the sink records nothing and sends nothing. Most
leave every document as it is, too. The exception is a batch of changes with a reversed one: the
changes before it stay in the text, which is not read again, and the version stays the old one.
-/

namespace DefinitionFiles

/-- A batch that fails leaves what the changes before the reversed one make of the text. -/
theorem Change.applyFrom_take {index : Nat} {text left : Bytes} {changes : List Change}
    {e : Reversed} (h : applyFrom index text changes = (left, some e)) :
    index ≤ e.index ∧ applyFrom index text (changes.take (e.index - index)) = (left, none) := by
  induction changes generalizing index text with
  | nil => cases h
  | cons c rest ih =>
      rw [applyFrom] at h
      cases hedit : c.edit? text with
      | none =>
          rw [hedit] at h
          cases h
          simp [applyFrom]
      | some edited =>
          rw [hedit] at h
          obtain ⟨hindex, hrest⟩ := ih h
          have hcount : e.index - index = (e.index - (index + 1)) + 1 := by omega
          refine ⟨by omega, ?_⟩
          rw [hcount, List.take_succ_cons, applyFrom, hedit]
          exact hrest

theorem Document.apply_take {d left : Document} {changes : List Change} {e : Change.Reversed}
    (h : d.apply changes = (left, some e)) : d.apply (changes.take e.index) = (left, none) := by
  unfold Document.apply at h ⊢
  rcases happlied : Change.applyFrom 0 d.text changes with ⟨text, reversed?⟩
  rw [happlied] at h
  cases h
  have htake := (Change.applyFrom_take happlied).2
  rw [Nat.sub_zero] at htake
  rw [htake]

namespace Server

open Rpc

/-- What a notification that failed leaves of an open document. -/
def Mishap.leaves (e : Mishap) (m : Message) (d : Document) : Document :=
  match e, Event.ofMessage? m with
  | .reversed uri change, some (.changed c) =>
      if d.uri = uri then (d.apply (c.changes.items.take change.index)).1 else d
  | _, _ => d

/-- Only changes before the reversed one have an effect. -/
theorem Mishap.leaves_of_first {e : Mishap} {m : Message}
    (h : ∀ uri change, e = .reversed uri change → change.index = 0) : e.leaves m = id := by
  funext d
  unfold Mishap.leaves
  split
  next uri change c _ =>
    rw [h uri change rfl, List.take_zero]
    exact ite_self d
  next => rfl

theorem review_snd {s : Server} {d : Document} {e : Mishap} (h : (s.review d).2 = some e) :
    ∃ cause, e = .unsent cause := by
  obtain ⟨cause, -, hcause⟩ := Option.map_eq_some_iff.mp h
  exact ⟨cause, hcause.symm⟩

/-- A change fails because its document is not open, or because it is reversed. -/
theorem changed_of_mishap {s : Server} {c : Changed} {e : Mishap}
    (h : (s.changed c).2 = some e) (hsent : ∀ cause, e ≠ .unsent cause) :
    (e = .unopened c.uri ∧ (s.changed c).1 = s) ∨
      ∃ d left change, e = .reversed c.uri change ∧ s.document? c.uri = some d ∧
        d.apply (c.changes.items.take change.index) = (left, none) ∧
        (s.changed c).1 = s.put left := by
  cases hd : s.document? c.uri with
  | none =>
      have hchanged : s.changed c = (s, some (.unopened c.uri)) := by simp only [changed, hd]
      rw [hchanged] at h ⊢
      cases h
      exact .inl ⟨rfl, rfl⟩
  | some d =>
      rcases happly : d.apply c.changes.items with ⟨left, _ | change⟩
      · have hchanged : s.changed c = (s.put { left with version := c.version }).review
            { left with version := c.version } := by
          simp only [changed, hd, happly]
        rw [hchanged] at h
        obtain ⟨cause, rfl⟩ := review_snd h
        exact absurd rfl (hsent cause)
      · have hchanged : s.changed c = (s.put left, some (.reversed left.uri change)) := by
          simp only [changed, hd, happly]
        have huri : left.uri = c.uri :=
          (congrArg (·.1.uri) happly).symm.trans (uri_of_document? hd)
        rw [hchanged] at h ⊢
        cases h
        rw [huri]
        exact .inr ⟨d, left, change, rfl, rfl, Document.apply_take happly, rfl⟩

theorem withParams_cases {α : Type} (s : Server) (m : Message) (update : Json.Update α) (start : α)
    (handle : Server → α → Server × Option Mishap) (event : α → Event)
    (htake : ∀ a, handle s a = s.take (event a)) :
    s.withParams m update start handle =
        (s, some (.invalidParams (s.wording.invalidParams m.method m.params))) ∨
      ∃ e, (params? update start m.params).map event = some e ∧
        s.withParams m update start handle = s.take e := by
  unfold withParams
  cases params? update start m.params with
  | none => exact .inl rfl
  | some a => exact .inr ⟨event a, rfl, htake a⟩

/-- A notification is passed over, has parameters that cannot be read, or reports an event. -/
theorem notified_cases (s : Server) (m : Message) :
    s.notified m = (s, none) ∨
      s.notified m = (s, some (.invalidParams (s.wording.invalidParams m.method m.params))) ∨
      ∃ e, Event.ofMessage? m = some e ∧ s.notified m = s.take e := by
  unfold notified Event.ofMessage?
  split
  next => exact .inl rfl
  next =>
    split
    next => exact .inr (withParams_cases s m _ _ _ _ fun _ => rfl)
    next =>
      split
      next => exact .inr (withParams_cases s m _ _ _ _ fun _ => rfl)
      next =>
        split
        next => exact .inr (withParams_cases s m _ _ _ _ fun _ => rfl)
        next => exact .inl rfl

/-- What a failed notification leaves: the server as it was, or a batch applied up to the reversed
change. -/
theorem notified_of_mishap {s : Server} {m : Message} {e : Mishap}
    (h : (s.notified m).2 = some e) (hsent : ∀ cause, e ≠ .unsent cause) :
    ((∀ uri change, e ≠ .reversed uri change) ∧ (s.notified m).1 = s) ∨
      ∃ c d left change, Event.ofMessage? m = some (.changed c) ∧ e = .reversed c.uri change ∧
        s.document? c.uri = some d ∧
        d.apply (c.changes.items.take change.index) = (left, none) ∧
        (s.notified m).1 = s.put left := by
  rcases notified_cases s m with hnothing | hinvalid | ⟨event, hevent, htake⟩
  · rw [hnothing] at h
    cases h
  · rw [hinvalid] at h ⊢
    cases h
    exact .inl ⟨fun _ _ => nofun, rfl⟩
  · rw [htake] at h ⊢
    cases event with
    | opened o =>
        obtain ⟨cause, rfl⟩ := review_snd h
        exact absurd rfl (hsent cause)
    | closed uri =>
        obtain ⟨cause, -, hcause⟩ := Option.map_eq_some_iff.mp h
        exact absurd hcause.symm (hsent cause)
    | changed c =>
        rcases changed_of_mishap h hsent with ⟨rfl, hkept⟩ | ⟨d, left, change, hreversed⟩
        · exact .inl ⟨fun _ _ => nofun, hkept⟩
        · exact .inr ⟨c, d, left, change, hevent, hreversed⟩

theorem changed_log (s : Server) (log : List Log.Entry) (c : Changed) :
    ({ s with log := log }.changed c).2 = (s.changed c).2 := by
  have hdocument : { s with log := log }.document? c.uri = s.document? c.uri := rfl
  simp only [changed, hdocument]
  cases s.document? c.uri with
  | none => rfl
  | some d =>
      rcases happly : d.apply c.changes.items with ⟨left, _ | change⟩
      · simp only [happly]
        rfl
      · simp only [happly]

theorem withParams_log {α : Type} (s : Server) (log : List Log.Entry) (m : Message)
    (update : Json.Update α) (start : α) (handle : Server → α → Server × Option Mishap)
    (hhandle : ∀ a, (handle { s with log := log } a).2 = (handle s a).2) :
    ({ s with log := log }.withParams m update start handle).2 =
      (s.withParams m update start handle).2 := by
  unfold withParams
  cases params? update start m.params with
  | none => rfl
  | some a => exact hhandle a

/-- Whether a notification fails does not depend on the log. -/
theorem notified_log (s : Server) (log : List Log.Entry) (m : Message) :
    ({ s with log := log }.notified m).2 = (s.notified m).2 := by
  unfold notified
  split
  next => rfl
  next =>
    split
    next => exact withParams_log s log m _ _ _ fun _ => rfl
    next =>
      split
      next => exact withParams_log s log m _ _ _ (changed_log s log)
      next =>
        split
        next => exact withParams_log s log m _ _ _ fun _ => rfl
        next => rfl

theorem notified_exit {m : Message} (h : m.method = utf8 "exit") (s : Server) :
    s.notified m = (s, none) := by
  unfold notified
  split
  next => rfl
  next => rw [h, if_neg (by decide), if_neg (by decide), if_neg (by decide)]

theorem document?_of_mishap {s : Server} {m : Message} {e : Mishap}
    (h : (s.notified m).2 = some e) (hsent : ∀ cause, e ≠ .unsent cause) (uri : Bytes) :
    (s.notified m).1.document? uri = (s.document? uri).map (e.leaves m) := by
  rcases notified_of_mishap h hsent with
    ⟨hother, hkept⟩ | ⟨c, d, left, change, hevent, rfl, hd, happly, hput⟩
  · have hleaves : e.leaves m = id :=
      Mishap.leaves_of_first fun uri change heq => absurd heq (hother uri change)
    rw [hkept, hleaves, Option.map_id, id]
  · have huri : left.uri = c.uri :=
      (congrArg (·.1.uri) happly).symm.trans (uri_of_document? hd)
    rw [hput, document?_put, huri]
    split
    next heq =>
      subst heq
      simp [hd, Mishap.leaves, hevent, uri_of_document? hd, happly]
    next hne =>
      cases hother : s.document? uri with
      | none => rfl
      | some other =>
          have hkept : other.uri ≠ c.uri := by
            rw [uri_of_document? hother]
            exact Ne.symm hne
          simp [Mishap.leaves, hevent, hkept]

theorem store_of_mishap {s : Server} {m : Message} {e : Mishap}
    (h : (s.notified m).2 = some e) (hsent : ∀ cause, e ≠ .unsent cause) :
    (s.notified m).1.store = s.store ∧ (s.notified m).1.sink = s.sink := by
  rcases notified_of_mishap h hsent with ⟨-, hkept⟩ | ⟨c, d, left, change, -, -, -, -, hput⟩
  · rw [hkept]
    exact ⟨rfl, rfl⟩
  · rw [hput]
    exact ⟨rfl, rfl⟩

/-- A notification that fails for another reason than the sink leaves the store and the output as
they are. Of the documents it changes one at most: the text of the one whose batch was applied in
part, which takes a reversed change that is not the first of its batch. -/
theorem handle_of_mishap (s : Server) (body : Bytes) (m : Message) (e : Mishap)
    (hparse : Message.parse? body = some m) (hm : m.isNotification = true)
    (hmishap : (s.notified m).2 = some e) (hsent : ∀ cause, e ≠ .unsent cause) :
    (s.handle body).1.store = s.store ∧ (s.handle body).1.sink = s.sink ∧
      (∀ uri, (s.handle body).1.document? uri = (s.document? uri).map (e.leaves m)) ∧
      ((∀ uri change, e = .reversed uri change → change.index = 0) →
        ∀ uri, (s.handle body).1.document? uri = s.document? uri) := by
  have hexit : m.method ≠ utf8 "exit" := by
    intro hexit
    rw [notified_exit hexit] at hmishap
    cases hmishap
  obtain ⟨log, log', hdispatch⟩ := dispatch_of_notification hm s
  have hlogged : ({ s with log := log }.notified m).2 = some e :=
    (notified_log s log m).trans hmishap
  have hdocuments := document?_of_mishap hlogged hsent
  rw [handle_of_parse hparse hexit, hdispatch]
  refine ⟨(store_of_mishap hlogged hsent).1, (store_of_mishap hlogged hsent).2, hdocuments, ?_⟩
  intro hfirst uri
  refine (hdocuments uri).trans ?_
  rw [Mishap.leaves_of_first hfirst, Option.map_id, id]
  rfl

/-- A change of a document that is not open is such a notification. -/
theorem handle_of_mishap_unopened :
    let s := (fresh {} [] {} 0 {} []).after
      [(Json.record [("id", .int 1), ("method", .text (utf8 "initialize"))]).render]
    let params := Json.record [("textDocument", .record [("uri", .text (utf8 "u"))])]
    let m : Message := { method := utf8 "textDocument/didChange", params := params.render }
    let body := (Json.record [("method", .text m.method), ("params", params)]).render
    (Message.parse? body = some m ∧ (s.notified m).2 = some (.unopened (utf8 "u"))) ∧
      (s.handle body).1.store = s.store ∧ (s.handle body).1.sink = s.sink ∧
      ∀ uri, (s.handle body).1.document? uri = s.document? uri := by
  intro s params m body
  have hparse : Message.parse? body = some m := by decide +kernel
  have hmishap : (s.notified m).2 = some (.unopened (utf8 "u")) := by decide +kernel
  obtain ⟨hstore, hsink, -, hdocuments⟩ :=
    handle_of_mishap s body m (.unopened (utf8 "u")) hparse (by decide) hmishap fun _ => nofun
  exact ⟨⟨hparse, hmishap⟩, hstore, hsink, hdocuments fun _ _ => nofun⟩

/-- A batch whose second change is reversed fails, but its first change stays in the text. -/
theorem document?_of_second_reversed :
    let document := ("textDocument", Json.record [("uri", .text (utf8 "u"))])
    let insertion := Json.record [("range", .record []), ("text", .text (utf8 "X"))]
    let reversed := Json.record [("range", .record [("start", .record [("character", .int 1)])])]
    let s := (fresh {} [] {} 0 {} []).after ([
      [("id", .int 1), ("method", .text (utf8 "initialize"))],
      [("method", .text (utf8 "textDocument/didOpen")), ("params", .record [document])]].map
        fun members => (Json.record members).render)
    let body := (Json.record [("method", .text (utf8 "textDocument/didChange")),
      ("params", .record [document, ("contentChanges", .array [insertion, reversed])])]).render
    (Message.parse? body).map (fun m => (s.notified m).2) = some (some (.reversed (utf8 "u") ⟨1⟩)) ∧
      s.document? (utf8 "u") = some ⟨utf8 "u", 0, []⟩ ∧
      (s.handle body).1.document? (utf8 "u") = some ⟨utf8 "u", 0, utf8 "X"⟩ := by
  decide +kernel

end Server

end DefinitionFiles
