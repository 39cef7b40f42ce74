import DefinitionFiles.Proofs.Rpc.Envelope
import DefinitionFiles.Proofs.Server.Session

/-!
# Serving a stream

Into a sink without a limit a server can send everything. It then handles the bodies of a stream
one after the other up to the first message that ends the session, and nothing behind that message
has an effect. Without such a message it goes on to the place where there is no further frame.
-/

namespace DefinitionFiles.Server

open Rpc

/-- Whether a body ends the session. -/
def isExit (body : Bytes) : Bool :=
  match Message.parse? body with
  | some m => m.method = utf8 "exit"
  | none => false

/-- The bodies of a stream before the first one that ends the session. -/
def served (source : Source) : List Bytes :=
  (Frame.readAll source).1.takeWhile fun body => !isExit body

/-- A body of a stream that ends the session, and the bodies before it. -/
structure ExitsAt (source : Source) (earlier : List Bytes) (body : Bytes) : Prop where
  read : earlier ++ [body] <+: (Frame.readAll source).1
  exit : isExit body = true
  first : ∀ other ∈ earlier, isExit other = false

theorem isExit_of_mem_served {source : Source} {body : Bytes} (h : body ∈ served source) :
    isExit body = false := by
  simpa using List.mem_takeWhile_imp h

theorem ExitsAt.dropWhile_eq {source : Source} {earlier : List Bytes} {body : Bytes}
    (h : ExitsAt source earlier body) :
    served source = earlier ∧
      ∃ later, ((Frame.readAll source).1.dropWhile fun body => !isExit body) = body :: later := by
  obtain ⟨later, hlater⟩ := h.read
  have hearlier : ∀ other ∈ earlier, (!isExit other) = true := by simpa using h.first
  rw [served, ← hlater, List.append_assoc, List.singleton_append,
    List.takeWhile_append_of_pos hearlier, List.dropWhile_append_of_pos hearlier]
  exact ⟨by simp [h.exit], later, by simp [h.exit]⟩

theorem exitsAt_of_dropWhile {source : Source} {body : Bytes} {later : List Bytes}
    (h : ((Frame.readAll source).1.dropWhile fun body => !isExit body) = body :: later) :
    ExitsAt source (served source) body where
  read := by
    refine ⟨later, ?_⟩
    rw [List.append_assoc, List.singleton_append, ← h]
    exact List.takeWhile_append_dropWhile
  exit := by
    have hhead := List.head?_dropWhile_not (fun body => !isExit body) (Frame.readAll source).1
    simpa [h] using hhead
  first _ hother := isExit_of_mem_served hother

/-! ## Sinks without a limit -/

/-- Every message that a server sends has a JSON form. -/
theorem exists_toJson_of_sending? {s : Server} {body : Bytes} {m : Sent}
    (h : s.sending? body = some m) : ∃ j, m.message.toJson = .ok j := by
  unfold sending? at h
  split at h
  next e _ =>
    have hnotice := uri?_of_notice? h
    cases m with
    | notice uri version? diagnostics => exact ⟨_, rfl⟩
    | answer m => cases hnotice
  next =>
    unfold answer? at h
    split at h
    next =>
      cases h
      exact ⟨_, rfl⟩
    next m _ =>
      split at h
      · cases h
      · cases h
        simp only [Sent.message, reply]
        split <;> exact ⟨_, rfl⟩

theorem delivers_of_unlimited {s : Server} (h : s.sink.capacity? = none) (body : Bytes) :
    s.Delivers body := by
  intro m hm
  obtain ⟨j, hjson⟩ := exists_toJson_of_sending? hm
  exact (Sink.send_of_unlimited h hjson).1

theorem unlimited_handle {s : Server} (h : s.sink.capacity? = none) (body : Bytes) :
    (s.handle body).1.sink.capacity? = none := by
  rw [sink_handle]
  cases hsending : s.sending? body with
  | none => exact h
  | some m =>
      obtain ⟨j, hjson⟩ := exists_toJson_of_sending? hsending
      exact (Sink.send_of_unlimited h hjson).2

theorem unlimited_after {s : Server} (h : s.sink.capacity? = none) (bodies : List Bytes) :
    (s.after bodies).sink.capacity? = none := by
  induction bodies generalizing s with
  | nil => exact h
  | cons body bodies ih => exact ih (unlimited_handle h body)

/-! ## Outcomes -/

/-- The outcome of a session that a message ends. -/
def exitOutcome (s : Server) : Outcome :=
  if s.stopping then .finished else .exitWithoutShutdown

theorem snd_send {s : Server} (h : s.sink.capacity? = none) {m : Outgoing} {j : Json}
    (hjson : m.toJson = .ok j) : (s.send m).2 = none :=
  (Sink.send_of_unlimited h hjson).1

theorem snd_dispatch {s : Server} (h : s.sink.capacity? = none) (m : Message) :
    (s.dispatch m).2 = none := by
  unfold dispatch
  generalize hnoted : s.note _ _ _ = noted
  have hsink : noted.sink = s.sink := by
    rw [← hnoted]
    rfl
  simp only
  split
  next => split <;> rfl
  next =>
    obtain ⟨log, hstate⟩ := requested_eq noted m
    rcases hrequested : noted.requested m with ⟨t, result⟩
    rw [hrequested] at hstate
    have ht : t.sink.capacity? = none := by
      change t = _ at hstate
      rw [hstate]
      exact hsink ▸ h
    cases result with
    | ok result => exact snd_send (m := .result (identifierOf m) (.json result)) ht rfl
    | error refusal => exact snd_send (m := .failure (identifierOf m) refusal.failure) ht rfl

/-- Only a message that ends the session does so. -/
theorem snd_handle {s : Server} (h : s.sink.capacity? = none) (body : Bytes) :
    (s.handle body).2 = if isExit body then some s.exitOutcome else none := by
  unfold handle isExit
  cases Message.parse? body with
  | none =>
      have hnoted : ∀ level fields text, (s.note level fields text).sink.capacity? = none :=
        fun _ _ _ => h
      simp only [Bool.false_eq_true, if_false, Option.map_eq_none_iff]
      let f := (Refusal.malformed (s.wording.malformed body)).failure
      exact snd_send (m := .failure .null f) (hnoted _ _ _) rfl
  | some m =>
      by_cases hexit : m.method = utf8 "exit"
      · simp [hexit, exitOutcome]
      · simp [hexit, snd_dispatch h m]

theorem advance_of_error {s : Server} {source : Source} {e : FrameError}
    (h : Frame.read source = .error e) : s.advance source = (s, .error (.ofFrameError e)) := by
  simp [advance, h]

theorem advance_of_ok {s : Server} (hsink : s.sink.capacity? = none) {source rest : Source}
    {body : Bytes} (h : Frame.read source = .ok (body, rest)) :
    s.advance source =
      ((s.handle body).1, if isExit body then .error s.exitOutcome else .ok rest) := by
  have houtcome := snd_handle hsink body
  rcases hhandle : s.handle body with ⟨t, outcome?⟩
  rw [hhandle] at houtcome
  simp only at houtcome
  subst houtcome
  cases hexit : isExit body <;> simp [advance, h, hhandle, hexit]

/-- A stream is served up to the message that ends the session, or else to its last frame. -/
theorem serve_eq {s : Server} (hsink : s.sink.capacity? = none) (source : Source) :
    s.serve source =
      match (Frame.readAll source).1.dropWhile fun body => !isExit body with
      | [] => (s.after (served source), .ofFrameError (Frame.readAll source).2)
      | body :: _ =>
          (((s.after (served source)).handle body).1, (s.after (served source)).exitOutcome) := by
  unfold served
  -- Each step of the session takes the frame off the stream that `readAll` takes off it; only one
  -- that ends the session keeps the server from going on.
  fun_induction serve s source with
  | case1 s source t outcome hadvance =>
      cases hread : Frame.read source with
      | error e =>
          rw [advance_of_error hread] at hadvance
          cases hadvance
          simp [Frame.readAll_of_error hread, after]
      | ok found =>
          obtain ⟨body, rest⟩ := found
          rw [advance_of_ok hsink hread] at hadvance
          cases hexit : isExit body with
          | false =>
              rw [hexit] at hadvance
              cases hadvance
          | true =>
              rw [hexit] at hadvance
              cases hadvance
              simp [Frame.readAll_of_ok hread, hexit, after]
  | case2 s source t later hadvance ih =>
      cases hread : Frame.read source with
      | error e =>
          rw [advance_of_error hread] at hadvance
          cases hadvance
      | ok found =>
          obtain ⟨body, rest⟩ := found
          rw [advance_of_ok hsink hread] at hadvance
          cases hexit : isExit body with
          | true =>
              rw [hexit] at hadvance
              cases hadvance
          | false =>
              rw [hexit] at hadvance
              cases hadvance
              rw [ih (unlimited_handle hsink body)]
              simp [Frame.readAll_of_ok hread, hexit, after]

/-- What a server does with a stream is over with the message that ends the session. -/
theorem serve_of_exitsAt {s : Server} (hsink : s.sink.capacity? = none) {source : Source}
    {earlier : List Bytes} {body : Bytes} (h : ExitsAt source earlier body) :
    s.serve source = (((s.after earlier).handle body).1, (s.after earlier).exitOutcome) := by
  obtain ⟨hserved, later, hlater⟩ := h.dropWhile_eq
  rw [serve_eq hsink, hlater, hserved]

/-- A session has an outcome other than that of a stream without a further frame only where a
message ends it. -/
theorem snd_serve_eq_iff {s : Server} (hsink : s.sink.capacity? = none) (source : Source)
    {outcome : Outcome} (hother : ∀ e, Outcome.ofFrameError e ≠ outcome) :
    (s.serve source).2 = outcome ↔
      ∃ earlier body, ExitsAt source earlier body ∧ (s.after earlier).exitOutcome = outcome := by
  constructor
  · intro houtcome
    rw [serve_eq hsink] at houtcome
    split at houtcome
    next => exact absurd houtcome (hother _)
    next body later hlater =>
      exact ⟨served source, body, exitsAt_of_dropWhile hlater, houtcome⟩
  · rintro ⟨earlier, body, hexits, houtcome⟩
    rw [serve_of_exitsAt hsink hexits]
    exact houtcome

theorem handle_of_isExit {body : Bytes} (h : isExit body = true) (s : Server) :
    ∃ log, (s.handle body).1 = { s with log := log } := by
  unfold isExit at h
  split at h
  next m hparse =>
    have hmethod : m.method = utf8 "exit" := by simpa using h
    refine ⟨(s.handle body).1.log, ?_⟩
    simp [handle, hparse, hmethod, note]
  next => cases h

/-- Apart from the log, a server is left as the bodies that it served left it. -/
theorem exists_serve_fst_eq {s : Server} (hsink : s.sink.capacity? = none) (source : Source) :
    ∃ log, (s.serve source).1 = { s.after (served source) with log := log } := by
  rw [serve_eq hsink]
  split
  next => exact ⟨_, rfl⟩
  next body later hlater =>
    exact handle_of_isExit (exitsAt_of_dropWhile hlater).exit _

end DefinitionFiles.Server
