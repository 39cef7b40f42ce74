import DefinitionFiles.Proofs.Server.Responses

/-!
# Interrupted output

A way to the editor may fail for good at any piece that is written to it. A server then goes on as
if everything were written, apart from the log: the documents, the store and the flags are the same
after every body, and the output is a first part of what would have been written. Only a response
that cannot be written ends the session; a notice that is lost does not.
-/

namespace DefinitionFiles

open Rpc

/-! ## Sinks that fail -/

namespace Sink

/-- What a sink without a limit would be if it took no more than a number of pieces. -/
def limited (n : Nat) (reason : Bytes) (s : Sink) : Sink where
  pieces := (s.pieces.reverse.take n).reverse
  capacity? := some (n - s.pieces.length)
  reason := reason

/-- Why a frame cannot be written behind what a sink has, if it takes no more than a number of
pieces. -/
def loss? (n : Nat) (reason : Bytes) (s : Sink) : Option SendError :=
  if s.pieces.length + 2 ≤ n then none
  else if s.pieces.length + 1 = n then some (.bodyFailed reason)
  else some (.headerFailed reason)

/-- The sink with one more piece. -/
def push (s : Sink) (piece : Bytes) : Sink :=
  { s with pieces := piece :: s.pieces }

variable {n : Nat} {reason : Bytes} {s : Sink}

theorem loss?_eq_none_iff : s.loss? n reason = none ↔ s.pieces.length + 2 ≤ n := by
  unfold loss?
  split_ifs <;> simp_all

theorem length_pieces_push (piece : Bytes) : (s.push piece).pieces.length = s.pieces.length + 1 :=
  rfl

theorem limited_push (h : n ≤ s.pieces.length) (piece : Bytes) :
    (s.push piece).limited n reason = s.limited n reason := by
  have hpieces : (s.push piece).pieces.reverse.take n = s.pieces.reverse.take n := by
    rw [push, List.reverse_cons, List.take_append_of_le_length (by simpa using h)]
  have hcapacity : n - (s.push piece).pieces.length = n - s.pieces.length := by
    rw [length_pieces_push]
    omega
  rw [limited, limited, hpieces, hcapacity]

theorem write?_limited (piece : Bytes) :
    (s.limited n reason).write? piece =
      if s.pieces.length < n then some ((s.push piece).limited n reason) else none := by
  split
  next hroom =>
    obtain ⟨room, hcapacity⟩ : ∃ room, n - s.pieces.length = room + 1 :=
      ⟨n - s.pieces.length - 1, by omega⟩
    have hold : s.pieces.reverse.take n = s.pieces.reverse :=
      List.take_of_length_le (by simpa using hroom.le)
    have hnew : (s.push piece).pieces.reverse.take n = (s.push piece).pieces.reverse :=
      List.take_of_length_le (by simpa [push] using Nat.succ_le_of_lt hroom)
    have hleft : n - (s.push piece).pieces.length = room := by
      rw [length_pieces_push]
      omega
    simp only [write?, limited, hcapacity, hold, hnew, hleft, List.reverse_reverse]
    rfl
  next hfull =>
    have hcapacity : n - s.pieces.length = 0 := by omega
    simp only [write?, limited, hcapacity]

theorem writeFrame_of_unlimited (h : s.capacity? = none) (body : Bytes) :
    s.writeFrame body = ((s.push (Frame.headerOf body)).push body, none) := by
  simp [writeFrame, write?, h, push]

theorem writeFrame_limited (body : Bytes) :
    (s.limited n reason).writeFrame body =
      (((s.push (Frame.headerOf body)).push body).limited n reason, s.loss? n reason) := by
  have hlost : n ≤ s.pieces.length + 1 →
      ((s.push (Frame.headerOf body)).push body).limited n reason =
        (s.push (Frame.headerOf body)).limited n reason :=
    fun hfull => limited_push hfull body
  rw [writeFrame, write?_limited]
  by_cases hheader : s.pieces.length < n
  · rw [if_pos hheader]
    dsimp only
    rw [write?_limited, length_pieces_push]
    by_cases hbody : s.pieces.length + 1 < n
    · rw [if_pos hbody, loss?, if_pos (by omega)]
    · rw [if_neg hbody, loss?, if_neg (by omega), if_pos (by omega), hlost (by omega)]
      rfl
  · rw [if_neg hheader, loss?, if_neg (by omega), if_neg (by omega), hlost (by omega),
      limited_push (by omega)]
    rfl

end Sink

/-! ## Two runs -/

namespace Server

/-- The server of a run in which writing fails from a piece on, beside that of the run in which
nothing fails. -/
def Mirrors (n : Nat) (reason : Bytes) (s t : Server) : Prop :=
  s.sink.capacity? = none ∧
    ∃ log, t = { s with sink := s.sink.limited n reason, log := log }

/-- What is done about an event depends neither on the way to the editor nor on the log. -/
theorem exists_take_eq (s : Server) (sink : Sink) (log : List Log.Entry) (e : Event) :
    ∃ log', ({ s with sink := sink, log := log }.take e).1 =
      { (s.take e).1 with sink := Sent.deliver sink (s.notice? e), log := log' } := by
  cases e with
  | opened o => exact ⟨_, rfl⟩
  | closed uri => exact ⟨_, rfl⟩
  | changed c =>
      have hagain : { s with sink := sink, log := log }.reading? (.changed c) =
          s.reading? (.changed c) := rfl
      cases hread : s.reading? (.changed c) with
      | some d =>
          have hnotice : s.notice? (.changed c) = some (.ofDocument s.settings d) := by
            simp [notice?, hread]
          rw [(take_of_reading? hread).1, (take_of_reading? (hagain.trans hread)).1, hnotice]
          exact ⟨_, rfl⟩
      | none =>
          -- Nothing is published about a document that is not open, or cannot be changed so.
          have hnotice : s.notice? (.changed c) = none := by simp [notice?, hread]
          have hdocument : { s with sink := sink, log := log }.document? c.uri =
              s.document? c.uri := rfl
          rw [hnotice]
          simp only [take, changed, hdocument]
          cases hd : s.document? c.uri with
          | none => exact ⟨_, rfl⟩
          | some d =>
              rcases hresult : d.apply c.changes.items with ⟨new, _ | reversed⟩
              · simp [reading?, hd, hresult] at hread
              · exact ⟨_, by simp only [hresult]; rfl⟩

theorem answer?_with (s : Server) (sink : Sink) (log : List Log.Entry) (body : Bytes) :
    { s with sink := sink, log := log }.answer? body = s.answer? body := by
  have hrequested : ∀ m, ({ s with sink := sink, log := log }.requested m).2 = (s.requested m).2 := by
    intro m
    unfold requested
    repeat' split
    all_goals rfl
  unfold answer? reply
  simp only [hrequested]

theorem sending?_with (s : Server) (sink : Sink) (log : List Log.Entry) (body : Bytes) :
    { s with sink := sink, log := log }.sending? body = s.sending? body := by
  have hevent : { s with sink := sink, log := log }.event? body = s.event? body := rfl
  unfold sending?
  rw [hevent, answer?_with]
  rfl

/-- Handling a body depends on the way to the editor and the log in nothing but these. -/
theorem exists_handle_eq (s : Server) (sink : Sink) (log : List Log.Entry) (body : Bytes) :
    ∃ log', ({ s with sink := sink, log := log }.handle body).1 =
      { (s.handle body).1 with
        sink := Sent.deliver sink (s.sending? body), log := log' } := by
  have hagain : { s with sink := sink, log := log }.event? body = s.event? body := rfl
  unfold sending?
  cases hevent : s.event? body with
  | none =>
      obtain ⟨_, hstate⟩ := handle_of_no_event hevent
      obtain ⟨log', hstate'⟩ := handle_of_no_event (hagain.trans hevent)
      exact ⟨log', by rw [hstate, hstate', answer?_with]⟩
  | some e =>
      obtain ⟨log₁, _, hstate⟩ := handle_of_event hevent
      obtain ⟨log₂, log', hstate'⟩ := handle_of_event (hagain.trans hevent)
      obtain ⟨_, htake⟩ : ∃ log', ({ s with log := log₁ }.take e).1 =
          { (s.take e).1 with sink := Sent.deliver s.sink (s.notice? e), log := log' } :=
        exists_take_eq s s.sink log₁ e
      obtain ⟨_, htake'⟩ := exists_take_eq s sink log₂ e
      exact ⟨log', by rw [hstate, hstate', htake, htake']⟩

/-! ## Step by step -/

/-- What a message looks like on its way to the editor, piece by piece. -/
def framePieces (j : Json) : List Bytes :=
  [Frame.headerOf j.render, j.render]

theorem deliver_of_unlimited {s : Server} (h : s.sink.capacity? = none) (body : Bytes) :
    ∃ messages : List Json, messages.length = (s.sending? body).toList.length ∧
      (Sent.deliver s.sink (s.sending? body)).pieces.reverse =
        s.sink.pieces.reverse ++ messages.flatMap framePieces ∧
      ∀ n reason, Sent.deliver (s.sink.limited n reason) (s.sending? body) =
        (Sent.deliver s.sink (s.sending? body)).limited n reason := by
  cases hsending : s.sending? body with
  | none => exact ⟨[], rfl, by simp [Sent.deliver], fun _ _ => rfl⟩
  | some m =>
      obtain ⟨j, hjson⟩ := exists_toJson_of_sending? hsending
      refine ⟨[j], rfl, ?_, fun n reason => ?_⟩
      · simp [Sent.deliver, Sink.send, hjson, Sink.writeFrame_of_unlimited h, Sink.push, framePieces]
      · simp [Sent.deliver, Sink.send, hjson, Sink.writeFrame_of_unlimited h,
          Sink.writeFrame_limited]

theorem Mirrors.handle {n : Nat} {reason : Bytes} {s t : Server} (h : Mirrors n reason s t)
    (body : Bytes) : Mirrors n reason (s.handle body).1 (t.handle body).1 := by
  obtain ⟨hsink, log, rfl⟩ := h
  obtain ⟨log', hstate⟩ := exists_handle_eq s (s.sink.limited n reason) log body
  obtain ⟨-, -, -, hlimited⟩ := deliver_of_unlimited hsink body
  refine ⟨unlimited_handle hsink body, log', ?_⟩
  rw [hstate, hlimited, sink_handle]

theorem Mirrors.after {n : Nat} {reason : Bytes} {s t : Server} (h : Mirrors n reason s t)
    (bodies : List Bytes) : Mirrors n reason (s.after bodies) (t.after bodies) := by
  induction bodies generalizing s t with
  | nil => exact h
  | cons body bodies ih => exact ih (h.handle body)

/-! ## Outcomes -/

theorem snd_dispatch_of_request {m : Message} (hm : m.isNotification = false) (s : Server) :
    (s.dispatch m).2 = (s.sink.send (s.reply m)).2 := by
  unfold dispatch
  simp only [hm, Bool.false_eq_true, if_false]
  generalize hnoted : s.note _ _ _ = noted
  obtain ⟨log, hstate⟩ := requested_eq noted m
  have hresult : (noted.requested m).2 = (s.requested m).2 := by
    rw [← hnoted]
    exact requested_log s _ m
  rcases hrequested : noted.requested m with ⟨t, result⟩
  rw [hrequested] at hstate hresult
  subst hnoted hstate
  cases result with
  | ok result => simp only [reply, ← hresult]; rfl
  | error refusal => simp only [reply, ← hresult]; rfl

theorem snd_dispatch_of_notification {m : Message} (hm : m.isNotification = true) (s : Server) :
    (s.dispatch m).2 = none := by
  unfold dispatch
  simp only [hm, if_true]
  split <;> rfl

/-- A body ends the session if it asks for that, or if it cannot be answered. -/
theorem snd_handle_eq (s : Server) (body : Bytes) :
    (s.handle body).2 =
      if isExit body then some s.exitOutcome
      else if expectsAnswer body then
        ((s.sending? body).bind fun m => (s.sink.send m.message).2).map .unsent
      else none := by
  cases hparse : Message.parse? body with
  | none =>
      simp only [isExit, expectsAnswer, hparse, sending?_of_malformed hparse, handle]
      rfl
  | some m =>
      by_cases hexit : m.method = utf8 "exit"
      · simp [handle, isExit, hparse, hexit, exitOutcome]
      · have hexit' : isExit body = false := by simp [isExit, hparse, hexit]
        cases hm : m.isNotification with
        | false =>
            simp [handle, hparse, hexit, hexit', expectsAnswer, hm, sending?_of_request hparse hm,
              snd_dispatch_of_request hm, Sent.message]
        | true =>
            simp [handle, hparse, hexit, hexit', expectsAnswer, hm, snd_dispatch_of_notification hm]

theorem exists_sending?_of_expectsAnswer {body : Bytes} (hexit : isExit body = false)
    (hexpects : expectsAnswer body = true) (s : Server) : ∃ m, s.sending? body = some m := by
  cases hparse : Message.parse? body with
  | none => exact ⟨_, sending?_of_malformed hparse s⟩
  | some m =>
      have hm : m.isNotification = false := by simpa [expectsAnswer, hparse] using hexpects
      exact ⟨_, sending?_of_request hparse hm hexit s⟩

/-- Of two runs one ends earlier only where a response is lost. -/
theorem Mirrors.snd_handle_eq {n : Nat} {reason : Bytes} {s t : Server} (h : Mirrors n reason s t)
    (body : Bytes) :
    (t.handle body).2 =
      if isExit body then some s.exitOutcome
      else if expectsAnswer body then (s.sink.loss? n reason).map .unsent
      else none := by
  obtain ⟨-, log, rfl⟩ := h
  rw [Server.snd_handle_eq, sending?_with]
  cases hexit : isExit body with
  | true => rfl
  | false =>
      cases hexpects : expectsAnswer body with
      | false => rfl
      | true =>
          obtain ⟨m, hm⟩ := exists_sending?_of_expectsAnswer hexit hexpects s
          obtain ⟨j, hjson⟩ := exists_toJson_of_sending? hm
          simp [hm, Sink.send, hjson, Sink.writeFrame_limited]

/-! ## Sessions -/

/-- The bodies that are handled up to the one that ends the session. -/
def handled (s : Server) : List Bytes → List Bytes
  | [] => []
  | body :: rest =>
      match (s.handle body).2 with
      | some _ => [body]
      | none => body :: (s.handle body).1.handled rest

/-- How a session ends that would have to do without a further frame behind some bodies. -/
def ending (s : Server) (e : FrameError) : List Bytes → Outcome
  | [] => .ofFrameError e
  | body :: rest =>
      match (s.handle body).2 with
      | some outcome => outcome
      | none => (s.handle body).1.ending e rest

theorem advance_of_read (s : Server) {source rest : Source} {body : Bytes}
    (h : Frame.read source = .ok (body, rest)) :
    s.advance source = ((s.handle body).1,
      match (s.handle body).2 with
      | some outcome => .error outcome
      | none => .ok rest) := by
  rcases hhandle : s.handle body with ⟨t, _ | outcome⟩ <;> simp [advance, h, hhandle]

/-- Serving a stream handles the bodies of its frames. -/
theorem serve_eq_after_handled (s : Server) (source : Source) :
    s.serve source =
      (s.after (s.handled (Frame.readAll source).1),
        s.ending (Frame.readAll source).2 (Frame.readAll source).1) := by
  fun_induction serve s source with
  | case1 s source t outcome hadvance =>
      cases hread : Frame.read source with
      | error e =>
          rw [advance_of_error hread] at hadvance
          cases hadvance
          simp [Frame.readAll_of_error hread, handled, ending, after]
      | ok found =>
          obtain ⟨body, rest⟩ := found
          rw [advance_of_read s hread] at hadvance
          cases houtcome : (s.handle body).2 with
          | none =>
              rw [houtcome] at hadvance
              cases hadvance
          | some other =>
              rw [houtcome] at hadvance
              cases hadvance
              simp [Frame.readAll_of_ok hread, handled, ending, houtcome, after]
  | case2 s source t later hadvance ih =>
      cases hread : Frame.read source with
      | error e =>
          rw [advance_of_error hread] at hadvance
          cases hadvance
      | ok found =>
          obtain ⟨body, rest⟩ := found
          rw [advance_of_read s hread] at hadvance
          cases houtcome : (s.handle body).2 with
          | some other =>
              rw [houtcome] at hadvance
              cases hadvance
          | none =>
              rw [houtcome] at hadvance
              cases hadvance
              rw [ih]
              simp [Frame.readAll_of_ok hread, handled, ending, houtcome, after]

/-! ## Responses that are lost -/

/-- Whether the response to a body behind others is not among the first pieces that are written. -/
structure IsLost (s : Server) (n : Nat) (earlier : List Bytes) (body : Bytes) : Prop where
  exit : isExit body = false
  expects : expectsAnswer body = true
  late : n < (s.after (earlier ++ [body])).sink.pieces.length

variable {n : Nat} {reason : Bytes} {s t : Server}

theorem IsLost.of_handle {first body : Bytes} {earlier : List Bytes}
    (h : IsLost (s.handle first).1 n earlier body) : IsLost s n (first :: earlier) body :=
  ⟨h.exit, h.expects, h.late⟩

theorem IsLost.handle {first body : Bytes} {earlier : List Bytes}
    (h : IsLost s n (first :: earlier) body) : IsLost (s.handle first).1 n earlier body :=
  ⟨h.exit, h.expects, h.late⟩

theorem exists_pieces_handle (h : s.sink.capacity? = none) (body : Bytes) :
    ∃ messages : List Json, messages.length = (s.sending? body).toList.length ∧
      (s.handle body).1.sink.pieces.reverse =
        s.sink.pieces.reverse ++ messages.flatMap framePieces := by
  obtain ⟨messages, hlength, hpieces, -⟩ := deliver_of_unlimited h body
  exact ⟨messages, hlength, by rw [sink_handle, hpieces]⟩

theorem exists_pieces_after (h : s.sink.capacity? = none) (bodies : List Bytes) :
    ∃ messages : List Json,
      (s.after bodies).sink.pieces.reverse =
        s.sink.pieces.reverse ++ messages.flatMap framePieces := by
  induction bodies generalizing s with
  | nil => exact ⟨[], by simp [after]⟩
  | cons body bodies ih =>
      obtain ⟨messages, -, hpieces⟩ := exists_pieces_handle h body
      obtain ⟨later, hlater⟩ := ih (unlimited_handle h body)
      refine ⟨messages ++ later, ?_⟩
      rw [List.flatMap_append, ← List.append_assoc, ← hpieces, ← hlater]
      rfl

theorem isLost_nil_iff (reason : Bytes) (h : s.sink.capacity? = none) {body : Bytes} :
    IsLost s n [] body ↔
      isExit body = false ∧ expectsAnswer body = true ∧ s.sink.loss? n reason ≠ none := by
  have hlength : isExit body = false → expectsAnswer body = true →
      (s.after [body]).sink.pieces.length = s.sink.pieces.length + 2 := by
    intro hexit hexpects
    obtain ⟨m, hm⟩ := exists_sending?_of_expectsAnswer hexit hexpects s
    obtain ⟨messages, hmessages, hpieces⟩ := exists_pieces_handle h body
    rw [hm] at hmessages
    obtain ⟨j, rfl⟩ := List.length_eq_one_iff.mp hmessages
    have hsum := congrArg List.length hpieces
    change (s.handle body).1.sink.pieces.length = s.sink.pieces.length + 2
    simpa [framePieces] using hsum
  rw [Ne, Sink.loss?_eq_none_iff]
  constructor
  · rintro ⟨hexit, hexpects, hlate⟩
    rw [List.nil_append, hlength hexit hexpects] at hlate
    exact ⟨hexit, hexpects, Nat.not_le.mpr hlate⟩
  · rintro ⟨hexit, hexpects, hlate⟩
    refine ⟨hexit, hexpects, ?_⟩
    rw [List.nil_append, hlength hexit hexpects]
    exact Nat.not_le.mp hlate

theorem Mirrors.snd_handle_of_lost (h : Mirrors n reason s t) {body : Bytes}
    (hlost : IsLost s n [] body) :
    ∃ cause, s.sink.loss? n reason = some cause ∧ (t.handle body).2 = some (.unsent cause) := by
  obtain ⟨hexit, hexpects, hloss⟩ := (isLost_nil_iff reason h.1).mp hlost
  obtain ⟨cause, hcause⟩ := Option.ne_none_iff_exists'.mp hloss
  refine ⟨cause, hcause, ?_⟩
  rw [h.snd_handle_eq, hexit, hexpects, hcause]
  rfl

theorem Mirrors.snd_handle_of_kept (h : Mirrors n reason s t) {body : Bytes}
    (hkept : ¬ IsLost s n [] body) : (t.handle body).2 = (s.handle body).2 := by
  rw [h.snd_handle_eq, snd_handle h.1]
  cases hexit : isExit body with
  | true => rfl
  | false =>
      cases hexpects : expectsAnswer body with
      | false => rfl
      | true =>
          have hloss : s.sink.loss? n reason = none := by
            by_contra hloss
            exact hkept ((isLost_nil_iff reason h.1).mpr ⟨hexit, hexpects, hloss⟩)
          rw [hloss]
          rfl

/-! ## Where the sessions end -/

section Handled

variable {body : Bytes}

theorem handled_of_some {outcome : Outcome} (h : (s.handle body).2 = some outcome)
    (rest : List Bytes) :
    s.handled (body :: rest) = [body] ∧ ∀ e, s.ending e (body :: rest) = outcome := by
  simp [handled, ending, h]

theorem handled_of_none (h : (s.handle body).2 = none) (rest : List Bytes) :
    s.handled (body :: rest) = body :: (s.handle body).1.handled rest ∧
      ∀ e, s.ending e (body :: rest) = (s.handle body).1.ending e rest := by
  simp [handled, ending, h]

theorem exists_handled_cons (s : Server) (body : Bytes) (rest : List Bytes) :
    ∃ later, s.handled (body :: rest) = body :: later := by
  cases houtcome : (s.handle body).2 with
  | some outcome => exact ⟨[], (handled_of_some houtcome rest).1⟩
  | none => exact ⟨_, (handled_of_none houtcome rest).1⟩

end Handled

/-- Without a lost response both runs handle the same and end in the same way. -/
theorem Mirrors.handled_of_kept (h : Mirrors n reason s t) {bodies : List Bytes}
    (hkept : ∀ before other, before ++ [other] <+: s.handled bodies → ¬ IsLost s n before other)
    (e : FrameError) :
    t.handled bodies = s.handled bodies ∧ t.ending e bodies = s.ending e bodies := by
  induction bodies generalizing s t with
  | nil => exact ⟨rfl, rfl⟩
  | cons body rest ih =>
      obtain ⟨later, hlater⟩ := exists_handled_cons s body rest
      have hbody : ¬ IsLost s n [] body := hkept [] body (by simp [hlater])
      have hsame := h.snd_handle_of_kept hbody
      cases houtcome : (s.handle body).2 with
      | some outcome =>
          rw [houtcome] at hsame
          obtain ⟨hs, hsEnding⟩ := handled_of_some houtcome rest
          obtain ⟨ht, htEnding⟩ := handled_of_some hsame rest
          exact ⟨ht.trans hs.symm, (htEnding e).trans (hsEnding e).symm⟩
      | none =>
          rw [houtcome] at hsame
          obtain ⟨hs, hsEnding⟩ := handled_of_none houtcome rest
          obtain ⟨ht, htEnding⟩ := handled_of_none hsame rest
          obtain ⟨hhandled, hending⟩ := ih (h.handle body) fun before other hbefore hlost =>
            hkept (body :: before) other
              (by rw [hs]; exact List.cons_prefix_cons.mpr ⟨rfl, hbefore⟩) hlost.of_handle
          rw [hs, ht, hsEnding, htEnding, hhandled, hending]
          exact ⟨rfl, rfl⟩

/-- The run in which writing fails ends at the first response that is lost. -/
theorem Mirrors.handled_of_lost (h : Mirrors n reason s t) {earlier bodies : List Bytes}
    {body : Bytes} (hfront : earlier ++ [body] <+: s.handled bodies)
    (hlost : IsLost s n earlier body)
    (hfirst : ∀ before other, before ++ [other] <+: earlier → ¬ IsLost s n before other)
    (e : FrameError) :
    t.handled bodies = earlier ++ [body] ∧
      ∃ cause, (s.after earlier).sink.loss? n reason = some cause ∧
        t.ending e bodies = .unsent cause := by
  -- Both runs are one body further in each step, so that a loss is looked for behind fewer bodies.
  induction earlier generalizing s t bodies with
  | nil =>
      cases bodies with
      | nil => simp [handled] at hfront
      | cons next rest =>
          obtain ⟨later, hlater⟩ := exists_handled_cons s next rest
          rw [hlater, List.nil_append, List.cons_prefix_cons] at hfront
          obtain rfl := hfront.1
          obtain ⟨cause, hcause, houtcome⟩ := h.snd_handle_of_lost hlost
          obtain ⟨ht, htEnding⟩ := handled_of_some houtcome rest
          exact ⟨ht, cause, hcause, htEnding e⟩
  | cons first earlier ih =>
      cases bodies with
      | nil => simp [handled] at hfront
      | cons next rest =>
          obtain ⟨later, hlater⟩ := exists_handled_cons s next rest
          obtain rfl : first = next := by
            rw [hlater, List.cons_append, List.cons_prefix_cons] at hfront
            exact hfront.1
          have hkept : ¬ IsLost s n [] first := hfirst [] first (by simp)
          have hsame := h.snd_handle_of_kept hkept
          cases houtcome : (s.handle first).2 with
          | some outcome =>
              -- The session without failures cannot be over yet, as `body` is handled in it.
              rw [(handled_of_some houtcome rest).1] at hfront
              simp at hfront
          | none =>
              rw [houtcome] at hsame
              obtain ⟨hs, -⟩ := handled_of_none houtcome rest
              obtain ⟨ht, htEnding⟩ := handled_of_none hsame rest
              rw [hs, List.cons_append, List.cons_prefix_cons] at hfront
              obtain ⟨hhandled, cause, hcause, hending⟩ := ih (h.handle first) hfront.2
                hlost.handle fun before other hbefore hother =>
                  hfirst (first :: before) other (List.cons_prefix_cons.mpr ⟨rfl, hbefore⟩)
                    hother.of_handle
              rw [ht, htEnding, hhandled]
              exact ⟨rfl, cause, hcause, hending⟩

theorem exists_first {α : Type} (P : List α → α → Prop) (l : List α) :
    (∀ before x, before ++ [x] <+: l → ¬ P before x) ∨
      ∃ before x, before ++ [x] <+: l ∧ P before x ∧
        ∀ other y, other ++ [y] <+: before → ¬ P other y := by
  induction l using List.reverseRecOn with
  | nil => exact .inl fun before x hnil => by simp at hnil
  | append_singleton l last ih =>
      rcases ih with hnone | ⟨before, x, hbefore, hx, hfirst⟩
      · by_cases hlast : P l last
        · exact .inr ⟨l, last, List.prefix_rfl, hlast, hnone⟩
        · refine .inl fun before x hbefore => ?_
          rcases List.prefix_concat_iff.mp hbefore with heq | hl
          · obtain ⟨rfl, hx⟩ := List.append_inj' heq rfl
            cases hx
            exact hlast
          · exact hnone before x hl
      · exact .inr ⟨before, x, hbefore.trans (List.prefix_append _ _), hx, hfirst⟩

theorem after_append (s : Server) (earlier later : List Bytes) :
    s.after (earlier ++ later) = (s.after earlier).after later :=
  List.foldl_append ..

theorem Mirrors.pieces_eq (h : Mirrors n reason s t) :
    t.sink.pieces.reverse = s.sink.pieces.reverse.take n := by
  obtain ⟨-, log, rfl⟩ := h
  exact List.reverse_reverse _

/-- What is written is the first part of what would have been written. -/
theorem Mirrors.handled_cases (h : Mirrors n reason s t) (bodies : List Bytes) :
    t.handled bodies <+: s.handled bodies ∧
      (t.after (t.handled bodies)).sink.pieces.reverse =
        (s.after (s.handled bodies)).sink.pieces.reverse.take n := by
  rcases exists_first (IsLost s n) (s.handled bodies) with
    hkept | ⟨earlier, body, hfront, hlost, hfirst⟩
  · obtain ⟨hhandled, -⟩ := h.handled_of_kept hkept .ended
    rw [hhandled]
    exact ⟨List.prefix_rfl, (h.after _).pieces_eq⟩
  · obtain ⟨hhandled, -⟩ := h.handled_of_lost hfront hlost hfirst .ended
    rw [hhandled]
    refine ⟨hfront, (h.after _).pieces_eq.trans ?_⟩
    -- The pieces behind the lost response do not count any more.
    obtain ⟨later, hlater⟩ := hfront
    obtain ⟨messages, hpieces⟩ := exists_pieces_after (h.after (earlier ++ [body])).1 later
    rw [← hlater, after_append s (earlier ++ [body]), hpieces, List.take_append_of_le_length]
    simpa using hlost.late.le

theorem take_flatMap_framePieces (messages : List Json) (n : Nat) :
    (messages.flatMap framePieces).take n =
      (messages.take (n / 2)).flatMap framePieces ++
        (if n % 2 = 1 then messages[n / 2]?.toList else []).map fun j => Frame.headerOf j.render := by
  induction messages generalizing n with
  | nil => simp
  | cons j messages ih =>
      rcases n with _ | _ | n
      · rfl
      · rfl
      · have hhalf : (n + 2) / 2 = n / 2 + 1 := by omega
        have hodd : (n + 2) % 2 = n % 2 := by omega
        rw [hhalf, hodd]
        simp [framePieces, ← ih]

theorem flatten_flatMap_framePieces (messages : List Json) :
    (messages.flatMap framePieces).flatten = messages.flatMap Frame.ofJson := by
  induction messages with
  | nil => rfl
  | cons j messages ih => simp [framePieces, Frame.ofJson, ← ih]

/-! ## Sessions that are interrupted -/

/-- The server with another way to the editor. -/
def through (s : Server) (sink : Sink) : Server :=
  { s with sink := sink }

theorem mirrors_through (s : Server) (n : Nat) (reason : Bytes) :
    Mirrors n reason (s.through {}) (s.through { capacity? := some n, reason := reason }) :=
  ⟨rfl, s.log, by simp [through, Sink.limited]⟩

/-- How two sessions with the same stream compare, if writing never fails in `whole` and fails from
the piece with the number `n` on in `torn`. -/
structure Compares (source : Source) (n : Nat) (reason : Bytes) (whole torn : Server) : Prop where
  /-- The first pieces are written. -/
  output : (torn.serve source).1.sink.output =
    ((whole.serve source).1.sink.pieces.reverse.take n).flatten
  /-- These are whole frames, and the header of the next one if it is cut. -/
  frames : ∃ messages : List Json,
    (whole.serve source).1.sink.output = messages.flatMap Frame.ofJson ∧
      (torn.serve source).1.sink.output =
        (messages.take (n / 2)).flatMap Frame.ofJson ++
          (if n % 2 = 1 then messages[n / 2]?.toList else []).flatMap fun j =>
            Frame.headerOf j.render
  handled_isPrefix : torn.handled (Frame.readAll source).1 <+: whole.handled (Frame.readAll source).1
  /-- The states are the same after every body that is handled in both. -/
  state_eq : ∀ earlier, earlier <+: torn.handled (Frame.readAll source).1 →
    (torn.after earlier).documents = (whole.after earlier).documents ∧
      (torn.after earlier).store = (whole.after earlier).store ∧
      (torn.after earlier).initialized = (whole.after earlier).initialized ∧
      (torn.after earlier).stopping = (whole.after earlier).stopping
  /-- The session ends at the first response that is lost. -/
  lost : ∀ earlier body, earlier ++ [body] <+: whole.handled (Frame.readAll source).1 →
    IsLost whole n earlier body →
    (∀ before other, before ++ [other] <+: earlier → ¬ IsLost whole n before other) →
    torn.handled (Frame.readAll source).1 = earlier ++ [body] ∧
      ∃ cause, (whole.after earlier).sink.loss? n reason = some cause ∧
        (torn.serve source).2 = .unsent cause
  /-- Without a lost response nothing ends it that does not end the other one. -/
  kept : (∀ before other, before ++ [other] <+: whole.handled (Frame.readAll source).1 →
      ¬ IsLost whole n before other) →
    torn.handled (Frame.readAll source).1 = whole.handled (Frame.readAll source).1 ∧
      (torn.serve source).2 = (whole.serve source).2
  /-- No notification ends it, whether or not the notice is lost. -/
  notified : ∀ earlier body, isExit body = false → expectsAnswer body = false →
    ((torn.after earlier).handle body).2 = none

/-- A session through a sink that breaks after some pieces goes like the session through one that
takes everything, up to the first response that is lost. The pieces that are written are the first
ones of the whole session, a lost notice changes nothing but what the editor sees, and only a lost
response ends the session early. -/
theorem compares_through (s : Server) (source : Source) (n : Nat) (reason : Bytes) :
    Compares source n reason (s.through {})
      (s.through { capacity? := some n, reason := reason }) := by
  have hmirrors := mirrors_through s n reason
  obtain ⟨hfront, hwritten⟩ := hmirrors.handled_cases (Frame.readAll source).1
  have houtput : ((s.through { capacity? := some n, reason := reason }).serve source).1.sink.output =
      (((s.through {}).serve source).1.sink.pieces.reverse.take n).flatten := by
    rw [serve_eq_after_handled, serve_eq_after_handled, Sink.output, hwritten]
  obtain ⟨messages, hmessages⟩ :=
    exists_pieces_after hmirrors.1 ((s.through {}).handled (Frame.readAll source).1)
  have hpieces : ((s.through {}).serve source).1.sink.pieces.reverse =
      messages.flatMap framePieces := by
    rw [serve_eq_after_handled, hmessages]
    rfl
  refine ⟨houtput, ⟨messages, ?_, ?_⟩, hfront, ?_, ?_, ?_, ?_⟩
  · rw [Sink.output, hpieces, flatten_flatMap_framePieces]
  · rw [houtput, hpieces, take_flatMap_framePieces, List.flatten_append,
      flatten_flatMap_framePieces, ← List.flatMap_def]
  · intro earlier _
    obtain ⟨-, log, hstate⟩ := hmirrors.after earlier
    rw [hstate]
    exact ⟨rfl, rfl, rfl, rfl⟩
  · intro earlier body hearlier hlost hfirst
    rw [serve_eq_after_handled]
    exact hmirrors.handled_of_lost hearlier hlost hfirst _
  · intro hkept
    rw [serve_eq_after_handled, serve_eq_after_handled]
    exact hmirrors.handled_of_kept hkept _
  · intro earlier body hexit hexpects
    rw [(hmirrors.after earlier).snd_handle_eq, hexit, hexpects]
    rfl

end Server

end DefinitionFiles
