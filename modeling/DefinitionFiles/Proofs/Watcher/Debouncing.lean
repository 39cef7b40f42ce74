import DefinitionFiles.Proofs.Watcher

/-!
# Debouncing step by step

A watcher takes one event after the other. A wanted path gets a timer, or the timer it waits for is
set anew. A timer that runs out starts a call, which takes the path off those that wait and then
hands it over to be parsed. The calls run side by side with the watcher and share a lock with it.
Every step is one that can happen on its own, so that a run of steps is one way in which events,
timers and calls may follow each other.

No update is lost on the way: a path that was reported is waited for, called for or handed over
until it is parsed.
-/

namespace DefinitionFiles.Watcher

/-- What a watcher is doing. -/
inductive Phase where
  | idle
  /-- The path of an event has to wait, and the lock is asked for. -/
  | scheduling (event : DiskEvent)
  /-- The lock is held to let the path of an event wait. -/
  | holding (event : DiskEvent)
  | parsing (path : Bytes)
  /-- Nothing is taken any more, and the lock is asked for. -/
  | leaving
  /-- The lock is held to stop the timers. -/
  | clearing
  /-- The timers are stopped, and the calls have not been told yet. -/
  | closing
  | stopped

/-- A timer that starts a call for a path when it runs out. -/
structure Timer where
  path : Bytes
  isArmed : Bool

/-- Sets a timer, or stops it. -/
def Timer.turn (isArmed : Bool) (timer : Timer) : Timer :=
  { timer with isArmed := isArmed }

/-- How far a call has come. -/
inductive Stage where
  | started
  /-- The lock is held to take the path off those that wait. -/
  | holding
  | sending
  | finished
  deriving DecidableEq

/-- A call for a path, started by a timer that ran out. -/
structure Call where
  path : Bytes
  stage : Stage

/-- A watcher at work, with the disk as it is at the moment. -/
structure Watch where
  watcher : Watcher
  disk : Disk
  phase : Phase := .idle
  isLocked : Bool := false
  /-- All timers there have been. -/
  timers : List Timer := []
  /-- The number of the timer a pending path waits for. -/
  timer : Bytes → Nat := fun _ => 0
  /-- All calls there have been. -/
  calls : List Call := []
  /-- The paths that were handed over to be parsed. -/
  ready : List Bytes := []

/-- How many paths can be handed over without one being parsed. -/
def capacity : Nat := 64

/-- What can be seen of a step. -/
inductive Action where
  /-- An event is taken that makes its path wait. -/
  | take (event : DiskEvent)
  /-- An event is taken that makes no path wait, and is handled. -/
  | pass (event : DiskEvent)
  /-- The path of an event waits now. -/
  | handled (event : DiskEvent)
  /-- The parse of a path begins. -/
  | parse (path : Bytes)
  /-- The watcher begins to stop the timers. -/
  | stop
  | silent

namespace Watch

/-- What can happen to a watcher at work. -/
inductive Step : Watch → Action → Watch → Prop where
  | change {s : Watch} {disk : Disk} : Step s .silent { s with disk := disk }
  | complain {s : Watch} {message : Bytes} (hphase : s.phase = .idle) :
      Step s .silent
        { s with
          watcher := s.watcher.note .error [("error", .text message)] (utf8 "watcher error") }
  | pass {s : Watch} {e : DiskEvent} (hphase : s.phase = .idle)
      (haccepts : s.watcher.accepts s.disk e = false) :
      Step s (.pass e) { s with watcher := s.watcher.handle s.disk e }
  | take {s : Watch} {e : DiskEvent} (hphase : s.phase = .idle)
      (haccepts : s.watcher.accepts s.disk e = true) :
      Step s (.take e) { s with phase := .scheduling e }
  | lock {s : Watch} {e : DiskEvent} (hphase : s.phase = .scheduling e)
      (hlocked : s.isLocked = false) :
      Step s .silent { s with phase := .holding e, isLocked := true }
  /-- The timer may have run out already, and its call may still be asking for the lock. -/
  | reset {s : Watch} {e : DiskEvent} (hphase : s.phase = .holding e)
      (hpending : e.path ∈ s.watcher.pending) :
      Step s (.handled e)
        { s with
          phase := .idle
          isLocked := false
          watcher := s.watcher.schedule e.path
          timers := s.timers.modify (s.timer e.path) (Timer.turn true) }
  | arm {s : Watch} {e : DiskEvent} (hphase : s.phase = .holding e)
      (hpending : e.path ∉ s.watcher.pending) :
      Step s (.handled e)
        { s with
          phase := .idle
          isLocked := false
          watcher := s.watcher.schedule e.path
          timers := s.timers ++ [⟨e.path, true⟩]
          timer := Function.update s.timer e.path s.timers.length }
  | fire {s : Watch} {i : Nat} {path : Bytes} (htimer : s.timers[i]? = some ⟨path, true⟩) :
      Step s .silent
        { s with
          timers := s.timers.modify i (Timer.turn false)
          calls := s.calls ++ [⟨path, .started⟩] }
  | enter {s : Watch} {i : Nat} {path : Bytes} (hcall : s.calls[i]? = some ⟨path, .started⟩)
      (hlocked : s.isLocked = false) :
      Step s .silent { s with calls := s.calls.set i ⟨path, .holding⟩, isLocked := true }
  /-- By now the path may wait for another timer than the one that started the call. -/
  | release {s : Watch} {i : Nat} {path : Bytes} (hcall : s.calls[i]? = some ⟨path, .holding⟩) :
      Step s .silent
        { s with
          watcher := { s.watcher with pending := s.watcher.pending.filter (· != path) }
          calls := s.calls.set i ⟨path, .sending⟩
          isLocked := false }
  | send {s : Watch} {i : Nat} {path : Bytes} (hcall : s.calls[i]? = some ⟨path, .sending⟩)
      (hroom : s.ready.length < capacity) :
      Step s .silent
        { s with calls := s.calls.set i ⟨path, .finished⟩, ready := s.ready ++ [path] }
  | abandon {s : Watch} {i : Nat} {path : Bytes} (hcall : s.calls[i]? = some ⟨path, .sending⟩)
      (hphase : s.phase = .stopped) :
      Step s .silent { s with calls := s.calls.set i ⟨path, .finished⟩ }
  | parse {s : Watch} {path : Bytes} {rest : List Bytes} (hphase : s.phase = .idle)
      (hready : s.ready = path :: rest) :
      Step s (.parse path) { s with phase := .parsing path, ready := rest }
  | examine {s : Watch} {path : Bytes} (hphase : s.phase = .parsing path) :
      Step s .silent { s with phase := .idle, watcher := s.watcher.examine s.disk path }
  | cancel {s : Watch} (hphase : s.phase = .idle) :
      Step s .silent
        { s with phase := .leaving, watcher := s.watcher.note .info [] (utf8 "stopped") }
  /-- There are no more events. -/
  | leave {s : Watch} (hphase : s.phase = .idle) : Step s .silent { s with phase := .leaving }
  | stop {s : Watch} (hphase : s.phase = .leaving) (hlocked : s.isLocked = false) :
      Step s .stop { s with phase := .clearing, isLocked := true }
  | discard {s : Watch} {path : Bytes} (hphase : s.phase = .clearing)
      (hpending : path ∈ s.watcher.pending) :
      Step s .silent
        { s with
          watcher := { s.watcher with pending := s.watcher.pending.filter (· != path) }
          timers := s.timers.modify (s.timer path) (Timer.turn false) }
  | unlock {s : Watch} (hphase : s.phase = .clearing) (hpending : s.watcher.pending = []) :
      Step s .silent { s with phase := .closing, isLocked := false }
  | close {s : Watch} (hphase : s.phase = .closing) : Step s .silent { s with phase := .stopped }

/-- A run, with what can be seen of its steps. -/
inductive Run : Watch → List Action → Watch → Prop where
  | refl (s : Watch) : Run s [] s
  | concat {s t u : Watch} {actions : List Action} {a : Action} (hrun : Run s actions t)
      (hstep : Step t a u) : Run s (actions ++ [a]) u

end Watch

/-! ## What is under way -/

/-- Whether a timer is going to start a call for a path. -/
def Timer.isFor (path : Bytes) (timer : Timer) : Bool :=
  timer.isArmed && timer.path == path

/-- Whether a call is going to hand a path over. -/
def Call.isFor (path : Bytes) (call : Call) : Bool :=
  call.stage != .finished && call.path == path

/-- Whether the timers have not begun to be stopped. -/
@[simp]
def Phase.isOpen : Phase → Bool
  | .clearing | .closing | .stopped => false
  | _ => true

/-- How often a path is about to wait. -/
@[simp]
def Phase.asks (path : Bytes) : Phase → Nat
  | .scheduling e | .holding e => if e.path = path then 1 else 0
  | _ => 0

/-- Whether a path is reported in a step. -/
@[simp]
def Action.isTake (path : Bytes) : Action → Bool
  | .take e => e.path == path
  | _ => false

/-- Whether a path starts to wait in a step. -/
@[simp]
def Action.isHandled (path : Bytes) : Action → Bool
  | .handled e => e.path == path
  | _ => false

/-- Whether the parse of a path begins in a step. -/
@[simp]
def Action.isParse (path : Bytes) : Action → Bool
  | .parse other => other == path
  | _ => false

namespace Watch

/-- Whether a timer is set whose call hands the path over, such a call is running, or the path was
handed over. -/
def IsUnderway (s : Watch) (path : Bytes) : Prop :=
  (∃ timer ∈ s.timers, timer.isArmed = true ∧ timer.path = path) ∨
    (∃ call ∈ s.calls, call.stage ≠ .finished ∧ call.path = path) ∨ path ∈ s.ready

/-- How many times a path is under way. -/
def underway (s : Watch) (path : Bytes) : Nat :=
  s.timers.countP (Timer.isFor path) + s.calls.countP (Call.isFor path) + s.ready.count path

theorem isUnderway_iff {s : Watch} {path : Bytes} : s.IsUnderway path ↔ 0 < s.underway path := by
  have htimers : 0 < s.timers.countP (Timer.isFor path) ↔
      ∃ timer ∈ s.timers, timer.isArmed = true ∧ timer.path = path := by
    simp [List.countP_pos_iff, Timer.isFor]
  have hcalls : 0 < s.calls.countP (Call.isFor path) ↔
      ∃ call ∈ s.calls, call.stage ≠ .finished ∧ call.path = path := by
    simp [List.countP_pos_iff, Call.isFor]
  have hready : 0 < s.ready.count path ↔ path ∈ s.ready := List.count_pos_iff
  rw [IsUnderway, ← htimers, ← hcalls, ← hready, underway]
  omega

/-- What holds of a watcher at work all along. -/
structure Invariant (s : Watch) : Prop where
  /-- The timer that a pending path waits for is one for that path. -/
  timer : ∀ path ∈ s.watcher.pending, ∃ isArmed, s.timers[s.timer path]? = some ⟨path, isArmed⟩
  /-- Somebody holds the lock if it is taken. -/
  locked : s.isLocked = true → (∃ e, s.phase = .holding e) ∨ s.phase = .clearing ∨
    ∃ (i : Nat) (path : Bytes), s.calls[i]? = some ⟨path, .holding⟩

end Watch

section Counting

variable {α : Type*} {l : List α} {i : Nat} {a : α} {p : α → Bool}

theorem countP_set_of_getElem? (h : l[i]? = some a) (b : α) :
    (l.set i b).countP p + (if p a then 1 else 0) = l.countP p + if p b then 1 else 0 := by
  obtain ⟨hi, rfl⟩ := List.getElem?_eq_some_iff.mp h
  rw [List.countP_set hi]
  by_cases hp : p l[i] = true
  · have hpos : 0 < l.countP p := List.countP_pos_iff.mpr ⟨l[i], List.getElem_mem hi, hp⟩
    simp only [hp, if_true]
    omega
  · simp [hp]

theorem countP_modify_of_getElem? (h : l[i]? = some a) (f : α → α) :
    (l.modify i f).countP p + (if p a then 1 else 0) = l.countP p + if p (f a) then 1 else 0 := by
  have hset : l.modify i f = l.set i (f a) := by simp [List.modify_eq_set_getElem?, h]
  rw [hset, countP_set_of_getElem? h]

end Counting

theorem countP_turn {timers : List Timer} {i : Nat} {other : Bytes} {isArmed : Bool}
    (h : timers[i]? = some ⟨other, isArmed⟩) (b : Bool) (path : Bytes) :
    (timers.modify i (Timer.turn b)).countP (Timer.isFor path) +
        (if isArmed = true ∧ other = path then 1 else 0) =
      timers.countP (Timer.isFor path) + if b = true ∧ other = path then 1 else 0 := by
  have hcount := countP_modify_of_getElem? (p := Timer.isFor path) h (Timer.turn b)
  simpa only [Timer.isFor, Timer.turn, Bool.and_eq_true, beq_iff_eq] using hcount

theorem countP_stage {calls : List Call} {i : Nat} {other : Bytes} {stage : Stage}
    (h : calls[i]? = some ⟨other, stage⟩) (hstage : stage ≠ .finished) (next : Stage)
    (path : Bytes) :
    (calls.set i ⟨other, next⟩).countP (Call.isFor path) +
        (if next = .finished ∧ other = path then 1 else 0) = calls.countP (Call.isFor path) := by
  have hcount := countP_set_of_getElem? (p := Call.isFor path) h ⟨other, next⟩
  simp only [Call.isFor, Bool.and_eq_true, bne_iff_ne, beq_iff_eq] at hcount
  by_cases hsame : other = path <;> by_cases hover : next = .finished <;> simp_all

theorem countP_stage_of_ne {calls : List Call} {i : Nat} {other : Bytes} {stage next : Stage}
    (h : calls[i]? = some ⟨other, stage⟩) (hstage : stage ≠ .finished) (hnext : next ≠ .finished)
    (path : Bytes) :
    (calls.set i ⟨other, next⟩).countP (Call.isFor path) = calls.countP (Call.isFor path) := by
  simpa [hnext] using countP_stage h hstage next path

/-- A timer stays one for its path, whichever timer is set or stopped. -/
theorem exists_getElem?_modify_turn {timers : List Timer} {i j : Nat} {path : Bytes}
    {isArmed : Bool} (h : timers[j]? = some ⟨path, isArmed⟩) (b : Bool) :
    ∃ isArmed, (timers.modify i (Timer.turn b))[j]? = some ⟨path, isArmed⟩ := by
  rw [List.getElem?_modify, h]
  by_cases hij : i = j
  · exact ⟨b, by simp [hij, Timer.turn]⟩
  · exact ⟨isArmed, by simp [hij]⟩

/-- A path that waits goes on waiting for its timer when another path gets one. -/
theorem getElem?_append_update {timers : List Timer} {timer : Bytes → Nat} {path other : Bytes}
    {found added : Timer} {n : Nat} (h : timers[timer path]? = some found) (hne : path ≠ other) :
    (timers ++ [added])[Function.update timer other n path]? = some found := by
  have hbound := (List.getElem?_eq_some_iff.mp h).1
  rw [Function.update_of_ne hne, List.getElem?_append_left hbound, h]

theorem mem_pending_schedule_iff {w : Watcher} {path other : Bytes} :
    other ∈ (w.schedule path).pending ↔ other ∈ w.pending ∨ other = path := by
  simp only [schedule, List.mem_append, List.mem_filter, bne_iff_ne, List.mem_singleton]
  grind

theorem mem_pending_of_mem_schedule {w : Watcher} {path other : Bytes} (hpending : path ∈ w.pending)
    (h : other ∈ (w.schedule path).pending) : other ∈ w.pending := by
  rcases mem_pending_schedule_iff.mp h with hold | rfl
  · exact hold
  · exact hpending

theorem pending_examine {w : Watcher} {d : Disk} {path : Bytes} :
    (w.examine d path).pending = w.pending := by
  unfold examine
  split
  · split <;> rfl
  · rfl

namespace Watch

variable {s t : Watch} {a : Action}

namespace Invariant

theorem locked_of_calls (h : Invariant s) {calls : List Call}
    (hkept : ∀ (i : Nat) (path : Bytes), s.calls[i]? = some ⟨path, .holding⟩ →
      calls[i]? = some ⟨path, .holding⟩)
    (hlocked : s.isLocked = true) :
    (∃ e, s.phase = .holding e) ∨ s.phase = .clearing ∨
      ∃ (i : Nat) (path : Bytes), calls[i]? = some ⟨path, .holding⟩ := by
  rcases h.locked hlocked with hphase | hphase | ⟨i, path, hcall⟩
  · exact .inl hphase
  · exact .inr (.inl hphase)
  · exact .inr (.inr ⟨i, path, hkept i path hcall⟩)

theorem step (h : Invariant s) (hstep : Step s a t) : Invariant t := by
  cases hstep with
  | change | complain => exact ⟨h.timer, h.locked⟩
  | pass hphase haccepts =>
      obtain ⟨directories, log, hhandle⟩ := exists_handle_of_not_accepts haccepts
      refine ⟨?_, h.locked⟩
      simp only [hhandle]
      exact h.timer
  | take hphase | parse hphase | cancel hphase | leave hphase | close hphase =>
      refine ⟨h.timer, fun hlocked => ?_⟩
      simpa [hphase] using h.locked hlocked
  | @lock e hphase => exact ⟨h.timer, fun _ => .inl ⟨e, rfl⟩⟩
  | @reset e hphase hpending =>
      refine ⟨fun path hpath => ?_, nofun⟩
      obtain ⟨isArmed, htimer⟩ := h.timer path (mem_pending_of_mem_schedule hpending hpath)
      exact exists_getElem?_modify_turn htimer true
  | @arm e hphase hpending =>
      refine ⟨fun path hpath => ?_, nofun⟩
      by_cases hsame : path = e.path
      · subst hsame
        exact ⟨true, by simp⟩
      · have hold : path ∈ s.watcher.pending := by
          simpa [hsame] using mem_pending_schedule_iff.mp hpath
        obtain ⟨isArmed, htimer⟩ := h.timer path hold
        exact ⟨isArmed, getElem?_append_update htimer hsame⟩
  | fire htimer =>
      refine ⟨fun path hpath => ?_, h.locked_of_calls fun j path hcall => ?_⟩
      · obtain ⟨isArmed, htimer⟩ := h.timer path hpath
        exact exists_getElem?_modify_turn htimer false
      · have hbound := (List.getElem?_eq_some_iff.mp hcall).1
        rw [List.getElem?_append_left hbound, hcall]
  | @enter i path hcall =>
      have hbound := (List.getElem?_eq_some_iff.mp hcall).1
      exact ⟨h.timer, fun _ => .inr (.inr ⟨i, path, by simp [hbound]⟩)⟩
  | release => exact ⟨fun path hpath => h.timer path (List.mem_filter.mp hpath).1, nofun⟩
  | send hcall | abandon hcall =>
      refine ⟨h.timer, h.locked_of_calls fun j path hholding => ?_⟩
      rw [List.getElem?_set_ne (by grind), hholding]
  | examine hphase =>
      refine ⟨?_, fun hlocked => ?_⟩
      · simp only [pending_examine]
        exact h.timer
      · simpa [hphase] using h.locked hlocked
  | stop hphase => exact ⟨h.timer, fun _ => .inr (.inl rfl)⟩
  | discard hphase =>
      refine ⟨fun path hpath => ?_, h.locked⟩
      obtain ⟨isArmed, htimer⟩ := h.timer path (List.mem_filter.mp hpath).1
      exact exists_getElem?_modify_turn htimer false
  | unlock => exact ⟨h.timer, nofun⟩

theorem isUnderway_of_handled (h : Invariant s) {e : DiskEvent} (hstep : Step s (.handled e) t) :
    t.IsUnderway e.path := by
  refine .inl ⟨⟨e.path, true⟩, ?_, rfl, rfl⟩
  cases hstep with
  | reset hphase hpending =>
      obtain ⟨isArmed, htimer⟩ := h.timer e.path hpending
      apply List.mem_of_getElem? (i := s.timer e.path)
      simp [htimer, Timer.turn]
  | arm => simp

/-- What a step does to the number of times a path is under way. -/
theorem underway_step (h : Invariant s) (hstep : Step s a t) (path : Bytes) :
    t.underway path + [a].countP (Action.isParse path) ≤
        s.underway path + [a].countP (Action.isHandled path) ∧
      (s.phase.isOpen = true →
        s.underway path ≤ t.underway path + [a].countP (Action.isParse path)) := by
  rw [List.countP_singleton, List.countP_singleton]
  cases hstep with
  | change | complain | pass | take | lock | examine | cancel | leave | stop | unlock | close =>
      exact ⟨Nat.le_refl _, fun _ => Nat.le_refl _⟩
  | @reset e hphase hpending =>
      -- The timer was made for the same path, so setting it anew starts no call for another.
      obtain ⟨isArmed, htimer⟩ := h.timer e.path hpending
      have hcount := countP_turn htimer true path
      have hle : (if isArmed = true ∧ e.path = path then 1 else 0) ≤
          if e.path = path then 1 else 0 := by
        split_ifs <;> simp_all
      simp only [true_and] at hcount
      simp only [underway, Action.isHandled, Action.isParse, beq_iff_eq, Bool.false_eq_true,
        if_false]
      omega
  | arm =>
      simp only [underway, List.countP_append, List.countP_singleton, Timer.isFor, Bool.true_and,
        beq_iff_eq, Action.isHandled, Action.isParse, Bool.false_eq_true, if_false]
      omega
  | @fire i other htimer =>
      have hcount : (s.timers.modify i (Timer.turn false)).countP (Timer.isFor path) +
          (if other = path then 1 else 0) = s.timers.countP (Timer.isFor path) := by
        simpa using countP_turn htimer false path
      have hcall : [Call.mk other .started].countP (Call.isFor path) =
          if other = path then 1 else 0 := by
        simp [Call.isFor]
      simp only [underway, List.countP_append, hcall, Action.isHandled, Action.isParse,
        Bool.false_eq_true, if_false]
      omega
  | enter hcall | release hcall => simp [underway, countP_stage_of_ne hcall]
  | send hcall =>
      have hcount := countP_stage hcall nofun .finished path
      simp only [true_and] at hcount
      simp only [underway, List.count_append, List.count_singleton, beq_iff_eq, Action.isHandled,
        Action.isParse, Bool.false_eq_true, if_false]
      omega
  | abandon hcall hphase =>
      have hcount := countP_stage hcall nofun .finished path
      simp only [underway, hphase, Phase.isOpen, Bool.false_eq_true, false_imp_iff, and_true,
        Action.isHandled, Action.isParse, if_false]
      omega
  | parse hphase hready =>
      simp only [underway, hready, List.count_cons, beq_iff_eq, Action.isHandled, Action.isParse,
        Bool.false_eq_true, if_false]
      omega
  | discard hphase hpending =>
      obtain ⟨isArmed, htimer⟩ := h.timer _ hpending
      have hcount := countP_turn htimer false path
      simp only [Bool.false_eq_true, false_and, if_false] at hcount
      simp only [underway, hphase, Phase.isOpen, Bool.false_eq_true, false_imp_iff, and_true,
        Action.isHandled, Action.isParse, if_false]
      omega

end Invariant

/-- What a step does to the number of times a path is about to wait. -/
theorem asks_step (hstep : Step s a t) (path : Bytes) :
    t.phase.asks path + [a].countP (Action.isHandled path) =
      s.phase.asks path + [a].countP (Action.isTake path) := by
  cases hstep <;> simp [*]

theorem isOpen_step (hstep : Step s a t) (hopen : s.phase.isOpen = true) (hstop : a ≠ .stop) :
    t.phase.isOpen = true := by
  cases hstep <;> simp_all

theorem countP_isParse_of_ne {path : Bytes} (h : a ≠ .parse path) :
    [a].countP (Action.isParse path) = 0 := by
  cases a <;> simp_all

/-- A path stays under way until its parse begins or the timers are stopped. -/
theorem IsUnderway.step {path : Bytes} (h : s.IsUnderway path) (hinvariant : Invariant s)
    (hstep : Step s a t) (hopen : s.phase.isOpen = true) (hparse : a ≠ .parse path) :
    t.IsUnderway path := by
  have hkept := (hinvariant.underway_step hstep path).2 hopen
  rw [countP_isParse_of_ne hparse, Nat.add_zero] at hkept
  rw [isUnderway_iff] at h ⊢
  exact Nat.lt_of_lt_of_le h hkept

/-! ## Runs -/

namespace Run

variable {u : Watch} {actions : List Action}

theorem trans {more : List Action} (h : Run s actions t) (hmore : Run t more u) :
    Run s (actions ++ more) u := by
  induction hmore with
  | refl => simpa using h
  | concat _ hstep ih =>
      rw [← List.append_assoc]
      exact ih.concat hstep

theorem exists_of_mem (h : Run s actions t) (ha : a ∈ actions) :
    ∃ before u v after, actions = before ++ a :: after ∧ Run s before u ∧ Step u a v := by
  induction h with
  | refl => cases ha
  | @concat u v before b hrun hstep ih =>
      rcases List.mem_append.mp ha with hold | hnew
      · obtain ⟨front, v, v', after, hactions, hfront, hstep'⟩ := ih hold
        exact ⟨front, v, v', after ++ [b], by simp [hactions], hfront, hstep'⟩
      · obtain rfl := List.mem_singleton.mp hnew
        exact ⟨before, u, v, [], rfl, hrun, hstep⟩

theorem invariant (h : Run s actions t) (hinvariant : Invariant s) : Invariant t := by
  induction h with
  | refl => exact hinvariant
  | concat _ hstep ih => exact ih.step hstep

/-- What is parsed or on the way to it has been reported before. -/
theorem countP_isParse_le (h : Run s actions t) (hinvariant : Invariant s) (path : Bytes) :
    actions.countP (Action.isParse path) + t.underway path + t.phase.asks path ≤
      actions.countP (Action.isTake path) + s.underway path + s.phase.asks path := by
  induction h with
  | refl => simp
  | concat hrun hstep ih =>
      have hunderway := ((hrun.invariant hinvariant).underway_step hstep path).1
      have hasks := asks_step hstep path
      rw [List.countP_append, List.countP_append]
      omega

end Run

end Watch

end DefinitionFiles.Watcher
