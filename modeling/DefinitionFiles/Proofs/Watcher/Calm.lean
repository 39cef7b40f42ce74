import DefinitionFiles.Proofs.Watcher.Debouncing
import DefinitionFiles.Proofs.Watcher.Directories

/-!
# Debouncing one thing at a time

If every event is handled, and every call is through, before anything else happens, then a watcher
at work does what the functions of a watcher say: events are handled as by `handle`, a timer that
runs out has the effect of `fire?`, the timers together that of `settle`, and stopping that of
`stop`.
-/

namespace DefinitionFiles.Watcher

theorem examine_pending {w : Watcher} {d : Disk} {path : Bytes} (pending : List Bytes) :
    { w with pending := pending }.examine d path =
      { w.examine d path with pending := pending } := by
  cases hread : w.workspace.examine d path with
  | error cause =>
      simp only [examine, hread]
      split <;> rfl
  | ok result =>
      simp only [examine, hread]
      rfl

theorem settle_of_fire? {w w' : Watcher} {d : Disk} (h : w.fire? d = some w') :
    w'.settle d = w.settle d := by
  unfold fire? at h
  split at h
  · cases h
  next path rest hpending =>
    obtain rfl := Option.some.inj h
    simp only [settle, hpending, List.foldl_cons, examine_pending]

namespace Watch

/-- Whether a watcher has nothing to do but to wait: for events, or for the timers of the pending
paths. -/
structure IsCalm (s : Watch) : Prop where
  phase : s.phase = .idle
  unlocked : s.isLocked = false
  ready : s.ready = []
  nodup : s.watcher.pending.Nodup
  timer : ∀ path ∈ s.watcher.pending, s.timers[s.timer path]? = some ⟨path, true⟩

/-- Whether a watcher can get from one calm state to another with some watcher on the same disk. -/
def Leads (s : Watch) (w : Watcher) : Prop :=
  ∃ actions t, Run s actions t ∧ t.IsCalm ∧ t.disk = s.disk ∧ t.watcher = w

variable {s : Watch}

theorem isCalm_start {w : Watcher} {d : Disk} (h : w.pending = []) :
    IsCalm { watcher := w, disk := d } :=
  ⟨rfl, rfl, rfl, by simp [h], by simp [h]⟩

/-- The path that waits longest waits only once. -/
theorem filter_pending {path : Bytes} {rest : List Bytes} (h : s.watcher.pending.Nodup)
    (hpending : s.watcher.pending = path :: rest) :
    s.watcher.pending.filter (· != path) = rest := by
  rw [hpending] at h ⊢
  rw [List.filter_cons_of_neg (by simp), List.filter_eq_self]
  intro other hother
  simpa using fun hsame : other = path => (List.nodup_cons.mp h).1 (hsame ▸ hother)

namespace IsCalm

theorem leads_handle (h : s.IsCalm) (e : DiskEvent) : s.Leads (s.watcher.handle s.disk e) := by
  cases haccepts : s.watcher.accepts s.disk e with
  | false =>
      obtain ⟨directories, log, hhandle⟩ := exists_handle_of_not_accepts haccepts
      refine ⟨_, _, (Run.refl s).concat (.pass h.phase haccepts), ?_, rfl, rfl⟩
      rw [hhandle]
      exact ⟨h.phase, h.unlocked, h.ready, h.nodup, h.timer⟩
  | true =>
      have hhandle := handle_of_accepts haccepts
      have hnodup : (s.watcher.schedule e.path).pending.Nodup := by
        have hfilter := h.nodup.filter (· != e.path)
        simp [schedule, List.nodup_append, hfilter]
      have hrun := ((Run.refl s).concat (.take h.phase haccepts)).concat (.lock rfl h.unlocked)
      by_cases hpending : e.path ∈ s.watcher.pending
      · refine ⟨_, _, hrun.concat (.reset rfl hpending), ?_, rfl, hhandle.symm⟩
        refine ⟨rfl, rfl, h.ready, hnodup, fun path hpath => ?_⟩
        have htimer := h.timer path (mem_pending_of_mem_schedule hpending hpath)
        simp [List.getElem?_modify, htimer, Timer.turn]
      · refine ⟨_, _, hrun.concat (.arm rfl hpending), ?_, rfl, hhandle.symm⟩
        refine ⟨rfl, rfl, h.ready, hnodup, fun path hpath => ?_⟩
        by_cases hsame : path = e.path
        · simp [hsame]
        · have hold : path ∈ s.watcher.pending := by
            simpa [hsame] using mem_pending_schedule_iff.mp hpath
          exact getElem?_append_update (h.timer path hold) hsame

/-- A timer runs out, and its call and the parse go through before anything else happens. -/
theorem leads_fire (h : s.IsCalm) {w : Watcher} (hfire : s.watcher.fire? s.disk = some w) :
    s.Leads w := by
  unfold fire? at hfire
  split at hfire
  · cases hfire
  next path rest hpending =>
    obtain rfl := Option.some.inj hfire
    have hrest := (List.nodup_cons.mp (hpending ▸ h.nodup)).2
    have htimer := h.timer path (by simp [hpending])
    have hfilter := filter_pending h.nodup hpending
    have h₁ := (Run.refl s).concat (.fire htimer)
    have h₂ := h₁.concat (@Step.enter _ s.calls.length path (by simp) h.unlocked)
    have h₃ := h₂.concat (@Step.release _ s.calls.length path (by simp))
    have h₄ := h₃.concat (@Step.send _ s.calls.length path (by simp) (by simp [h.ready, capacity]))
    have h₅ := h₄.concat (@Step.parse _ path [] h.phase (by simp [h.ready]))
    have h₆ := h₅.concat (.examine rfl)
    refine ⟨_, _, h₆, ?_, rfl, by simp [hfilter]⟩
    refine ⟨rfl, rfl, rfl, by simpa [pending_examine, hfilter] using hrest, fun other hother => ?_⟩
    simp only [pending_examine, hfilter] at hother
    have hother' := h.timer other (by simp [hpending, hother])
    have hne : s.timer path ≠ s.timer other := by
      intro hsame
      rw [hsame, hother'] at htimer
      simp_all
    simp [hother', hne]

theorem leads_settle (h : s.IsCalm) : s.Leads (s.watcher.settle s.disk) := by
  generalize hpending : s.watcher.pending = pending
  induction pending generalizing s with
  | nil =>
      have hsettle : s.watcher.settle s.disk = s.watcher := by
        rw [settle, hpending, List.foldl_nil, ← hpending]
      exact ⟨[], s, .refl s, h, rfl, hsettle.symm⟩
  | cons path rest ih =>
      have hfire : s.watcher.fire? s.disk =
          some ({ s.watcher with pending := rest }.examine s.disk path) := by
        simp [fire?, hpending]
      obtain ⟨actions, t, hrun, hcalm, hdisk, hwatcher⟩ := h.leads_fire hfire
      have hrest : t.watcher.pending = rest := by rw [hwatcher, pending_examine]
      obtain ⟨more, u, hmore, hcalm', hdisk', hsettle⟩ := ih hcalm hrest
      refine ⟨_, u, hrun.trans hmore, hcalm', hdisk'.trans hdisk, ?_⟩
      rw [hsettle, hdisk, hwatcher, settle_of_fire? hfire]

theorem change (h : s.IsCalm) (d : Disk) : IsCalm { s with disk := d } :=
  ⟨h.phase, h.unlocked, h.ready, h.nodup, h.timer⟩

theorem exists_run_handleAll (h : s.IsCalm) (history : List (Disk × DiskEvent)) :
    ∃ actions t, Run s actions t ∧ t.IsCalm ∧ t.watcher = s.watcher.handleAll history := by
  induction history generalizing s with
  | nil => exact ⟨[], s, .refl s, h, rfl⟩
  | cons happening rest ih =>
      obtain ⟨d, e⟩ := happening
      obtain ⟨actions, t, hrun, hcalm, -, hwatcher⟩ := (h.change d).leads_handle e
      obtain ⟨more, u, hmore, hcalm', hall⟩ := ih hcalm
      refine ⟨_, u, (((Run.refl s).concat .change).trans hrun).trans hmore, hcalm', ?_⟩
      rw [hall, hwatcher]
      rfl

end IsCalm

/-- Events that are handled one after the other, and what waits after them. -/
theorem exists_run_settle {ws : Workspace} {d last : Disk} {w : Watcher}
    (h : ({ workspace := ws } : Watcher).start d = (w, none))
    (history : List (Disk × DiskEvent)) :
    ∃ actions t, Run { watcher := w, disk := d } actions t ∧ t.IsCalm ∧
      t.watcher = (w.handleAll history).settle last := by
  have hcalm : IsCalm { watcher := w, disk := d } := isCalm_start (enrols_start h).pending_eq
  obtain ⟨actions, t, hrun, hcalm', hall⟩ := hcalm.exists_run_handleAll history
  obtain ⟨more, u, hmore, hcalm'', -, hsettle⟩ := (hcalm'.change last).leads_settle
  refine ⟨_, u, (hrun.concat .change).trans hmore, hcalm'', ?_⟩
  rw [hsettle, hall]

/-- The timers of the pending paths can be stopped one after the other. -/
theorem exists_run_discard (hphase : s.phase = .clearing) (hnodup : s.watcher.pending.Nodup) :
    ∃ actions t, Run s actions t ∧ t.phase = .clearing ∧
      t.watcher = { s.watcher with pending := [] } := by
  generalize hpending : s.watcher.pending = pending
  induction pending generalizing s with
  | nil => exact ⟨[], s, .refl s, hphase, by rw [← hpending]⟩
  | cons path rest ih =>
      have hfilter := filter_pending hnodup hpending
      have hrest := (List.nodup_cons.mp (hpending ▸ hnodup)).2
      obtain ⟨u, hstep, hclearing, hdiscard⟩ : ∃ u, Step s .silent u ∧ u.phase = .clearing ∧
          u.watcher = { s.watcher with pending := rest } :=
        ⟨_, @Step.discard _ path hphase (by simp [hpending]), hphase, by simp [hfilter]⟩
      obtain ⟨actions, t, hrun, hclearing', hwatcher⟩ :=
        ih hclearing (by rwa [hdiscard]) (by rw [hdiscard])
      exact ⟨_, t, ((Run.refl s).concat hstep).trans hrun, hclearing', by rw [hwatcher, hdiscard]⟩

theorem IsCalm.exists_run_stop (h : s.IsCalm) :
    ∃ actions t, Run s actions t ∧ t.phase = .stopped ∧ t.watcher = s.watcher.stop := by
  obtain ⟨u, hleave, hclearing, hnote⟩ : ∃ u, Run s [.silent, .stop] u ∧ u.phase = .clearing ∧
      u.watcher = s.watcher.note .info [] (utf8 "stopped") :=
    ⟨_, ((Run.refl s).concat (.cancel h.phase)).concat (.stop rfl h.unlocked), rfl, rfl⟩
  obtain ⟨actions, t, hrun, hphase, hwatcher⟩ :=
    exists_run_discard hclearing (by rw [hnote]; exact h.nodup)
  have hpending : t.watcher.pending = [] := by rw [hwatcher]
  have hclosed := ((hleave.trans hrun).concat (.unlock hphase hpending)).concat (.close rfl)
  exact ⟨_, _, hclosed, rfl, by rw [hwatcher, hnote, stop]⟩

end Watch

end DefinitionFiles.Watcher
