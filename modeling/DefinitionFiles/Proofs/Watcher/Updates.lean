import DefinitionFiles.Proofs.Watcher.Debouncing
import Mathlib.Algebra.Order.Ring.Nat

/-!
# Updates on their way

However events, timers and calls follow each other, a wanted file that was reported is on its way
to be parsed from then on, until its parse begins or the watcher stops its timers. Nothing can block
the way: without any further event the parse can still come. And nothing is parsed that was not
reported, nor more often than it was.
-/

namespace DefinitionFiles.Watcher

/-- The event that is taken in a step. -/
def Action.event? : Action → Option DiskEvent
  | .take e | .pass e => some e
  | _ => none

/-- Whether a step needs neither an event nor the end of the watch. -/
@[simp]
def Action.isOwn : Action → Bool
  | .take _ | .pass _ | .stop => false
  | _ => true

/-- Whether a watcher still takes events. -/
@[simp]
def Phase.isServing : Phase → Bool
  | .idle | .scheduling _ | .holding _ | .parsing _ => true
  | _ => false

namespace Watch

/-- Whether the path of an event has to wait but does not yet. -/
def IsHandling (s : Watch) (e : DiskEvent) : Prop :=
  s.phase = .scheduling e ∨ s.phase = .holding e

/-- Whether the parse of a path can still come without another event. -/
def CanParse (s : Watch) (path : Bytes) : Prop :=
  ∃ actions t, Run s actions t ∧ .parse path ∈ actions ∧ ∀ a ∈ actions, a.isOwn = true

/-- What becomes of the updates in all runs that begin alike. -/
structure Pursues (start : Watch) : Prop where
  /-- A wanted file that is reported is on its way once the event is handled, until its parse
  begins or the timers are stopped. -/
  isUnderway : ∀ {front s a e t rest u}, Run start front s → Step s a t → a.event? = some e →
    e.created = true ∨ e.written = true → s.disk.stat e.path ≠ .ok .directory →
    s.watcher.isWanted e.path = true → Run t rest u → .parse e.path ∉ rest → .stop ∉ rest →
    (u.IsHandling e ∧ ∀ action ∈ rest, action = .silent) ∨ u.IsUnderway e.path
  canParse : ∀ {actions s path}, Run start actions s → s.phase.isServing = true →
    s.IsUnderway path → s.CanParse path
  /-- What is parsed was reported before, when it was wanted. -/
  exists_take : ∀ {front s path t}, Run start front s → Step s (.parse path) t →
    ∃ before u e after, front = before ++ .take e :: after ∧ Run start before u ∧
      e.path = path ∧ (e.created = true ∨ e.written = true) ∧ u.watcher.isWanted path = true
  countP_isParse_le : ∀ {actions s} path, Run start actions s →
    actions.countP (Action.isParse path) ≤ actions.countP (Action.isTake path)

variable {s t u : Watch} {a : Action} {e : DiskEvent} {path : Bytes}

theorem invariant_start {w : Watcher} {d : Disk} (h : w.pending = []) :
    Invariant { watcher := w, disk := d } :=
  ⟨by simp [h], nofun⟩

theorem underway_start {w : Watcher} {d : Disk} :
    ({ watcher := w, disk := d } : Watch).underway path = 0 :=
  rfl

/-! ## Nothing is lost -/

theorem IsHandling.step (h : s.IsHandling e) (hstep : Step s a t) :
    (t.IsHandling e ∧ a = .silent) ∨ (a = .handled e ∧ t.phase = .idle) := by
  unfold IsHandling at *
  cases hstep <;> grind

theorem phase_of_take (hstep : Step s a t) (hevent : a.event? = some e)
    (haccepts : s.watcher.accepts s.disk e = true) : t.phase = .scheduling e := by
  cases hstep with
  | pass hphase hrejects =>
      cases hevent
      simp [haccepts] at hrejects
  | take =>
      cases hevent
      rfl
  | _ => cases hevent

/-- From an event that makes its path wait, until the path is parsed or the timers are stopped, the
event is still being handled or the path is under way. -/
theorem IsHandling.run {rest : List Action} (h : s.IsHandling e) (hinvariant : Invariant s)
    (hrun : Run s rest u) (hparse : .parse e.path ∉ rest) (hstop : .stop ∉ rest) :
    (u.IsHandling e ∧ ∀ action ∈ rest, action = .silent) ∨
      (u.phase.isOpen = true ∧ u.IsUnderway e.path) := by
  induction hrun with
  | refl => exact .inl ⟨h, nofun⟩
  | @concat t u before a hrun hstep ih =>
      have hinvariant' := hrun.invariant hinvariant
      simp only [List.mem_append, List.mem_singleton, not_or, ← ne_eq] at hparse hstop
      rcases ih hparse.1 hstop.1 with ⟨hhandling, hsilent⟩ | ⟨hopen, hunderway⟩
      · rcases hhandling.step hstep with ⟨hhandling, rfl⟩ | ⟨rfl, hidle⟩
        · exact .inl ⟨hhandling, List.forall_mem_append.mpr ⟨hsilent, by simp⟩⟩
        · exact .inr ⟨by simp [hidle], hinvariant'.isUnderway_of_handled hstep⟩
      · exact .inr ⟨isOpen_step hstep hopen hstop.2.symm,
          hunderway.step hinvariant' hstep hopen hparse.2.symm⟩

/-! ## Nothing blocks the way -/

theorem CanParse.of_step (hstep : Step s a t) (hown : a.isOwn = true) (h : t.CanParse path) :
    s.CanParse path := by
  obtain ⟨actions, u, hrun, hparse, hall⟩ := h
  refine ⟨[a] ++ actions, u, ((Run.refl s).concat hstep).trans hrun, ?_, ?_⟩
  · exact List.mem_append_right _ hparse
  · exact List.forall_mem_append.mpr ⟨by simpa using hown, hall⟩

theorem canParse_of_mem_ready (hphase : s.phase = .idle) (h : path ∈ s.ready) :
    s.CanParse path := by
  generalize hready : s.ready = ready at h
  induction ready generalizing s with
  | nil => cases h
  | cons other rest ih =>
      have hstep := Step.parse hphase hready
      by_cases hsame : other = path
      · subst hsame
        exact ⟨_, _, (Run.refl s).concat hstep, by simp, by simp⟩
      · have hrest : path ∈ rest := by simpa [Ne.symm hsame] using h
        exact .of_step hstep rfl (.of_step (.examine rfl) rfl (ih rfl rfl hrest))

/-- A call that can hand its path over may have to wait until others are parsed. -/
theorem canParse_of_sending (hphase : s.phase = .idle) {i : Nat}
    (hcall : s.calls[i]? = some ⟨path, .sending⟩) : s.CanParse path := by
  generalize hready : s.ready = ready
  induction ready generalizing s with
  | nil =>
      have hroom : s.ready.length < capacity := by simp [hready, capacity]
      exact .of_step (.send hcall hroom) rfl (canParse_of_mem_ready hphase (by simp))
  | cons other rest ih =>
      exact .of_step (.parse hphase hready) rfl (.of_step (.examine rfl) rfl (ih rfl hcall rfl))

theorem canParse_of_call (hphase : s.phase = .idle) (hlocked : s.isLocked = false) {i : Nat}
    {stage : Stage} (hcall : s.calls[i]? = some ⟨path, stage⟩) (hstage : stage ≠ .finished) :
    s.CanParse path := by
  obtain ⟨hi, -⟩ := List.getElem?_eq_some_iff.mp hcall
  cases stage with
  | started =>
      refine .of_step (.enter hcall hlocked) rfl ?_
      have hholding : (s.calls.set i ⟨path, .holding⟩)[i]? = some ⟨path, .holding⟩ := by simp [hi]
      exact .of_step (.release hholding) rfl (canParse_of_sending hphase (i := i) (by simp [hi]))
  | holding =>
      exact .of_step (.release hcall) rfl (canParse_of_sending hphase (i := i) (by simp [hi]))
  | sending => exact canParse_of_sending hphase hcall
  | finished => exact absurd rfl hstage

theorem canParse_of_idle (hphase : s.phase = .idle) (hlocked : s.isLocked = false)
    (h : s.IsUnderway path) : s.CanParse path := by
  rcases h with ⟨⟨other, isArmed⟩, hmem, harmed, hpath⟩ |
    ⟨⟨other, stage⟩, hmem, hstage, hpath⟩ | hready
  · subst harmed hpath
    obtain ⟨i, htimer⟩ := List.getElem?_of_mem hmem
    have hcall : (s.calls ++ [⟨other, .started⟩])[s.calls.length]? = some ⟨other, .started⟩ := by
      simp
    exact .of_step (.fire htimer) rfl (canParse_of_call hphase hlocked hcall nofun)
  · subst hpath
    obtain ⟨i, hcall⟩ := List.getElem?_of_mem hmem
    exact canParse_of_call hphase hlocked hcall hstage
  · exact canParse_of_mem_ready hphase hready

theorem exists_handled (hphase : s.phase = .holding e) :
    ∃ t, Step s (.handled e) t ∧ t.phase = .idle ∧ t.isLocked = false := by
  by_cases hpending : e.path ∈ s.watcher.pending
  · exact ⟨_, .reset hphase hpending, rfl, rfl⟩
  · exact ⟨_, .arm hphase hpending, rfl, rfl⟩

/-- If the watcher does not hold the lock itself, a call does, and can let go of it. -/
theorem exists_release (hinvariant : Invariant s) (hlocked : s.isLocked = true)
    (hopen : s.phase.isOpen = true) (hphase : ∀ e, s.phase ≠ .holding e) :
    ∃ t, Step s .silent t ∧ t.phase = s.phase ∧ t.isLocked = false := by
  rcases hinvariant.locked hlocked with ⟨e, hholding⟩ | hclearing | ⟨i, path, hcall⟩
  · exact absurd hholding (hphase e)
  · simp [hclearing] at hopen
  · exact ⟨_, .release hcall, rfl, rfl⟩

theorem Invariant.canParse_of_holding (h : Invariant s) (hphase : s.phase = .holding e)
    (hunderway : s.IsUnderway path) : s.CanParse path := by
  obtain ⟨t, hstep, hidle, hunlocked⟩ := exists_handled hphase
  have hkept := hunderway.step h hstep (by simp [hphase]) nofun
  exact .of_step hstep rfl (canParse_of_idle hidle hunlocked hkept)

theorem Invariant.canParse_of_unlocked (h : Invariant s) (hserving : s.phase.isServing = true)
    (hlocked : s.isLocked = false) (hunderway : s.IsUnderway path) : s.CanParse path := by
  cases hphase : s.phase with
  | idle => exact canParse_of_idle hphase hlocked hunderway
  | scheduling e =>
      have hstep := Step.lock hphase hlocked
      have hkept := hunderway.step h hstep (by simp [hphase]) nofun
      exact .of_step hstep rfl ((h.step hstep).canParse_of_holding rfl hkept)
  | holding e => exact h.canParse_of_holding hphase hunderway
  | parsing other =>
      have hstep := Step.examine hphase
      have hkept := hunderway.step h hstep (by simp [hphase]) nofun
      exact .of_step hstep rfl (canParse_of_idle rfl hlocked hkept)
  | leaving | clearing | closing | stopped => simp [hphase] at hserving

theorem Invariant.canParse (h : Invariant s) (hserving : s.phase.isServing = true)
    (hunderway : s.IsUnderway path) : s.CanParse path := by
  have hopen : s.phase.isOpen = true := by cases hphase : s.phase <;> simp_all
  by_cases hholding : ∃ e, s.phase = .holding e
  · obtain ⟨e, hphase⟩ := hholding
    exact h.canParse_of_holding hphase hunderway
  · cases hlocked : s.isLocked with
    | false => exact h.canParse_of_unlocked hserving hlocked hunderway
    | true =>
        obtain ⟨t, hstep, hphase, hunlocked⟩ :=
          exists_release h hlocked hopen (not_exists.mp hholding)
        have hkept := hunderway.step h hstep hopen nofun
        exact .of_step hstep rfl
          ((h.step hstep).canParse_of_unlocked (hphase ▸ hserving) hunlocked hkept)

/-! ## Nothing comes from nowhere -/

theorem isWanted_of_take (hstep : Step s (.take e) t) :
    (e.created = true ∨ e.written = true) ∧ s.watcher.isWanted e.path = true := by
  cases hstep with
  | take hphase haccepts => exact isWanted_of_accepts haccepts

theorem exists_take_of_isUnderway {w : Watcher} {d : Disk} {actions : List Action}
    (hpending : w.pending = []) (hrun : Run { watcher := w, disk := d } actions s)
    (h : s.IsUnderway path) : ∃ e, .take e ∈ actions ∧ e.path = path := by
  have hle := hrun.countP_isParse_le (invariant_start hpending) path
  rw [isUnderway_iff] at h
  have hpos : 0 < actions.countP (Action.isTake path) := by
    simp only [underway_start, Phase.asks] at hle
    omega
  obtain ⟨a, ha, htake⟩ := List.countP_pos_iff.mp hpos
  cases a with
  | take e => exact ⟨e, ha, by simpa using htake⟩
  | _ => cases htake

/-- Once a watcher has started, however events, timers and calls follow each other: a wanted file
that is created or written is on its way until its parse begins or the watcher stops, and as long as
the watcher serves it can be parsed without any further event. Nothing is parsed that was not
reported, nor more often than it was reported. -/
theorem pursues_of_start {ws : Workspace} {d : Disk} {w : Watcher}
    (h : ({ workspace := ws } : Watcher).start d = (w, none)) :
    Pursues { watcher := w, disk := d } := by
  have hpending : w.pending = [] := (enrols_start h).pending_eq
  have hinvariant : Invariant { watcher := w, disk := d } := invariant_start hpending
  refine ⟨?_, ?_, ?_, ?_⟩
  · intro front s a e t rest u hfront hstep hevent hkind hstat hwanted hrest hparse hstop
    have hhandling : t.IsHandling e :=
      .inl (phase_of_take hstep hevent (accepts_of_isWanted hkind hstat hwanted))
    have hinvariant' := (hfront.invariant hinvariant).step hstep
    exact (hhandling.run hinvariant' hrest hparse hstop).imp_right And.right
  · intro actions s path hrun hserving hunderway
    exact (hrun.invariant hinvariant).canParse hserving hunderway
  · intro front s path t hrun hstep
    have hunderway : s.IsUnderway path := by
      cases hstep with
      | parse hphase hready => exact .inr (.inr (by simp [hready]))
    obtain ⟨e, hmem, rfl⟩ := exists_take_of_isUnderway hpending hrun hunderway
    obtain ⟨before, u, v, after, hfront, hbefore, htake⟩ := hrun.exists_of_mem hmem
    obtain ⟨hkind, hwanted⟩ := isWanted_of_take htake
    exact ⟨before, u, e, after, hfront, hbefore, rfl, hkind, hwanted⟩
  · intro actions s path hrun
    have hle := hrun.countP_isParse_le hinvariant path
    simp only [underway_start, Phase.asks] at hle
    omega

/-- A disk with a file in the directory `/t`. -/
def garden : Disk where
  inodes := [([utf8 "t"], .directory), ([utf8 "t", utf8 "a.dfn"], .file [])]

/-- The watcher of `/t`, just started. -/
def tending : Watch where
  watcher := (({ workspace := { roots := [utf8 "/t"] } } : Watcher).start garden).1
  disk := garden

/-- The file `/t/a.dfn` was written. -/
def rewritten : DiskEvent where
  path := utf8 "/t/a.dfn"
  written := true

/-- A file is written three times. The timer of the first time runs out before the second, which
sets it anew, and its call lets go of the lock before the third, which makes another timer. Then the
first timer runs out again, and its call takes the path off those that wait, although the other
timer is still set. At last the first call hands the path over, and it is parsed. -/
def overtaken : List Action :=
  [.take rewritten, .silent, .handled rewritten, .silent,
    .take rewritten, .silent, .handled rewritten, .silent, .silent,
    .take rewritten, .silent, .handled rewritten, .silent, .silent, .silent,
    .silent, .parse rewritten.path]

theorem start_garden :
    ({ workspace := { roots := [utf8 "/t"] } } : Watcher).start garden = (tending.watcher, none) :=
  Prod.ext rfl (by decide +kernel)

theorem stat_rewritten : garden.stat rewritten.path = .ok (.file []) := by
  decide +kernel

theorem isWanted_rewritten : tending.watcher.isWanted rewritten.path = true := by
  decide +kernel

theorem exists_run_overtaken :
    ∃ s, Run tending overtaken s ∧ s.watcher.pending = [] ∧ s.IsUnderway rewritten.path := by
  have haccepts : tending.watcher.accepts tending.disk rewritten = true :=
    accepts_of_isWanted (.inr rfl) (by simp [tending, stat_rewritten]) isWanted_rewritten
  have hpending : tending.watcher.pending = [] := (enrols_start start_garden).pending_eq
  have h₁ := (Run.refl tending).concat (.take rfl haccepts)
  have h₂ := h₁.concat (.lock rfl rfl)
  have h₃ := h₂.concat (.arm rfl (by simp [hpending]))
  have h₄ := h₃.concat (@Step.fire _ 0 rewritten.path rfl)
  have h₅ := h₄.concat (.take rfl haccepts)
  have h₆ := h₅.concat (.lock rfl rfl)
  have h₇ := h₆.concat (.reset rfl (by simp [mem_pending_schedule_iff]))
  have h₈ := h₇.concat (@Step.enter _ 0 rewritten.path rfl rfl)
  have h₉ := h₈.concat (@Step.release _ 0 rewritten.path rfl)
  have h₁₀ := h₉.concat (.take rfl haccepts)
  have h₁₁ := h₁₀.concat (.lock rfl rfl)
  have h₁₂ := h₁₁.concat (.arm rfl (by simp))
  have h₁₃ := h₁₂.concat (@Step.fire _ 0 rewritten.path (by simp [Timer.turn, tending]))
  have h₁₄ := h₁₃.concat (@Step.enter _ 1 rewritten.path rfl rfl)
  have h₁₅ := h₁₄.concat (@Step.release _ 1 rewritten.path rfl)
  have h₁₆ := h₁₅.concat (@Step.send _ 0 rewritten.path rfl (by simp [capacity, tending]))
  have h₁₇ := h₁₆.concat (@Step.parse _ rewritten.path [] rfl rfl)
  refine ⟨_, h₁₇, ?_, ?_⟩
  · simp [schedule, hpending]
  · exact .inr (.inl ⟨⟨rewritten.path, .sending⟩, by simp [tending], by decide, rfl⟩)

theorem pursues_tending :
    ({ workspace := { roots := [utf8 "/t"] } } : Watcher).start garden = (tending.watcher, none) ∧
      garden.stat rewritten.path = .ok (.file []) ∧
      tending.watcher.isWanted rewritten.path = true ∧
      (∃ s, Run tending overtaken s ∧ s.watcher.pending = [] ∧ s.IsUnderway rewritten.path) ∧
      Pursues tending :=
  ⟨start_garden, stat_rewritten, isWanted_rewritten, exists_run_overtaken,
    pursues_of_start start_garden⟩

end Watch

end DefinitionFiles.Watcher
