import DefinitionFiles.Proofs.Workspace
import Mathlib.Logic.Relation

/-!
# Scanning step by step

A scan reads the files of a workspace side by side. It lists them, hands one after the other to a
worker of its own, a limited number at a time, waits for the workers, and looks once more whether it
was cancelled. The workers note the first error among them and halt the rest. Every step is one
that can happen on its own, so that a run of steps is one way in which the workers may be scheduled
and in which the scan may be cancelled.
-/

namespace DefinitionFiles.Workspace

/-- What a scan is doing. -/
inductive Phase where
  | listing
  /-- Between two files. -/
  | launching
  /-- Trying to hand over the next file, perhaps until another worker is through. -/
  | handing
  /-- Every worker that is needed was launched. -/
  | waiting
  /-- All workers are through, and none failed. -/
  | checking
  deriving DecidableEq

/-- How far a worker has come with its file. -/
inductive Worker where
  | started
  /-- The scan was not halted when the worker looked. -/
  | admitted
  | parsed (result : FileResult)
  /-- The store was told. -/
  | recorded (result : FileResult)
  /-- The result is in its place, and the worker is through. -/
  | kept (result : FileResult)
  | failing (error : Error)
  /-- The error was reported, and the worker is through. -/
  | failed

namespace Worker

def isActive : Worker → Bool
  | .kept _ | .failed => false
  | _ => true

/-- The definition the worker has told the store. -/
def recorded? : Worker → Option Definition
  | .recorded result | .kept result => result.definition?
  | _ => none

/-- What a worker does about its file without any effect on the others. -/
inductive Step (w : Workspace) (d : Disk) (path : Bytes) (isHalted : Bool) :
    Worker → Worker → Prop where
  | refuse (hhalted : isHalted = true) : Step w d path isHalted .started (.failing .cancelled)
  | enter (hhalted : isHalted = false) : Step w d path isHalted .started .admitted
  | stumble {e : FileError} (hread : w.examine d path = .error e) :
      Step w d path isHalted .admitted (.failing (.unreadable e))
  | parse {result : FileResult} (hread : w.examine d path = .ok result) :
      Step w d path isHalted .admitted (.parsed result)

end Worker

/-- A scan under way. -/
structure Scan where
  phase : Phase := .listing
  files : List Bytes := []
  /-- The workers of the first files, in the order of the files. -/
  workers : List Worker := []
  /-- A place for the result of every file. -/
  results : List FileResult := []
  store? : Option Store
  /-- The first error that was reported. -/
  failure? : Option Error := none
  /-- Whether the workers are told to stop. -/
  isHalted : Bool := false
  /-- Whether the caller cancelled the scan. -/
  isCancelled : Bool := false

/-- How many workers there may be at a time. -/
def workerLimit (w : Workspace) (processors : Nat) : Nat :=
  if 0 < w.concurrency then w.concurrency.toNat else processors

namespace Scan

/-- What can happen to a scan. -/
inductive Step (w : Workspace) (d : Disk) (processors : Nat) : Scan → Scan → Prop where
  | list {s : Scan} {files : List Bytes} (hphase : s.phase = .listing)
      (hfiles : w.files d = .ok files) :
      Step w d processors s
        { s with
          phase := .launching
          files := files
          results := List.replicate files.length ⟨[], none, []⟩ }
  | cancel {s : Scan} (hcancelled : s.isCancelled = false) :
      Step w d processors s { s with isCancelled := true }
  | halt {s : Scan} (hcancelled : s.isCancelled = true) (hhalted : s.isHalted = false) :
      Step w d processors s { s with isHalted := true }
  | exhaust {s : Scan} (hphase : s.phase = .launching)
      (hall : s.workers.length = s.files.length) :
      Step w d processors s { s with phase := .waiting }
  | stop {s : Scan} (hphase : s.phase = .launching) (hnext : s.workers.length < s.files.length)
      (hhalted : s.isHalted = true) :
      Step w d processors s { s with phase := .waiting }
  | proceed {s : Scan} (hphase : s.phase = .launching)
      (hnext : s.workers.length < s.files.length) (hhalted : s.isHalted = false) :
      Step w d processors s { s with phase := .handing }
  | launch {s : Scan} (hphase : s.phase = .handing) (hnext : s.workers.length < s.files.length)
      (hlimit : s.workers.countP Worker.isActive < w.workerLimit processors) :
      Step w d processors s { s with phase := .launching, workers := s.workers ++ [.started] }
  | work {s : Scan} {i : Nat} {path : Bytes} {a b : Worker} (hworker : s.workers[i]? = some a)
      (hpath : s.files[i]? = some path) (hstep : Worker.Step w d path s.isHalted a b) :
      Step w d processors s { s with workers := s.workers.set i b }
  | record {s : Scan} {i : Nat} {result : FileResult} {definition : Definition}
      (hworker : s.workers[i]? = some (.parsed result))
      (hdefinition : result.definition? = some definition) :
      Step w d processors s
        { s with
          workers := s.workers.set i (.recorded result)
          store? := s.store?.map fun store => store.append definition }
  | keep {s : Scan} {i : Nat} {result : FileResult}
      (hworker : s.workers[i]? = some (.recorded result)) :
      Step w d processors s
        { s with
          workers := s.workers.set i (.kept result)
          results := s.results.set i result }
  | report {s : Scan} {i : Nat} {e : Error} (hworker : s.workers[i]? = some (.failing e)) :
      Step w d processors s
        { s with
          workers := s.workers.set i .failed
          failure? := s.failure?.or (some e)
          isHalted := true }
  | collect {s : Scan} (hphase : s.phase = .waiting)
      (hover : ∀ worker ∈ s.workers, worker.isActive = false) (hfailure : s.failure? = none) :
      Step w d processors s { s with phase := .checking }

/-- Where a scan ends, and with what. -/
inductive Returns (w : Workspace) (d : Disk) :
    Scan → Except Error (List FileResult) → Prop where
  | unlisted {s : Scan} {e : Error} (hphase : s.phase = .listing) (hfiles : w.files d = .error e) :
      Returns w d s (.error e)
  | failed {s : Scan} {e : Error} (hphase : s.phase = .waiting)
      (hover : ∀ worker ∈ s.workers, worker.isActive = false) (hfailure : s.failure? = some e) :
      Returns w d s (.error e)
  | cancelled {s : Scan} (hphase : s.phase = .checking) (hcancelled : s.isCancelled = true) :
      Returns w d s (.error .cancelled)
  | succeeded {s : Scan} (hphase : s.phase = .checking) (hcancelled : s.isCancelled = false) :
      Returns w d s (.ok s.results)

/-- Whether a scan that may tell a store can get to a state. -/
def Reaches (w : Workspace) (d : Disk) (processors : Nat) (store? : Option Store) (s : Scan) :
    Prop :=
  Relation.ReflTransGen (Step w d processors) { store? := store? } s

end Scan

/-! ## What holds all along -/

/-- Whether there is a reason for a scan to fail. -/
def Scan.IsDoomed (w : Workspace) (d : Disk) (s : Scan) : Prop :=
  s.isCancelled = true ∨ ∃ path ∈ s.files, ∃ e, w.examine d path = .error e

/-- What is true of the worker of a file. -/
def Worker.Agrees (w : Workspace) (d : Disk) (s : Scan) (i : Nat) (path : Bytes) :
    Worker → Prop
  | .started | .admitted => True
  | .parsed result | .recorded result => w.examine d path = .ok result
  | .kept result => w.examine d path = .ok result ∧ s.results[i]? = some result
  | .failing _ => s.IsDoomed w d
  | .failed => s.failure?.isSome = true

section Workers

variable {workers : List Worker} {i : Nat} {a b : Worker}

theorem exists_append_of_getElem? {α : Type*} {l : List α} {i : Nat} {a : α} (h : l[i]? = some a)
    (b : α) : ∃ front rest, l = front ++ a :: rest ∧ l.set i b = front ++ b :: rest := by
  obtain ⟨hi, rfl⟩ := List.getElem?_eq_some_iff.mp h
  have hset : ∃ front rest, l = front ++ l[i] :: rest ∧ front.length = i ∧
      l.set i b = front ++ b :: rest := List.exists_of_set hi
  obtain ⟨front, rest, hl, -, hset⟩ := hset
  exact ⟨front, rest, hl, hset⟩

theorem filterMap_recorded?_set (h : workers[i]? = some a) (hsame : b.recorded? = a.recorded?) :
    (workers.set i b).filterMap Worker.recorded? = workers.filterMap Worker.recorded? := by
  obtain ⟨front, rest, hworkers, hset⟩ := exists_append_of_getElem? h b
  rw [hset, hworkers, List.filterMap_append, List.filterMap_append, List.filterMap_cons,
    List.filterMap_cons, hsame]

theorem perm_filterMap_recorded?_set {definition : Definition} (h : workers[i]? = some a)
    (hbefore : a.recorded? = none) (hafter : b.recorded? = some definition) :
    (definition :: workers.filterMap Worker.recorded?).Perm
      ((workers.set i b).filterMap Worker.recorded?) := by
  obtain ⟨front, rest, hworkers, hset⟩ := exists_append_of_getElem? h b
  rw [hset, hworkers, List.filterMap_append, List.filterMap_append,
    List.filterMap_cons_none hbefore, List.filterMap_cons_some hafter]
  exact List.perm_middle.symm

end Workers

namespace Scan

variable {w : Workspace} {d : Disk} {processors : Nat} {store? : Option Store} {s t : Scan}

/-- What holds of a scan all along. -/
structure Invariant (w : Workspace) (d : Disk) (store? : Option Store) (s : Scan) : Prop where
  unlisted : s.phase = .listing → s.files = []
  listed : s.phase ≠ .listing → w.files d = .ok s.files
  length_workers : s.workers.length ≤ s.files.length
  handing : s.phase = .handing → s.workers.length < s.files.length
  length_results : s.results.length = s.files.length
  agrees : ∀ (i : Nat) (worker : Worker), s.workers[i]? = some worker →
    ∃ path, s.files[i]? = some path ∧ worker.Agrees w d s i path
  recorded : ∃ order : List Definition, order.Perm (s.workers.filterMap Worker.recorded?) ∧
    s.store? = store?.map fun store => order.foldl Store.append store
  halted : s.isHalted = true → s.isCancelled = true ∨ s.failure?.isSome = true
  doomed : s.failure?.isSome = true → s.IsDoomed w d
  launched : s.phase = .waiting ∨ s.phase = .checking →
    s.workers.length = s.files.length ∨ s.isHalted = true
  collected : s.phase = .checking →
    s.failure? = none ∧ ∀ worker ∈ s.workers, worker.isActive = false

theorem invariant_start (store? : Option Store) :
    Invariant w d store? { store? := store? } where
  unlisted := fun _ => rfl
  listed := fun h => absurd rfl h
  length_workers := Nat.le_refl _
  handing := nofun
  length_results := rfl
  agrees := nofun
  recorded := ⟨[], List.Perm.refl _, by simp⟩
  halted := nofun
  doomed := nofun
  launched := nofun
  collected := nofun

/-- Nothing that happens takes the reason for a failure away. -/
theorem IsDoomed.mono (h : s.IsDoomed w d) (hfiles : t.files = s.files)
    (hcancelled : s.isCancelled = true → t.isCancelled = true) : t.IsDoomed w d := by
  rcases h with h | ⟨path, hpath, e, hread⟩
  · exact .inl (hcancelled h)
  · exact .inr ⟨path, hfiles ▸ hpath, e, hread⟩

theorem agrees_mono {i : Nat} {path : Bytes} {worker : Worker} (h : worker.Agrees w d s i path)
    (hfiles : t.files = s.files) (hresults : t.results[i]? = s.results[i]?)
    (hcancelled : s.isCancelled = true → t.isCancelled = true)
    (hfailure : s.failure?.isSome = true → t.failure?.isSome = true) :
    worker.Agrees w d t i path := by
  cases worker with
  | started | admitted | parsed _ | recorded _ => exact h
  | kept result => exact ⟨h.1, hresults.trans h.2⟩
  | failing e => exact IsDoomed.mono h hfiles hcancelled
  | failed => exact hfailure h

namespace Invariant

/-- A change of phase alone. -/
theorem turn (h : Invariant w d store? s) {phase : Phase} (hbefore : s.phase ≠ .listing)
    (hafter : phase ≠ .listing)
    (hhanding : phase = .handing → s.workers.length < s.files.length)
    (hlaunched : phase = .waiting ∨ phase = .checking →
      s.workers.length = s.files.length ∨ s.isHalted = true)
    (hcollected : phase = .checking →
      s.failure? = none ∧ ∀ worker ∈ s.workers, worker.isActive = false) :
    Invariant w d store? { s with phase := phase } where
  unlisted := fun hphase => absurd hphase hafter
  listed := fun _ => h.listed hbefore
  length_workers := h.length_workers
  handing := hhanding
  length_results := h.length_results
  agrees := fun i worker hworker => by
    obtain ⟨path, hpath, hagrees⟩ := h.agrees i worker hworker
    exact ⟨path, hpath, agrees_mono hagrees rfl rfl id id⟩
  recorded := h.recorded
  halted := h.halted
  doomed := fun hfailure => (h.doomed hfailure).mono rfl id
  launched := hlaunched
  collected := hcollected

/-- Cancelling or halting. -/
theorem signal (h : Invariant w d store? s) {isHalted isCancelled : Bool}
    (hcancelled : s.isCancelled = true → isCancelled = true)
    (hkept : s.isHalted = true → isHalted = true)
    (hhalted : isHalted = true → isCancelled = true ∨ s.failure?.isSome = true) :
    Invariant w d store? { s with isHalted := isHalted, isCancelled := isCancelled } where
  unlisted := h.unlisted
  listed := h.listed
  length_workers := h.length_workers
  handing := h.handing
  length_results := h.length_results
  agrees := fun i worker hworker => by
    obtain ⟨path, hpath, hagrees⟩ := h.agrees i worker hworker
    exact ⟨path, hpath, agrees_mono hagrees rfl rfl hcancelled id⟩
  recorded := h.recorded
  halted := hhalted
  doomed := fun hfailure => (h.doomed hfailure).mono rfl hcancelled
  launched := fun hphase => (h.launched hphase).imp_right hkept
  collected := h.collected

theorem list (h : Invariant w d store? s) (hphase : s.phase = .listing) {files : List Bytes}
    (hfiles : w.files d = .ok files) :
    Invariant w d store?
      { s with
        phase := .launching
        files := files
        results := List.replicate files.length ⟨[], none, []⟩ } := by
  have hworkers : s.workers = [] := by
    have hlength := h.length_workers
    rw [h.unlisted hphase] at hlength
    exact List.eq_nil_of_length_eq_zero (Nat.le_zero.mp hlength)
  have hnone : ∀ i : Nat, s.workers[i]? = none := by simp [hworkers]
  refine ⟨nofun, fun _ => hfiles, by simp [hworkers], nofun, by simp, ?_, h.recorded, h.halted, ?_,
    nofun, nofun⟩
  · intro i worker hworker
    simp [hnone] at hworker
  · intro hfailure
    rcases h.doomed hfailure with hcancelled | ⟨path, hpath, -⟩
    · exact .inl hcancelled
    · rw [h.unlisted hphase] at hpath
      cases hpath

theorem launch (h : Invariant w d store? s) (hphase : s.phase = .handing)
    (hnext : s.workers.length < s.files.length) :
    Invariant w d store? { s with phase := .launching, workers := s.workers ++ [.started] } where
  unlisted := nofun
  listed := fun _ => h.listed (by simp [hphase])
  length_workers := by
    rw [List.length_append, List.length_singleton]
    exact hnext
  handing := nofun
  length_results := h.length_results
  agrees := fun i worker hworker => by
    by_cases hi : i < s.workers.length
    · rw [List.getElem?_append_left hi] at hworker
      obtain ⟨path, hpath, hagrees⟩ := h.agrees i worker hworker
      exact ⟨path, hpath, agrees_mono hagrees rfl rfl id id⟩
    · obtain ⟨rfl, rfl⟩ : i = s.workers.length ∧ worker = .started := by grind
      exact ⟨s.files[s.workers.length], List.getElem?_eq_getElem hnext, trivial⟩
  recorded := by
    obtain ⟨order, hperm, hstore⟩ := h.recorded
    refine ⟨order, ?_, hstore⟩
    rwa [List.filterMap_append, List.filterMap_cons_none rfl, List.filterMap_nil, List.append_nil]
  halted := h.halted
  doomed := fun hfailure => (h.doomed hfailure).mono rfl id
  launched := nofun
  collected := nofun

/-- What one worker does, with the effects it has on the rest of the scan. -/
theorem move (h : Invariant w d store? s) {i : Nat} {a b : Worker} {path : Bytes}
    {moved? : Option Store} {results : List FileResult} {failure? : Option Error} {isHalted : Bool}
    (hworker : s.workers[i]? = some a) (hactive : a.isActive = true)
    (hpath : s.files[i]? = some path)
    (hagrees : b.Agrees w d { s with results := results, failure? := failure? } i path)
    (hrecorded : ∃ order : List Definition,
      order.Perm ((s.workers.set i b).filterMap Worker.recorded?) ∧
      moved? = store?.map fun store => order.foldl Store.append store)
    (hlength : results.length = s.results.length)
    (hresults : ∀ j, j ≠ i → results[j]? = s.results[j]?)
    (hfailure : s.failure?.isSome = true → failure?.isSome = true)
    (hdoomed : failure?.isSome = true → s.IsDoomed w d)
    (hkept : s.isHalted = true → isHalted = true)
    (hhalted : isHalted = true → s.isCancelled = true ∨ failure?.isSome = true) :
    Invariant w d store?
      { s with
        workers := s.workers.set i b
        store? := moved?
        results := results
        failure? := failure?
        isHalted := isHalted } where
  unlisted := h.unlisted
  listed := h.listed
  length_workers := by simpa using h.length_workers
  handing := by simpa using h.handing
  length_results := hlength.trans h.length_results
  agrees := fun j worker hj => by
    by_cases hji : j = i
    · subst hji
      have hb : worker = b := by grind
      subst hb
      exact ⟨path, hpath, agrees_mono hagrees rfl rfl id id⟩
    · obtain ⟨other, hother, hagreed⟩ := h.agrees j worker (by grind)
      exact ⟨other, hother, agrees_mono hagreed rfl (hresults j hji) id hfailure⟩
  recorded := hrecorded
  halted := hhalted
  doomed := fun hsome => (hdoomed hsome).mono rfl id
  launched := fun hphase => by
    rw [List.length_set]
    exact (h.launched hphase).imp_right hkept
  collected := fun hphase => by
    -- No worker is active when the scan is about to return.
    have hover := (h.collected hphase).2 a (List.mem_of_getElem? hworker)
    rw [hactive] at hover
    cases hover

theorem work (h : Invariant w d store? s) {i : Nat} {a b : Worker} {path : Bytes}
    (hworker : s.workers[i]? = some a) (hpath : s.files[i]? = some path)
    (hstep : Worker.Step w d path s.isHalted a b) :
    Invariant w d store? { s with workers := s.workers.set i b } := by
  have hactive : a.isActive = true := by cases hstep <;> rfl
  have hsame : b.recorded? = a.recorded? := by cases hstep <;> rfl
  have hagrees : b.Agrees w d s i path := by
    cases hstep with
    | refuse hhalted =>
        rcases h.halted hhalted with hcancelled | hfailure
        · exact .inl hcancelled
        · exact h.doomed hfailure
    | enter _ => trivial
    | stumble hread => exact .inr ⟨path, List.mem_of_getElem? hpath, _, hread⟩
    | parse hread => exact hread
  refine h.move hworker hactive hpath hagrees ?_ rfl (fun _ _ => rfl) id h.doomed id h.halted
  rw [filterMap_recorded?_set hworker hsame]
  exact h.recorded

theorem record (h : Invariant w d store? s) {i : Nat} {result : FileResult}
    {definition : Definition} (hworker : s.workers[i]? = some (.parsed result))
    (hdefinition : result.definition? = some definition) :
    Invariant w d store?
      { s with
        workers := s.workers.set i (.recorded result)
        store? := s.store?.map fun store => store.append definition } := by
  obtain ⟨path, hpath, hagrees⟩ := h.agrees i _ hworker
  refine h.move hworker rfl hpath hagrees ?_ rfl (fun _ _ => rfl) id h.doomed id h.halted
  obtain ⟨order, hperm, hstore⟩ := h.recorded
  refine ⟨order ++ [definition], ?_, ?_⟩
  · have hrecorded := perm_filterMap_recorded?_set (b := .recorded result) hworker rfl hdefinition
    exact ((List.perm_append_singleton definition order).trans (hperm.cons definition)).trans
      hrecorded
  · rw [hstore, Option.map_map]
    congr 1
    funext store
    rw [List.foldl_concat]
    rfl

theorem keep (h : Invariant w d store? s) {i : Nat} {result : FileResult}
    (hworker : s.workers[i]? = some (.recorded result)) :
    Invariant w d store?
      { s with
        workers := s.workers.set i (.kept result)
        results := s.results.set i result } := by
  obtain ⟨path, hpath, hagrees⟩ := h.agrees i _ hworker
  have hi : i < s.results.length := by
    rw [h.length_results]
    exact (List.getElem?_eq_some_iff.mp hpath).1
  refine h.move hworker rfl hpath ⟨hagrees, ?_⟩ ?_ ?_ ?_ id h.doomed id h.halted
  · exact List.getElem?_set_self hi
  · rw [filterMap_recorded?_set (b := .kept result) hworker rfl]
    exact h.recorded
  · exact List.length_set
  · intro j hj
    exact List.getElem?_set_ne (Ne.symm hj)

theorem report (h : Invariant w d store? s) {i : Nat} {e : Error}
    (hworker : s.workers[i]? = some (.failing e)) :
    Invariant w d store?
      { s with
        workers := s.workers.set i .failed
        failure? := s.failure?.or (some e)
        isHalted := true } := by
  obtain ⟨path, hpath, hdoomed⟩ := h.agrees i _ hworker
  have hsome : (s.failure?.or (some e)).isSome = true := by simp
  refine h.move hworker rfl hpath hsome ?_ rfl (fun _ _ => rfl) (fun _ => hsome)
    (fun _ => hdoomed) (fun _ => rfl) (fun _ => .inr hsome)
  rw [filterMap_recorded?_set (b := .failed) hworker rfl]
  exact h.recorded

theorem step (h : Invariant w d store? s) (hstep : Step w d processors s t) :
    Invariant w d store? t := by
  cases hstep with
  | list hphase hfiles => exact h.list hphase hfiles
  | cancel hcancelled => exact h.signal (fun _ => rfl) id (fun _ => .inl rfl)
  | halt hcancelled hhalted => exact h.signal id (fun _ => rfl) (fun _ => .inl hcancelled)
  | exhaust hphase hall =>
      exact h.turn (by simp [hphase]) nofun nofun (fun _ => .inl hall) nofun
  | stop hphase _ hhalted =>
      exact h.turn (by simp [hphase]) nofun nofun (fun _ => .inr hhalted) nofun
  | proceed hphase hnext _ =>
      exact h.turn (by simp [hphase]) nofun (fun _ => hnext) nofun nofun
  | launch hphase hnext hlimit => exact h.launch hphase hnext
  | work hworker hpath hstep => exact h.work hworker hpath hstep
  | record hworker hdefinition => exact h.record hworker hdefinition
  | keep hworker => exact h.keep hworker
  | report hworker => exact h.report hworker
  | collect hphase hover hfailure =>
      exact h.turn (by simp [hphase]) nofun nofun (fun _ => h.launched (.inl hphase))
        (fun _ => ⟨hfailure, hover⟩)

end Invariant

theorem invariant_of_reaches (h : Reaches w d processors store? s) : Invariant w d store? s := by
  induction h with
  | refl => exact invariant_start store?
  | tail _ hstep ih => exact ih.step hstep

end Scan

end DefinitionFiles.Workspace
