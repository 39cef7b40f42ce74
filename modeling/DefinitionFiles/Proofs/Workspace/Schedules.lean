import DefinitionFiles.Proofs.Store
import DefinitionFiles.Proofs.Workspace.Scanning
import Mathlib.Algebra.GroupWithZero.Nat
import Mathlib.Data.List.Forall2
import Mathlib.Data.List.Nodup
import Mathlib.Logic.Relation

/-!
# Every schedule gives the same

However the workers of a scan are scheduled and whenever it is cancelled, the scan comes to an end,
and it succeeds exactly if reading the files one after the other does, with the same results. The
store is then told of every file once. The order in which it is told differs, but not the history of
any document, since no two files share a URI.
-/

namespace DefinitionFiles.Workspace

/-! ## A scan comes to an end -/

/-- A bound on how many steps a worker has left. -/
def Worker.remaining : Worker → Nat
  | .started => 4
  | .admitted => 3
  | .parsed _ => 2
  | .recorded _ | .failing _ => 1
  | .kept _ | .failed => 0

namespace Scan

/-- A bound on how many steps are left. For every file there are those of its worker and two that
launch it. -/
def remaining (w : Workspace) (d : Disk) (s : Scan) : Nat :=
  (!s.isCancelled).toNat + (!s.isHalted).toNat + (s.workers.map Worker.remaining).sum +
    match s.phase with
    | .listing =>
        match w.files d with
        | .ok files => 6 * files.length + 3
        | .error _ => 0
    | .launching => 6 * (s.files.length - s.workers.length) + 2
    | .handing => 6 * (s.files.length - s.workers.length) + 1
    | .waiting => 1
    | .checking => 0

end Scan

section Workers

variable {workers : List Worker} {i : Nat} {a b : Worker}

theorem sum_remaining_set (h : workers[i]? = some a) (hless : b.remaining < a.remaining) :
    ((workers.set i b).map Worker.remaining).sum < (workers.map Worker.remaining).sum := by
  obtain ⟨front, rest, hworkers, hset⟩ := exists_append_of_getElem? h b
  rw [hset, hworkers]
  simp only [List.map_append, List.map_cons, List.sum_append, List.sum_cons]
  omega

end Workers

variable {w : Workspace} {d : Disk} {processors : Nat} {store? : Option Store} {s t : Scan}

namespace Scan

theorem remaining_lt (h : Step w d processors s t) : t.remaining w d < s.remaining w d := by
  cases h with
  | list hphase hfiles =>
      simp only [remaining, hphase, hfiles]
      omega
  | cancel hcancelled => simp [remaining, hcancelled]
  | halt hcancelled hhalted => simp [remaining, hhalted]
  | exhaust hphase _ | stop hphase _ _ | proceed hphase _ _ | collect hphase _ _ =>
      simp only [remaining, hphase]
      omega
  | launch hphase hnext hlimit =>
      simp only [remaining, hphase, List.map_append, List.sum_append, List.map_cons, List.map_nil,
        List.sum_cons, List.sum_nil, Worker.remaining, List.length_append, List.length_singleton]
      omega
  | @work i path a b hworker hpath hstep =>
      have hworker := sum_remaining_set hworker (b := b) (by cases hstep <;> simp [Worker.remaining])
      simp only [remaining, List.length_set]
      omega
  | @record i result definition hworker hdefinition =>
      have hworker := sum_remaining_set hworker (b := .recorded result) (Nat.lt_succ_self 1)
      simp only [remaining, List.length_set]
      omega
  | @keep i result hworker =>
      have hworker := sum_remaining_set hworker (b := .kept result) Nat.zero_lt_one
      simp only [remaining, List.length_set]
      omega
  | report hworker =>
      have hworker := sum_remaining_set hworker (b := .failed) Nat.zero_lt_one
      simp only [remaining, List.length_set, Bool.not_true, Bool.toNat_false]
      omega

/-- No scan goes on for ever. -/
theorem wellFounded_step (w : Workspace) (d : Disk) (processors : Nat) :
    WellFounded fun t s => Step w d processors s t :=
  Subrelation.wf remaining_lt (measure (remaining w d)).wf

namespace Invariant

/-- A worker that is not through can always go on. -/
theorem exists_step_of_active (h : Invariant w d store? s) {worker : Worker}
    (hmem : worker ∈ s.workers) (hactive : worker.isActive = true) :
    ∃ t, Step w d processors s t ∧ t.isCancelled = s.isCancelled := by
  obtain ⟨i, hworker⟩ := List.getElem?_of_mem hmem
  obtain ⟨path, hpath, hagrees⟩ := h.agrees i worker hworker
  cases worker with
  | started =>
      cases hhalted : s.isHalted with
      | true => exact ⟨_, .work hworker hpath (.refuse hhalted), rfl⟩
      | false => exact ⟨_, .work hworker hpath (.enter hhalted), rfl⟩
  | admitted =>
      cases hread : w.examine d path with
      | error e => exact ⟨_, .work hworker hpath (.stumble hread), rfl⟩
      | ok result => exact ⟨_, .work hworker hpath (.parse hread), rfl⟩
  | parsed result =>
      obtain ⟨definition, hdefinition, -⟩ := exists_definition_of_examine hagrees
      exact ⟨_, .record hworker hdefinition, rfl⟩
  | recorded result => exact ⟨_, .keep hworker, rfl⟩
  | failing e => exact ⟨_, .report hworker, rfl⟩
  | kept _ | failed => cases hactive

/-- A scan that has not returned goes on without being cancelled. -/
theorem exists_returns_or_step (h : Invariant w d store? s) (hprocessors : 0 < processors) :
    (∃ outcome, Returns w d s outcome) ∨
      ∃ t, Step w d processors s t ∧ t.isCancelled = s.isCancelled := by
  cases hphase : s.phase with
  | listing =>
      cases hfiles : w.files d with
      | error e => exact .inl ⟨_, .unlisted hphase hfiles⟩
      | ok files => exact .inr ⟨_, .list hphase hfiles, rfl⟩
  | launching =>
      rcases Nat.lt_or_eq_of_le h.length_workers with hnext | hall
      · cases hhalted : s.isHalted with
        | true => exact .inr ⟨_, .stop hphase hnext hhalted, rfl⟩
        | false => exact .inr ⟨_, .proceed hphase hnext hhalted, rfl⟩
      · exact .inr ⟨_, .exhaust hphase hall, rfl⟩
  | handing =>
      by_cases hlimit : s.workers.countP Worker.isActive < w.workerLimit processors
      · exact .inr ⟨_, .launch hphase (h.handing hphase) hlimit, rfl⟩
      · -- All places are taken, by workers that can go on.
        have hpositive : 0 < w.workerLimit processors := by
          unfold workerLimit
          split <;> omega
        have hbusy : 0 < s.workers.countP Worker.isActive := by omega
        obtain ⟨worker, hmem, hactive⟩ := List.countP_pos_iff.mp hbusy
        exact .inr (h.exists_step_of_active hmem hactive)
  | waiting =>
      by_cases hbusy : ∃ worker ∈ s.workers, worker.isActive = true
      · obtain ⟨worker, hmem, hactive⟩ := hbusy
        exact .inr (h.exists_step_of_active hmem hactive)
      · have hover : ∀ worker ∈ s.workers, worker.isActive = false := by
          intro worker hmem
          exact Bool.eq_false_iff.mpr fun hactive => hbusy ⟨worker, hmem, hactive⟩
        cases hfailure : s.failure? with
        | none => exact .inr ⟨_, .collect hphase hover hfailure, rfl⟩
        | some e => exact .inl ⟨_, .failed hphase hover hfailure⟩
  | checking =>
      cases hcancelled : s.isCancelled with
      | true => exact .inl ⟨_, .cancelled hphase hcancelled⟩
      | false => exact .inl ⟨_, .succeeded hphase hcancelled⟩

/-! ## What a scan returns -/

/-- A scan that looks for the last time and was not cancelled has launched a worker for every file.
Otherwise it would have been halted, which only a cancellation or a failure does. -/
theorem length_workers_eq (h : Invariant w d store? s) (hphase : s.phase = .checking)
    (hcancelled : s.isCancelled = false) : s.workers.length = s.files.length := by
  rcases h.launched (.inr hphase) with hall | hhalted
  · exact hall
  · have hfailure := (h.collected hphase).1
    rcases h.halted hhalted with hcancel | hsome
    · simp [hcancelled] at hcancel
    · simp [hfailure] at hsome

theorem exists_kept (h : Invariant w d store? s) (hphase : s.phase = .checking)
    (hcancelled : s.isCancelled = false) {i : Nat} (hi : i < s.files.length) :
    ∃ result, s.workers[i]? = some (.kept result) ∧ s.results[i]? = some result ∧
      w.examine d s.files[i] = .ok result := by
  obtain ⟨hfailure, hover⟩ := h.collected hphase
  have hlength := h.length_workers_eq hphase hcancelled
  obtain ⟨worker, hworker⟩ : ∃ worker, s.workers[i]? = some worker :=
    ⟨_, List.getElem?_eq_getElem (hlength ▸ hi)⟩
  obtain ⟨path, hpath, hagrees⟩ := h.agrees i worker hworker
  have hthrough := hover worker (List.mem_of_getElem? hworker)
  rw [List.getElem?_eq_getElem hi, Option.some.injEq] at hpath
  subst hpath
  cases worker with
  | kept result => exact ⟨result, hworker, hagrees.2, hagrees.1⟩
  | failed =>
      have hsome : s.failure?.isSome = true := hagrees
      simp [hfailure] at hsome
  | started | admitted | parsed _ | recorded _ | failing _ => cases hthrough

theorem workers_eq (h : Invariant w d store? s) (hphase : s.phase = .checking)
    (hcancelled : s.isCancelled = false) : s.workers = s.results.map Worker.kept := by
  apply List.ext_getElem?
  intro i
  by_cases hi : i < s.files.length
  · obtain ⟨result, hworker, hresult, -⟩ := h.exists_kept hphase hcancelled hi
    rw [hworker, List.getElem?_map, hresult, Option.map_some]
  · have hworkers := h.length_workers
    have hresults := h.length_results
    rw [List.getElem?_eq_none (by omega), List.getElem?_eq_none (by simp; omega)]

theorem examined (h : Invariant w d store? s) (hphase : s.phase = .checking)
    (hcancelled : s.isCancelled = false) : Examined w d s.files s.results := by
  refine List.forall₂_iff_get.mpr ⟨h.length_results.symm, ?_⟩
  intro i hfile hresult
  obtain ⟨result, -, hkept, hread⟩ := h.exists_kept hphase hcancelled hfile
  rw [List.getElem?_eq_getElem hresult, Option.some.injEq] at hkept
  simpa [hkept] using hread

/-- A scan succeeds exactly if reading the files one after the other does. -/
theorem returns_ok_iff (h : Invariant w d store? s) {outcome : Except Error (List FileResult)}
    (hreturns : Returns w d s outcome) {results : List FileResult} :
    outcome = .ok results ↔ w.scan d s.isCancelled = .ok results := by
  cases hreturns with
  | unlisted hphase hfiles =>
      rw [scan_eq_ok_iff, hfiles]
      simp
  | failed hphase hover hfailure =>
      have hfiles := h.listed (by simp [hphase])
      have hdoomed := h.doomed (by simp [hfailure])
      constructor
      · intro hok
        cases hok
      · intro hscan
        obtain ⟨hcancelled, files, hlisted, hexamined⟩ := scan_eq_ok_iff.mp hscan
        rw [hfiles] at hlisted
        cases hlisted
        rcases hdoomed with hcancel | ⟨path, hpath, e, hread⟩
        · simp [hcancelled] at hcancel
        · exact absurd hread (hexamined.ne_error hpath e)
  | cancelled hphase hcancelled =>
      rw [scan_eq_ok_iff, hcancelled]
      simp
  | succeeded hphase hcancelled =>
      have hfiles := h.listed (by simp [hphase])
      have hscan : w.scan d s.isCancelled = .ok s.results :=
        scan_eq_ok_iff.mpr ⟨hcancelled, s.files, hfiles, h.examined hphase hcancelled⟩
      rw [hscan]

/-- A scan that succeeds has told the store what it found in every file, in some order. -/
theorem exists_order (h : Invariant w d store? s) {results : List FileResult}
    (hreturns : Returns w d s (.ok results)) :
    ∃ order : List Definition, order.Perm (results.filterMap FileResult.definition?) ∧
      s.store? = store?.map fun store => order.foldl Store.append store := by
  cases hreturns with
  | succeeded hphase hcancelled =>
      obtain ⟨order, hperm, hstore⟩ := h.recorded
      refine ⟨order, ?_, hstore⟩
      rw [h.workers_eq hphase hcancelled, List.filterMap_map] at hperm
      exact hperm

end Invariant

end Scan

/-- In whatever order the store is told what was found in the files of a workspace, it has the
histories that it has when told in the order of the files. -/
theorem sameHistories_record (hcwd : Path.isRooted d.cwd = true) {files : List Bytes}
    (hfiles : w.files d = .ok files) {results : List FileResult}
    (hexamined : Examined w d files results) {order : List Definition}
    (hperm : order.Perm (results.filterMap FileResult.definition?)) (store : Store) :
    Store.SameHistories (order.foldl Store.append store) (store.record results) := by
  have huris : (order.map Definition.uri).Nodup := by
    rw [(hperm.map Definition.uri).nodup_iff, hexamined.definitions.2]
    exact nodup_uris hcwd hfiles
  exact Store.SameHistories.foldl_append_of_perm ⟨rfl, fun _ => rfl⟩ hperm huris

/-- What a scan that began with a store has to do with the outcome it returned and with the state it
ended in. -/
structure Scan.Settles (w : Workspace) (d : Disk) (store? : Option Store) (s : Scan)
    (outcome : Except Error (List FileResult)) : Prop where
  /-- It found what reading the files one after the other finds. -/
  agrees : ∀ results, outcome = .ok results ↔ w.scan d s.isCancelled = .ok results
  /-- It found what is in each file, in the order of the files. -/
  examined : ∀ results, outcome = .ok results → ∃ files, w.files d = .ok files ∧
    List.Forall₂ (fun path result => w.examine d path = .ok result) files results
  /-- It failed if it was cancelled or some file could not be read. -/
  fails : (s.isCancelled = true ∨ ∃ files, w.files d = .ok files ∧
    ∃ path ∈ files, ∃ e, w.examine d path = .error e) → ∃ e, outcome = .error e
  /-- It told the store once what it found in each file. -/
  recorded : ∀ results, outcome = .ok results → ∃ order : List Definition,
    (order.map some).Perm (results.map FileResult.definition?) ∧
    s.store? = store?.map fun store => order.foldl Store.append store
  /-- The store has the histories that it has when told in the order of the files. -/
  history : ∀ results, outcome = .ok results → ∀ uri,
    s.store?.map (fun store => store.history uri) =
      store?.map fun store => (store.record results).history uri

theorem Scan.Invariant.settles (h : Scan.Invariant w d store? s)
    (hcwd : Path.isRooted d.cwd = true) {outcome : Except Error (List FileResult)}
    (hreturns : Scan.Returns w d s outcome) : Scan.Settles w d store? s outcome := by
  have hagrees : ∀ results, outcome = .ok results ↔ w.scan d s.isCancelled = .ok results :=
    fun _ => h.returns_ok_iff hreturns
  have hexamined : ∀ results, outcome = .ok results → s.isCancelled = false ∧
      ∃ files, w.files d = .ok files ∧ Examined w d files results := by
    intro results hok
    exact scan_eq_ok_iff.mp ((hagrees results).mp hok)
  refine ⟨hagrees, fun results hok => (hexamined results hok).2, ?_, ?_, ?_⟩
  · intro hreason
    cases outcome with
    | error e => exact ⟨e, rfl⟩
    | ok results =>
        obtain ⟨hcancelled, files, hfiles, hfound⟩ := hexamined results rfl
        rcases hreason with hcancel | ⟨_, hlisted, path, hpath, e, hread⟩
        · simp [hcancelled] at hcancel
        · rw [hfiles] at hlisted
          cases hlisted
          exact absurd hread (hfound.ne_error hpath e)
  · rintro results rfl
    obtain ⟨-, files, hfiles, hfound⟩ := hexamined results rfl
    obtain ⟨order, hperm, hstore⟩ := h.exists_order hreturns
    refine ⟨order, ?_, hstore⟩
    rw [hfound.definitions.1]
    exact hperm.map some
  · rintro results rfl uri
    obtain ⟨-, files, hfiles, hfound⟩ := hexamined results rfl
    obtain ⟨order, hperm, hstore⟩ := h.exists_order hreturns
    rw [hstore, Option.map_map]
    congr 1
    funext store
    exact (sameHistories_record hcwd hfiles hfound hperm store).history uri

/-- However its workers are scheduled and whenever it is cancelled, a scan goes on until it returns,
and it returns what reading the files one after the other gives. -/
theorem settles_of_reaches (w : Workspace) (d : Disk) (hcwd : Path.isRooted d.cwd = true)
    {processors : Nat} (hprocessors : 0 < processors) (store? : Option Store) :
    (WellFounded fun t s => Scan.Step w d processors s t) ∧
      (∀ s, Scan.Reaches w d processors store? s →
        ((∃ outcome, Scan.Returns w d s outcome) ∨
          ∃ t, Scan.Step w d processors s t ∧ t.isCancelled = s.isCancelled) ∧
        ∀ outcome, Scan.Returns w d s outcome → Scan.Settles w d store? s outcome) ∧
      ∀ files, w.files d = .ok files → ∀ p ∈ files, ∀ q ∈ files,
        Uri.ofPath d.cwd p = Uri.ofPath d.cwd q → p = q := by
  refine ⟨Scan.wellFounded_step w d processors, ?_, ?_⟩
  · intro s hreaches
    have hinvariant := Scan.invariant_of_reaches hreaches
    refine ⟨hinvariant.exists_returns_or_step hprocessors, ?_⟩
    intro outcome hreturns
    exact hinvariant.settles hcwd hreturns
  · intro files hfiles p hp q hq huri
    exact List.inj_on_of_nodup_map (nodup_uris hcwd hfiles) hp hq huri

/-- A scan of two files in which the store is told of the second one first. -/
theorem settles_of_reaches_overtaking :
    let d : Disk := { inodes := [([utf8 "a.dfn"], .file (utf8 "[A]\n")),
                                 ([utf8 "b.dfn"], .file (utf8 "[B]\n"))] }
    let w : Workspace := { roots := [utf8 "b.dfn", utf8 "/a.dfn"] }
    Path.isRooted d.cwd = true ∧ 0 < 2 ∧ ∃ s results x y,
      Scan.Reaches w d 2 (some {}) s ∧ Scan.Returns w d s (.ok results) ∧
        results.map FileResult.definition? = [some x, some y] ∧
        s.store? = some ((Store.append {} y).append x) ∧
        w.scan d false = .ok results ∧
        ∀ uri, s.store?.map (fun store => store.history uri) =
          some ((Store.record {} results).history uri) := by
  intro d w
  have hcwd : Path.isRooted d.cwd = true := rfl
  have hfiles : w.files d = .ok [utf8 "/a.dfn", utf8 "/b.dfn"] := by decide +kernel
  obtain ⟨a, ha⟩ : ∃ a, w.examine d (utf8 "/a.dfn") = .ok a := ⟨_, by with_unfolding_all rfl⟩
  obtain ⟨b, hb⟩ : ∃ b, w.examine d (utf8 "/b.dfn") = .ok b := ⟨_, by with_unfolding_all rfl⟩
  obtain ⟨x, hx, -⟩ := exists_definition_of_examine ha
  obtain ⟨y, hy, -⟩ := exists_definition_of_examine hb
  let handed : Scan :=
    { phase := .waiting
      files := [utf8 "/a.dfn", utf8 "/b.dfn"]
      workers := [.started, .started]
      results := [⟨[], none, []⟩, ⟨[], none, []⟩]
      store? := some {} }
  let overtaken : Scan :=
    { handed with workers := [.started, .recorded b], store? := some (Store.append {} y) }
  let collected : Scan :=
    { handed with
      phase := .checking
      workers := [.kept a, .kept b]
      results := [a, b]
      store? := some ((Store.append {} y).append x) }
  have hhanded : Scan.Reaches w d 2 (some {}) handed :=
    (((((Relation.ReflTransGen.refl.tail (.list rfl hfiles)).tail
      (.proceed rfl (by decide) rfl)).tail (.launch rfl (by decide) (by decide))).tail
      (.proceed rfl (by decide) rfl)).tail (.launch rfl (by decide) (by decide))).tail
      (.exhaust rfl rfl)
  have hovertaken : Scan.Reaches w d 2 (some {}) overtaken :=
    ((hhanded.tail (.work (i := 1) rfl rfl (.enter rfl))).tail
      (.work (i := 1) rfl rfl (.parse hb))).tail (.record (i := 1) rfl hy)
  have hover : ∀ worker ∈ [Worker.kept a, Worker.kept b], worker.isActive = false := by
    simp [Worker.isActive]
  have hcollected : Scan.Reaches w d 2 (some {}) collected :=
    (((((hovertaken.tail (.work (i := 0) rfl rfl (.enter rfl))).tail
      (.work (i := 0) rfl rfl (.parse ha))).tail (.record (i := 0) rfl hx)).tail
      (.keep (i := 0) rfl)).tail (.keep (i := 1) rfl)).tail (.collect rfl hover rfl)
  have hreturns : Scan.Returns w d collected (.ok [a, b]) := .succeeded rfl rfl
  obtain ⟨-, hruns, -⟩ := settles_of_reaches w d hcwd Nat.two_pos (some {})
  have hsettles := (hruns collected hcollected).2 _ hreturns
  exact ⟨hcwd, Nat.two_pos, collected, [a, b], x, y, hcollected, hreturns, by simp [hx, hy], rfl,
    (hsettles.agrees _).mp rfl, hsettles.history _ rfl⟩

end DefinitionFiles.Workspace
