import DefinitionFiles.Proofs.Program.Setup
import DefinitionFiles.Proofs.Workspace
import Mathlib.Algebra.BigOperators.Group.List.Basic
import Mathlib.Algebra.Order.Ring.Nat
import Mathlib.Data.List.Forall2

/-!
# The verdict of a check

A check parses every file of its workspace, and every diagnostic is an error or a warning, so that
the two counts of the summary leave none out. The exit code is decided by these counts alone: it
tells whether some file has an error, or any diagnostic at all if the check is strict.
-/

namespace DefinitionFiles

/-! ## Severities -/

/-- Whether a diagnostic is counted by a summary. -/
def Diagnostic.IsGraded (x : Diagnostic) : Prop :=
  x.severity = .error ∨ x.severity = .warning

theorem Diagnostic.length_withSeverity_add {ds : List Diagnostic} (h : ∀ x ∈ ds, x.IsGraded) :
    (withSeverity .error ds).length + (withSeverity .warning ds).length = ds.length := by
  have hwarning : withSeverity .warning ds = ds.filter fun x => !decide (x.severity = .error) := by
    apply List.filter_congr
    intro x hx
    rcases h x hx with hseverity | hseverity <;> rw [hseverity] <;> decide
  rw [hwarning, withSeverity, ← List.length_eq_length_filter_add]

namespace Outline

namespace State

variable {d : Dialect} {s : State}

theorem isGraded_report (h : ∀ x ∈ s.diagnostics, x.IsGraded) {severity : Severity}
    (hseverity : severity = .error ∨ severity = .warning) (index : Nat) (line text : Bytes) :
    ∀ x ∈ (s.report d index line severity text).diagnostics, x.IsGraded :=
  List.forall_mem_cons.mpr ⟨hseverity, h⟩

theorem isGraded_step (h : ∀ x ∈ s.diagnostics, x.IsGraded) (line : Bytes) (index : Nat) :
    ∀ x ∈ (s.step d line index).diagnostics, x.IsGraded := by
  unfold step
  cases d.content line with
  | blank | opening | closing => exact h
  | header name =>
      dsimp only
      split
      · exact isGraded_report h (.inl rfl) index line _
      · exact h
  | entry key value =>
      dsimp only
      split
      · split
        · -- The entry is kept before it is warned of.
          apply isGraded_report _ (.inr rfl)
          exact h
        · exact h
      · exact isGraded_report h (.inl rfl) index line _
  | other =>
      dsimp only
      split <;> exact isGraded_report h (.inl rfl) index line _

theorem isGraded_foldl_step (h : ∀ x ∈ s.diagnostics, x.IsGraded) (lines : List (Bytes × Nat)) :
    ∀ x ∈ (lines.foldl (fun s (line, index) => s.step d line index) s).diagnostics,
      x.IsGraded := by
  induction lines generalizing s with
  | nil => exact h
  | cons line lines ih => exact ih (isGraded_step h line.1 line.2)

theorem isGraded_finish (h : ∀ x ∈ s.diagnostics, x.IsGraded) :
    ∀ x ∈ (s.finish d).diagnostics, x.IsGraded := by
  intro x hx
  rw [finish, List.mem_reverse] at hx
  split at hx
  · rcases List.mem_cons.mp hx with rfl | hx
    · exact .inl rfl
    · exact h x hx
  · exact h x hx

end State

/-- Every diagnostic of a document is an error or a warning. -/
theorem isGraded_of_mem_ofText {d : Dialect} {text : Bytes} :
    ∀ x ∈ (ofText d text).diagnostics, x.IsGraded := by
  apply State.isGraded_finish
  exact State.isGraded_foldl_step (fun _ hnil => absurd hnil List.not_mem_nil) _

end Outline

/-! ## Counts -/

/-- Whether parsing the file with a path gives an outline. -/
def Workspace.Parses (w : Workspace) (d : Disk) (path : Bytes) (outline : Outline) : Prop :=
  ∃ text, d.read path = .ok text ∧
    outline = Outline.ofText { w.dialect with category := Uri.classify (Uri.ofPath d.cwd path) } text

theorem Workspace.Parses.unique {w : Workspace} {d : Disk} {path : Bytes} {o other : Outline}
    (h : w.Parses d path o) (hother : w.Parses d path other) : o = other := by
  obtain ⟨text, hread, rfl⟩ := h
  obtain ⟨_, hagain, rfl⟩ := hother
  rw [hread] at hagain
  cases hagain
  rfl

theorem Workspace.parses_of_examine {w : Workspace} {d : Disk} {path : Bytes} {result : FileResult}
    (h : w.examine d path = .ok result) :
    ∃ outline, w.Parses d path outline ∧ result.diagnostics = outline.diagnostics := by
  unfold examine at h
  split at h
  next => cases h
  next text hread =>
    cases h
    exact ⟨_, ⟨text, hread, rfl⟩, rfl⟩

/-- What a scan finds are the diagnostics that parsing the files gives. -/
theorem Workspace.Examined.exists_parses {w : Workspace} {d : Disk} {files : List Bytes}
    {results : List FileResult} (h : Examined w d files results) :
    ∃ outlines, List.Forall₂ (w.Parses d) files outlines ∧
      results.map FileResult.diagnostics = outlines.map Outline.diagnostics := by
  induction h with
  | nil => exact ⟨[], .nil, rfl⟩
  | cons hresult _ ih =>
      obtain ⟨outline, hparses, hdiagnostics⟩ := parses_of_examine hresult
      obtain ⟨outlines, hrest, heq⟩ := ih
      exact ⟨outline :: outlines, .cons hparses hrest, by simp [hdiagnostics, heq]⟩

theorem Workspace.isGraded_of_parses {w : Workspace} {d : Disk} {files : List Bytes}
    {outlines : List Outline} (h : List.Forall₂ (w.Parses d) files outlines) :
    ∀ o ∈ outlines, ∀ x ∈ o.diagnostics, x.IsGraded := by
  induction h with
  | nil => exact fun _ hnil => absurd hnil List.not_mem_nil
  | cons hparses _ ih =>
      obtain ⟨text, -, rfl⟩ := hparses
      exact List.forall_mem_cons.mpr ⟨Outline.isGraded_of_mem_ofText, ih⟩

theorem Workspace.exists_parses_iff {w : Workspace} {d : Disk} {files : List Bytes}
    {outlines : List Outline} (h : List.Forall₂ (w.Parses d) files outlines)
    {P : Outline → Prop} :
    (∃ o ∈ outlines, P o) ↔ ∃ path ∈ files, ∃ o, w.Parses d path o ∧ P o := by
  induction h with
  | nil => simp
  | @cons path outline files outlines hparses _ ih =>
      have hunique : (∃ o, w.Parses d path o ∧ P o) ↔ P outline := by
        constructor
        · rintro ⟨o, ho, hP⟩
          rwa [hparses.unique ho]
        · exact fun hP => ⟨outline, hparses, hP⟩
      simp [ih, hunique]

theorem Diagnostic.length_withSeverity_flatten (severity : Severity)
    (parts : List (List Diagnostic)) :
    (withSeverity severity parts.flatten).length =
      (parts.map fun ds => (withSeverity severity ds).length).sum := by
  rw [withSeverity, List.filter_flatten, List.length_flatten, List.map_map]
  rfl

/-- Whether counts are those of some outlines. -/
structure Summary.Counts (s : Summary) (outlines : List Outline) : Prop where
  errors_eq : s.errors = (outlines.map fun o => o.errors.length).sum
  warnings_eq : s.warnings = (outlines.map fun o => o.warnings.length).sum

theorem Summary.counts_ofResults {results : List FileResult} {outlines : List Outline}
    (h : results.map FileResult.diagnostics = outlines.map Outline.diagnostics) :
    (ofResults results).Counts outlines := by
  have hsum : ∀ severity,
      (Diagnostic.withSeverity severity (results.flatMap FileResult.diagnostics)).length =
        (outlines.map fun o => (Diagnostic.withSeverity severity o.diagnostics).length).sum := by
    intro severity
    rw [List.flatMap_def, h, Diagnostic.length_withSeverity_flatten, List.map_map]
    rfl
  exact ⟨hsum .error, hsum .warning⟩

namespace Summary.Counts

variable {s : Summary} {outlines : List Outline} (h : s.Counts outlines)

include h

theorem total_eq (hgraded : ∀ o ∈ outlines, ∀ x ∈ o.diagnostics, x.IsGraded) :
    s.errors + s.warnings = (outlines.map fun o => o.diagnostics.length).sum := by
  rw [h.errors_eq, h.warnings_eq, ← List.sum_map_add]
  congr 1
  apply List.map_congr_left
  exact fun o ho => Diagnostic.length_withSeverity_add (hgraded o ho)

/-- A check fails by what is in one of the files. -/
theorem isFailure_iff (hgraded : ∀ o ∈ outlines, ∀ x ∈ o.diagnostics, x.IsGraded) (strict : Bool) :
    s.isFailure strict = true ↔
      ∃ o ∈ outlines, o.errors ≠ [] ∨ strict = true ∧ o.diagnostics ≠ [] := by
  have herrors : 0 < s.errors ↔ ∃ o ∈ outlines, o.errors ≠ [] := by
    rw [h.errors_eq, List.sum_pos_iff_exists_pos_nat]
    simp [List.length_pos_iff]
  have htotal : 0 < s.errors + s.warnings ↔ ∃ o ∈ outlines, o.diagnostics ≠ [] := by
    rw [h.total_eq hgraded, List.sum_pos_iff_exists_pos_nat]
    simp [List.length_pos_iff]
  cases strict with
  | false => simp [isFailure, herrors]
  | true =>
      -- Errors are among the diagnostics, so that a strict check need not look for them as well.
      have hfailure : s.isFailure true = true ↔ 0 < s.errors + s.warnings := by simp [isFailure]
      rw [hfailure, htotal]
      constructor
      · rintro ⟨o, ho, hne⟩
        exact ⟨o, ho, .inr ⟨rfl, hne⟩⟩
      · rintro ⟨o, ho, herror | ⟨-, hne⟩⟩
        · exact ⟨o, ho, fun hnil => herror (by rw [Outline.errors, hnil]; rfl)⟩
        · exact ⟨o, ho, hne⟩

end Summary.Counts

/-! ## Exit codes -/

/-- Whether pieces of output end with a summary: as the last line behind one line for each
diagnostic, or as the second field of a report. -/
inductive Report.Shows (s : Summary) : Report.Format → List Bytes → Prop where
  | text {lines : List Bytes} (hlines : lines.length = s.errors + s.warnings) :
      Shows s .text (lines ++ [s.line])
  | json {files : Json} :
      Shows s .json
        [(Json.record [("files", files), ("summary", s.toJson)]).renderIndented ++ utf8 "\n"]

namespace Program

/-- What a check that is over tells about the files of a workspace. -/
structure Verdict (w : Workspace) (d : Disk) (format : Report.Format) (strict : Bool)
    (files : List Bytes) (outlines : List Outline) (summary : Summary) (p : Program) : Prop where
  listed : w.files d = .ok files
  parsed : List.Forall₂ (w.Parses d) files outlines
  files_eq : summary.files = files.length
  counts : summary.Counts outlines
  /-- The counts leave no diagnostic out. -/
  total_eq : summary.errors + summary.warnings =
    (outlines.map fun o => o.diagnostics.length).sum
  shown : Report.Shows summary format p.output.reverse
  ended : ∃ ending, p.phase = .ended ending ∧
    (ending.code = 1 ↔ ∃ path ∈ files, ∃ o, w.Parses d path o ∧
      (o.errors ≠ [] ∨ strict = true ∧ o.diagnostics ≠ [])) ∧
    (ending.code = 1 ∨ ending.code = 0)

variable {d : Disk} {o : Command.CheckOptions} {format : Report.Format}
  {results : List FileResult}

theorem startBy_of_check {r : Readers} {e : Settings.Environment} {arguments : List Bytes}
    {overrides : Command.Overrides} {settings : Settings}
    (hinvocation : r.invocation arguments = ⟨.ok (.check o), some overrides⟩)
    (hsettings : settingsBy r.settings d e overrides = .ok settings) :
    startBy r d e arguments =
      check { settings := settings, wording := r.wording, base := d.cwd } d o := by
  obtain ⟨logger, hsetup, -⟩ := exists_setupBy hsettings
  unfold startBy
  simp only [hinvocation, hsetup]
  rfl

theorem check_of_scan (p : Program) (hwatch : o.watch = false)
    (hformat : Report.Format.ofName o.format = .ok format)
    (hscan : (workspaceOf p.settings o).scan d false = .ok results) :
    p.check d o =
      (p.write (Report.pieces format p.base results)).finish
        (if (Summary.ofResults results).isFailure o.strict then .failed else .done) := by
  unfold check
  simp only [hformat, hscan, hwatch]
  cases (Summary.ofResults results).isFailure o.strict <;> rfl

theorem shows_pieces {outlines : List Outline}
    (h : results.map FileResult.diagnostics = outlines.map Outline.diagnostics)
    (hgraded : ∀ o ∈ outlines, ∀ x ∈ o.diagnostics, x.IsGraded) (format : Report.Format)
    (base : Bytes) :
    Report.Shows (Summary.ofResults results) format (Report.pieces format base results) := by
  cases format with
  | json => exact .json
  | text =>
      apply Report.Shows.text
      rw [(Summary.counts_ofResults h).total_eq hgraded, List.length_flatMap]
      calc (results.map fun r => (Report.fileLines base r).length).sum
          = ((results.map FileResult.diagnostics).map List.length).sum := by
            simp [Report.fileLines, Function.comp_def]
        _ = (outlines.map fun o => o.diagnostics.length).sum := by
            rw [h, List.map_map]
            rfl

/-- A file with an entry that has no value. -/
def shelf : Disk where
  inodes := [([utf8 "a.dfn"], .file (utf8 "[A]\n\x7b\nK=\n\x7d\n"))]

/-- A check of the working directory in which warnings count. -/
def strictCheck : Command.CheckOptions where
  paths := [utf8 "."]
  format := utf8 "text"
  extensions? := none
  strict := true
  watch := false

end Program

end DefinitionFiles
