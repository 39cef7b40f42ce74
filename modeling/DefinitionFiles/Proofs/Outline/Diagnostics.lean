import DefinitionFiles.Proofs.Outline.History
import DefinitionFiles.Proofs.Text.Utf8

/-!
# The diagnostics of a document

Every line has at most one diagnostic, which its content and the contents before it decide; behind
them stands one for a document that ends inside a block. Braces are never reported, so the brace
that left the block open makes room for it: there are no more diagnostics than lines.
-/

namespace DefinitionFiles.Outline

namespace History

/-- Whether a line behind the given contents stands in the block of a section. -/
def isInside (before : List Bytes) : Bool :=
  isOpen before && (header? before).isSome

/-- The severity and the wording of what is wrong with a content, given the contents before
it. -/
def finding? (before : List Bytes) (content : Bytes) : Option (Severity × Bytes) :=
  if content = [] || isBrace content then none
  else if isHeader content then
    if isOpen before then some (.error, utf8 "new section before closing '\x7d'") else none
  else if isInside before then
    match keyValue? content with
    | none => some (.error, utf8 "invalid entry")
    | some (key, value) =>
        if Bytes.trim value = [] then
          some (.warning, utf8 "entry " ++ key ++ utf8 " has no value")
        else none
  else some (.error, utf8 "content outside of a block")

/-- A text between the directory name of a category and the header in force, as far as they are
there. -/
def message (d : Dialect) (before : List Bytes) (text : Bytes) : Bytes :=
  let category :=
    if d.category = Category.none then [] else utf8 "[" ++ d.category.dirName ++ utf8 "] "
  let header := match header? before with
    | some name => utf8 " (in [" ++ name ++ utf8 "])"
    | none => []
  category ++ text ++ header

/-- The diagnostic of the line with the given index. It spans the whole line. -/
def lineDiagnostic? (d : Dialect) (before : List Bytes) (line : Bytes) (index : Nat) :
    Option Diagnostic :=
  (finding? before (d.contentText line)).map fun (severity, text) =>
    { line := index
      startColumn := 0
      endColumn := ((Utf8.chars line).map utf16Width).sum
      severity := severity
      message := message d before
        (utf8 "Line " ++ Bytes.decimal (index + 1) ++ utf8 ": " ++ text)
      source := d.source }

/-- The diagnostic of a document that ends inside a block. -/
def endDiagnostic? (d : Dialect) (contents : List Bytes) : Option Diagnostic :=
  if isOpen contents then
    some { line := -1
           startColumn := 0
           endColumn := 0
           severity := .error
           message := message d contents (utf8 "file ended before closing '\x7d'")
           source := d.source }
  else none

/-- The diagnostics of a document by its lines. -/
def diagnostics (d : Dialect) (lines : List Bytes) : List Diagnostic :=
  (lines.zipIdx.filterMap fun (line, index) =>
    lineDiagnostic? d (d.contents (lines.take index)) line index) ++
      (endDiagnostic? d (d.contents lines)).toList

theorem finding?_of_isHeader {content : Bytes} (hheader : isHeader content = true)
    (before : List Bytes) :
    finding? before content =
      if isOpen before then some (.error, utf8 "new section before closing '\x7d'") else none := by
  have hne : content ≠ [] := by
    rintro rfl
    simp [isHeader] at hheader
  simp [finding?, hne, isBrace_of_isHeader hheader, hheader]

/-- Outside of the blocks of sections only headers and braces are welcome. -/
theorem finding?_of_outside {before : List Bytes} {content : Bytes} (hne : content ≠ [])
    (hheader : isHeader content = false) (hbrace : isBrace content = false)
    (hinside : isInside before = false) :
    finding? before content = some (.error, utf8 "content outside of a block") := by
  simp [finding?, hne, hheader, hbrace, hinside]

theorem finding?_of_inside {before : List Bytes} {content : Bytes} (hne : content ≠ [])
    (hheader : isHeader content = false) (hbrace : isBrace content = false)
    (hinside : isInside before = true) :
    finding? before content =
      match keyValue? content with
      | none => some (.error, utf8 "invalid entry")
      | some (key, value) =>
          if Bytes.trim value = [] then
            some (.warning, utf8 "entry " ++ key ++ utf8 " has no value")
          else none := by
  simp [finding?, hne, hheader, hbrace, hinside]

end History

namespace State

open History

theorem Follows.isInside_of_cons {s : State} {before : List Bytes} (h : s.Follows before)
    {current : Section} {earlier : List Section} (hopen : s.isOpen = true)
    (hsections : s.sections = current :: earlier) : isInside before = true := by
  rw [isInside, ← h.isOpen, ← h.header?, State.header?, hopen, hsections]
  rfl

theorem Follows.isInside_of_not_cons {s : State} {before : List Bytes} (h : s.Follows before)
    (houtside : ∀ current earlier, s.isOpen = true → s.sections = current :: earlier → False) :
    isInside before = false := by
  rw [isInside, ← h.isOpen, ← h.header?, State.header?]
  cases hopen : s.isOpen with
  | false => rfl
  | true =>
      cases hsections : s.sections with
      | nil => rfl
      | cons current earlier => exact (houtside current earlier hopen hsections).elim

/-- A report is the diagnostic of its line, worded with the header in force before it. -/
theorem Follows.report_diagnostics {s : State} {before : List Bytes} (h : s.Follows before)
    {d : Dialect} {line : Bytes} (index : Nat) {severity : Severity} {text : Bytes}
    (hfinding : finding? before (d.contentText line) = some (severity, text)) :
    (s.report d index line severity text).diagnostics =
      (lineDiagnostic? d before line index).toList ++ s.diagnostics := by
  simp only [lineDiagnostic?, hfinding, Option.map_some, Option.toList_some,
    List.singleton_append, ← Utf8.units_eq_sum, message, ← h.header?]
  rfl

theorem diagnostics_of_silent {d : Dialect} {before : List Bytes} {line : Bytes} (index : Nat)
    (hfinding : finding? before (d.contentText line) = none) (earlier : List Diagnostic) :
    earlier = (lineDiagnostic? d before line index).toList ++ earlier := by
  rw [lineDiagnostic?, hfinding]
  rfl

/-- One more line adds the diagnostic that its content and the contents before it ask for. -/
theorem Follows.step_diagnostics {s : State} {before : List Bytes} (h : s.Follows before)
    (d : Dialect) (line : Bytes) (index : Nat) :
    (s.step d line index).diagnostics =
      (lineDiagnostic? d before line index).toList ++ s.diagnostics := by
  have hclass := classified_content d line
  unfold State.step
  generalize d.content line = content at hclass
  cases hclass with
  | blank htext | opening htext | closing htext =>
      exact diagnostics_of_silent index (by rw [htext]; rfl) _
  | header hheader hbrace =>
      have hfinding := finding?_of_isHeader hheader before
      rw [← h.isOpen] at hfinding
      cases hopen : s.isOpen with
      | true => exact h.report_diagnostics index (by rw [hfinding, hopen]; rfl)
      | false => exact diagnostics_of_silent index (by rw [hfinding, hopen]; rfl) _
  | @entry key value hheader hbrace hkey =>
      have hne : d.contentText line ≠ [] := by
        intro hblank
        rw [hblank] at hkey
        cases hkey
      simp only
      split
      next current earlier hopen hsections =>
        have hfinding := finding?_of_inside hne hheader hbrace (h.isInside_of_cons hopen hsections)
        simp only [hkey] at hfinding
        split
        next hvalue =>
          -- The value is stored before the report is made, and leaves the header as it is.
          rw [if_pos hvalue] at hfinding
          have hset :
              State.Follows { s with sections := current.set key value :: earlier } before :=
            ⟨h.isOpen, by rw [← h.header?]; simp [State.header?, hsections, Section.set]⟩
          exact hset.report_diagnostics index hfinding
        next hvalue =>
          rw [if_neg hvalue] at hfinding
          exact diagnostics_of_silent index hfinding _
      next houtside =>
        exact h.report_diagnostics index
          (finding?_of_outside hne hheader hbrace (h.isInside_of_not_cons houtside))
  | other hne hheader hbrace hkey =>
      simp only
      split
      next current earlier hopen hsections =>
        have hfinding := finding?_of_inside hne hheader hbrace (h.isInside_of_cons hopen hsections)
        simp only [hkey] at hfinding
        exact h.report_diagnostics index hfinding
      next houtside =>
        exact h.report_diagnostics index
          (finding?_of_outside hne hheader hbrace (h.isInside_of_not_cons houtside))

/-- What is said at the end of a document. -/
theorem Follows.finish_diagnostics {s : State} {contents : List Bytes} (h : s.Follows contents)
    (d : Dialect) :
    (s.finish d).diagnostics = s.diagnostics.reverse ++ (endDiagnostic? d contents).toList := by
  rw [finish, endDiagnostic?, h.isOpen, message, ← h.header?]
  cases History.isOpen contents with
  | false => simp
  | true =>
      simp only [↓reduceIte, List.reverse_cons, Option.toList_some]
      rfl

/-- Taking lines from a state adds their diagnostics, newest first. -/
theorem Follows.run_diagnostics {d : Dialect} {lines before : List Bytes} {s : State}
    (h : s.Follows (d.contents before)) (rest : List Bytes) (hlines : lines = before ++ rest) :
    (s.run d rest before.length).diagnostics =
      ((rest.zipIdx before.length).filterMap fun (line, index) =>
        lineDiagnostic? d (d.contents (lines.take index)) line index).reverse ++ s.diagnostics := by
  induction rest generalizing before s with
  | nil => rfl
  | cons line rest ih =>
      have hstep : (s.step d line before.length).Follows (d.contents (before ++ [line])) := by
        simpa [Dialect.contents] using h.step d line before.length
      have hrun := ih hstep (by simpa using hlines)
      have htake : lines.take before.length = before := by simp [hlines]
      rw [List.length_append, List.length_singleton, h.step_diagnostics] at hrun
      rw [run_cons, hrun, List.zipIdx_cons, List.filterMap_cons]
      simp only [htake]
      cases lineDiagnostic? d (d.contents before) line before.length <;> simp

end State

/-- A line that is a brace is never reported. -/
theorem History.lineDiagnostic?_of_isBrace {d : Dialect} {line : Bytes}
    (hbrace : History.isBrace (d.contentText line) = true) (before : List Bytes) (index : Nat) :
    History.lineDiagnostic? d before line index = none := by
  rw [History.lineDiagnostic?, History.finding?, hbrace, Bool.or_true, if_pos rfl, Option.map_none]

theorem History.countP_isBrace_pos {contents : List Bytes}
    (hopen : History.isOpen contents = true) : 0 < contents.countP History.isBrace := by
  rw [List.countP_eq_length_filter]
  cases hfilter : contents.filter History.isBrace with
  | nil => simp [History.isOpen, hfilter] at hopen
  | cons brace braces => simp

/-- The brace that left a block open pays for the diagnostic at the end. -/
theorem History.length_diagnostics_le (d : Dialect) (lines : List Bytes) :
    (History.diagnostics d lines).length ≤ lines.length := by
  have hlines : (lines.zipIdx.filterMap fun (line, index) =>
      History.lineDiagnostic? d (d.contents (lines.take index)) line index).length ≤
        lines.zipIdx.countP fun x => !History.isBrace (d.contentText x.1) := by
    rw [List.length_filterMap_eq_countP]
    apply List.countP_mono_left
    rintro ⟨line, index⟩ - hsome
    rw [Bool.not_eq_true', ← Bool.not_eq_true]
    intro hbrace
    simp [History.lineDiagnostic?_of_isBrace hbrace] at hsome
  have hend : (History.endDiagnostic? d (d.contents lines)).toList.length ≤
      lines.zipIdx.countP fun x => History.isBrace (d.contentText x.1) := by
    have hcount : (lines.zipIdx.countP fun x => History.isBrace (d.contentText x.1)) =
        (d.contents lines).countP History.isBrace := by
      conv_rhs => rw [← List.zipIdx_map_fst 0 lines]
      rw [Dialect.contents, List.countP_map, List.countP_map]
      rfl
    rw [hcount, History.endDiagnostic?]
    split
    next hopen => exact History.countP_isBrace_pos hopen
    next => exact Nat.zero_le _
  have hsplit := List.length_eq_countP_add_countP
    (fun x : Bytes × Nat => History.isBrace (d.contentText x.1)) (l := lines.zipIdx)
  rw [List.length_zipIdx] at hsplit
  simp only [Bool.not_eq_true, Bool.decide_eq_false] at hsplit
  rw [History.diagnostics, List.length_append]
  omega

theorem diagnostics_ofLines (d : Dialect) (lines : List Bytes) :
    (ofLines d lines).diagnostics = History.diagnostics d lines := by
  have hstart : ({} : State).Follows (d.contents []) := State.follows_start
  have hrun : (({} : State).run d lines 0).diagnostics = _ := hstart.run_diagnostics lines rfl
  have hfollows : (({} : State).run d lines 0).Follows (d.contents lines) :=
    State.follows_start.run d lines
  rw [ofLines_eq_finish, hfollows.finish_diagnostics, hrun, History.diagnostics]
  simp

/-- The diagnostics of a document are those that its lines ask for, and no more than there are
lines. -/
theorem diagnostics_ofText (d : Dialect) (text : Bytes) :
    (ofText d text).diagnostics = History.diagnostics d (lines text) ∧
      (ofText d text).diagnostics.length ≤ (lines text).length ∧
      (lines text).length ≤ text.count Bytes.lf + 1 := by
  have hdiagnostics : (ofText d text).diagnostics = History.diagnostics d (lines text) := by
    rw [ofText_eq_ofLines, diagnostics_ofLines]
  refine ⟨hdiagnostics, ?_, length_lines_le text⟩
  rw [hdiagnostics]
  exact History.length_diagnostics_le d (lines text)

end DefinitionFiles.Outline
