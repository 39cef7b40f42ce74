import DefinitionFiles.Proofs.Outline.Recasting

/-!
# Documents put together

Behind whole lines that leave no block open, a document that begins with a header is read as if
nothing stood before it. Its header forgets the section before it, so that the outline of both is
the outline of the first followed by that of the second with its lines renumbered.
-/

namespace DefinitionFiles

namespace Dialect

variable {d : Dialect} {line : Bytes}

theorem content_of_nil (h : d.contentText line = []) :
    d.content line = .blank := by
  change Content.ofText (d.contentText line) = .blank
  rw [h]
  rfl

theorem exists_content_of_isHeader (h : Outline.History.isHeader (d.contentText line) = true) :
    ∃ name, d.content line = .header name := by
  have hclass := (Outline.History.classified_content d line).isHeader_eq
  rw [h] at hclass
  cases hcontent : d.content line with
  | header name => exact ⟨name, rfl⟩
  | blank | opening | closing | entry | other => simp [hcontent] at hclass

end Dialect

namespace Outline

namespace State

/-- A state with what was read earlier below it. -/
def above (s earlier : State) : State :=
  { sections := s.sections ++ earlier.sections
    diagnostics := s.diagnostics ++ earlier.diagnostics
    isOpen := s.isOpen }

theorem above_start {earlier : State} (h : earlier.isOpen = false) :
    ({} : State).above earlier = earlier := by
  rw [above, ← h]
  rfl

theorem header?_above {s : State} (h : s.sections ≠ []) (earlier : State) :
    (s.above earlier).header? = s.header? := by
  obtain ⟨current, rest, hsections⟩ := List.exists_cons_of_ne_nil h
  simp [header?, above, hsections]

theorem report_above {s : State} (h : s.sections ≠ []) (earlier : State) (d : Dialect) (index : Nat)
    (line : Bytes) (severity : Severity) (text : Bytes) :
    (s.above earlier).report d index line severity text =
      (s.report d index line severity text).above earlier := by
  rw [report_eq, report_eq, header?_above h]
  rfl

theorem step_above {s : State} (h : s.sections ≠ []) (earlier : State) (d : Dialect) (line : Bytes)
    (index : Nat) :
    (s.above earlier).step d line index = (s.step d line index).above earlier := by
  obtain ⟨current, rest, hsections⟩ := List.exists_cons_of_ne_nil h
  have hreport := report_above h earlier d index line
  have hbelow : (s.above earlier).sections = current :: (rest ++ earlier.sections) := by
    simp [above, hsections]
  have hsame : (s.above earlier).isOpen = s.isOpen := rfl
  unfold step
  cases d.content line with
  | blank | opening | closing => rfl
  | header name =>
      by_cases hopen : s.isOpen = true
      · simp only [if_pos hopen, if_pos (hsame.trans hopen), hreport]
        rfl
      · have hopen' : ¬ (s.above earlier).isOpen = true := hopen
        simp only [if_neg hopen, if_neg hopen']
        rfl
  | entry key value =>
      simp only [hsame, hbelow, hsections]
      cases hopen : s.isOpen with
      | false => exact hreport _ _
      | true =>
          simp only
          split
          · let changed : State := { s with sections := current.set key value :: rest }
            have hchanged : changed.sections ≠ [] := List.cons_ne_nil _ _
            simpa [changed, above, hopen] using report_above hchanged earlier d index line .warning _
          · simp [above, hopen]
  | other =>
      simp only [hsame, hbelow, hsections]
      cases s.isOpen <;> exact hreport _ _

theorem sections_step_ne_nil {s : State} (h : s.sections ≠ []) (d : Dialect) (line : Bytes)
    (index : Nat) : (s.step d line index).sections ≠ [] := by
  rw [step_sections]
  obtain ⟨current, rest, hsections⟩ := List.exists_cons_of_ne_nil h
  cases d.content line with
  | header name => simp
  | entry key value => cases s.isOpen <;> simp [hsections]
  | blank | opening | closing | other => exact h

/-- Once a section has begun, lines are read without a look at what was read earlier. -/
theorem run_above {s : State} (h : s.sections ≠ []) (earlier : State) (d : Dialect)
    (lines : List Bytes) (index : Nat) :
    (s.above earlier).run d lines index = (s.run d lines index).above earlier ∧
      (s.run d lines index).sections ≠ [] := by
  induction lines generalizing s index with
  | nil => exact ⟨rfl, h⟩
  | cons line rest ih =>
      rw [run_cons, run_cons, step_above h]
      exact ih (sections_step_ne_nil h d line index) (index + 1)

theorem step_of_blank {d : Dialect} {line : Bytes} (h : d.content line = .blank) (s : State)
    (index : Nat) : s.step d line index = s := by
  simp [step, h]

end State

/-- Whether the first of some lines that has a content is a header, if there is one. -/
def StartsWithHeader (d : Dialect) (lines : List Bytes) : Prop :=
  ∀ content ∈ (d.contents lines).find? (· ≠ []), History.isHeader content = true

instance (d : Dialect) (lines : List Bytes) : Decidable (StartsWithHeader d lines) :=
  inferInstanceAs (Decidable (∀ content ∈ (d.contents lines).find? (· ≠ []), _))

namespace State

/-- Outside of blocks, lines that start with a header are read as from the start of a document. -/
theorem run_above_start {d : Dialect} {lines : List Bytes} (h : StartsWithHeader d lines)
    {earlier : State} (hclosed : earlier.isOpen = false) (index : Nat) :
    earlier.run d lines index = (({} : State).run d lines index).above earlier ∧
      ((({} : State).run d lines index).sections ≠ [] ∨
        (({} : State).run d lines index).isOpen = false) := by
  induction lines generalizing index with
  | nil => exact ⟨(above_start hclosed).symm, .inr rfl⟩
  | cons line rest ih =>
      rw [run_cons, run_cons]
      by_cases hblank : d.contentText line = []
      · have hrest : StartsWithHeader d rest := by
          simpa [StartsWithHeader, Dialect.contents, hblank] using h
        have hcontent := Dialect.content_of_nil hblank
        rw [step_of_blank hcontent, step_of_blank hcontent]
        exact ih hrest (index + 1)
      · have hheader : History.isHeader (d.contentText line) = true :=
          h _ (by simp [Dialect.contents, hblank])
        obtain ⟨name, hcontent⟩ := Dialect.exists_content_of_isHeader hheader
        have hstep : earlier.step d line index =
            (({} : State).step d line index).above earlier := by
          simp [step, hcontent, above, hclosed]
        have hbegun : (({} : State).step d line index).sections ≠ [] := by
          simp [step, hcontent]
        have hrun := run_above hbegun earlier d rest (index + 1)
        rw [hstep]
        exact ⟨hrun.1, .inl hrun.2⟩

theorem finish_above {s earlier : State} (hclosed : earlier.isOpen = false)
    (hbegun : s.sections ≠ [] ∨ s.isOpen = false) (d : Dialect) :
    (s.above earlier).finish d =
      { sections := (earlier.finish d).sections ++ (s.finish d).sections
        diagnostics := (earlier.finish d).diagnostics ++ (s.finish d).diagnostics } := by
  rw [finish_eq, finish_eq, finish_eq, hclosed]
  cases hopen : s.isOpen with
  | false => simp [above, hopen]
  | true =>
      rw [header?_above (hbegun.resolve_right (by simp [hopen]))]
      simp [above, hopen]

theorem isOpen_of_finish {d : Dialect} {s : State}
    (h : ∀ x ∈ (s.finish d).diagnostics, x.isAtEnd = false) : s.isOpen = false := by
  rw [finish_eq] at h
  cases hopen : s.isOpen with
  | false => rfl
  | true => cases h (ending d s.header?) (by simp [hopen])

end State

open State

/-- Whole lines without an open block, and behind them a text that starts with a header: the outline
is the one of the lines followed by the one of the text, with its lines renumbered. -/
theorem ofText_append (d : Dialect) {first second : Bytes}
    (hfirst : first = [] ∨ first.getLast? = some Bytes.lf)
    (hclosed : ∀ x ∈ (ofText d first).diagnostics, x.isAtEnd = false)
    (hsecond : StartsWithHeader d (lines second)) :
    ofText d (first ++ second) =
      { sections := (ofText d first).sections ++
          (ofText d second).sections.map (Section.renumber (· + first.count Bytes.lf))
        diagnostics := (ofText d first).diagnostics ++ (ofText d second).diagnostics.map
          (Diagnostic.renumber d.category (· + first.count Bytes.lf)) } := by
  simp only [ofText_eq_ofLines, ofLines_eq_finish] at hclosed ⊢
  have hopen := isOpen_of_finish hclosed
  obtain ⟨hrun, hbegun⟩ := run_above_start hsecond hopen (first.count Bytes.lf)
  let place : Nat → Nat := (· + first.count Bytes.lf)
  have hplace : ∀ i < (lines second).length, place (0 + i) = first.count Bytes.lf + i := by
    intro i _
    simp only [place]
    omega
  have hmoved := run_renumber hplace d {}
  rw [recast_start] at hmoved
  rw [lines_append hfirst, run_append, length_lines_of_whole hfirst, Nat.zero_add, hrun,
    finish_above hopen hbegun, hmoved, finish_recast (renumber_ending d place)]
  rfl

/-- A line outside of blocks in front of a section, and behind it a comment and a section that is
left open. -/
theorem ofText_append_unclosed :
    ofText {} (utf8 "?\n[A]\n" ++ utf8 "// b\n[B]\n\x7b\nk=") =
      { sections := [{ header := utf8 "A", line := 1 },
          { header := utf8 "B", line := 3, entries := [(utf8 "k", [])] }]
        diagnostics :=
          [⟨0, 0, 1, .error, utf8 "Line 1: content outside of a block", utf8 "uox3dfn"⟩,
            ⟨5, 0, 2, .warning, utf8 "Line 6: entry k has no value (in [B])", utf8 "uox3dfn"⟩,
            ⟨-1, 0, 0, .error, utf8 "file ended before closing '\x7d' (in [B])",
              utf8 "uox3dfn"⟩] } := by
  rw [ofText_append {} (by decide) (by decide +kernel) (by decide +kernel)]
  decide +kernel

end Outline

end DefinitionFiles
