import DefinitionFiles.Proofs.Outline.Entries
import DefinitionFiles.Proofs.Outline.History
import Mathlib.Data.List.Infix

/-!
# The sections of a document

A document has one section for every header. Its entries are the assignments of the lines up to
the next header, as far as the last brace before them opened a block; that brace may stand before
the header as well.
-/

namespace DefinitionFiles.Outline

namespace History

/-- The assignments made by some numbered contents of a document. One counts only where a block
is open. -/
def assignments (contents : List Bytes) (numbered : List (Bytes × Nat)) :
    List (Bytes × Bytes) :=
  numbered.filterMap fun (content, index) =>
    if isOpen (contents.take index) then assignment? content else none

/-- The numbered contents up to the next header. -/
def block (later : List (Bytes × Nat)) : List (Bytes × Nat) :=
  later.takeWhile fun (content, _) => !isHeader content

/-- The section that begins at the first of some numbered contents of a document. -/
def sectionAt? (contents : List Bytes) : List (Bytes × Nat) → Option Section
  | [] => none
  | (content, index) :: later =>
      if isHeader content then
        some { header := nameOf content, line := index,
               entries := Section.lastValues (assignments contents (block later)) }
      else none

/-- The sections of a document by its contents: one for every header, in the order of lines. -/
def sections (contents : List Bytes) : List Section :=
  contents.zipIdx.tails.filterMap (sectionAt? contents)

theorem entries_of_sectionAt? {contents : List Bytes} {numbered : List (Bytes × Nat)}
    {s : Section} (h : sectionAt? contents numbered = some s) :
    ∃ later, s.entries = Section.lastValues (assignments contents (block later)) := by
  unfold sectionAt? at h
  split at h
  · cases h
  next later =>
    split at h
    · cases h
      exact ⟨later, rfl⟩
    · cases h

theorem assignments_cons (contents : List Bytes) (content : Bytes) (index : Nat)
    (later : List (Bytes × Nat)) :
    assignments contents ((content, index) :: later) =
      (if isOpen (contents.take index) then (assignment? content).toList else []) ++
        assignments contents later := by
  cases hopen : isOpen (contents.take index) with
  | false => simp [assignments, hopen]
  | true => cases hassign : assignment? content <;> simp [assignments, hopen, hassign]

theorem block_cons (content : Bytes) (index : Nat) (later : List (Bytes × Nat)) :
    block ((content, index) :: later) =
      if isHeader content then [] else (content, index) :: block later := by
  cases hheader : isHeader content <;> simp [block, hheader]

end History

namespace State

open History

theorem modifyHead_setAll_nil (sections : List Section) :
    sections.modifyHead (·.setAll []) = sections := by
  cases sections <;> rfl

/-- A header begins a section; any other content at most adds the assignment that it makes in an
open block to the newest one. -/
theorem Follows.step_sections {s : State} {before : List Bytes} (h : s.Follows before)
    (d : Dialect) (line : Bytes) (index : Nat) :
    (s.step d line index).sections =
      if isHeader (d.contentText line) then
        { header := nameOf (d.contentText line), line := index } :: s.sections
      else
        s.sections.modifyHead (·.setAll
          (if History.isOpen before then (assignment? (d.contentText line)).toList else [])) := by
  have hclass := classified_content d line
  rw [State.step_sections, h.isOpen, hclass.isHeader_eq, hclass.assignment?_eq]
  generalize d.content line = content at hclass
  cases hclass with
  | header => rfl
  | entry =>
      cases History.isOpen before with
      | true => rfl
      | false => exact (modifyHead_setAll_nil _).symm
  | blank | opening | closing | other => simp [modifyHead_setAll_nil]

theorem modifyHead_setAll_append (sections : List Section) (first second : List (Bytes × Bytes)) :
    sections.modifyHead (·.setAll (first ++ second)) =
      (sections.modifyHead (·.setAll first)).modifyHead (·.setAll second) := by
  cases sections with
  | nil => rfl
  | cons s rest => simp only [List.modifyHead_cons, Section.setAll_append]

/-- Taking lines from a state: the newest section takes the assignments up to the next header, and
every header among the lines begins a section of its own. -/
theorem Follows.run_sections {d : Dialect} {contents before : List Bytes} {s : State}
    (h : s.Follows before) (rest : List Bytes) (hcontents : contents = before ++ d.contents rest) :
    (s.run d rest before.length).sections =
      (((d.contents rest).zipIdx before.length).tails.filterMap (sectionAt? contents)).reverse ++
        s.sections.modifyHead
          (·.setAll (assignments contents (block ((d.contents rest).zipIdx before.length)))) := by
  induction rest generalizing before s with
  | nil => exact (modifyHead_setAll_nil _).symm
  | cons line rest ih =>
      have htake : contents.take before.length = before := by simp [hcontents]
      have hrun := ih (h.step d line before.length)
        (by simpa [Dialect.contents] using hcontents)
      rw [List.length_append, List.length_singleton, h.step_sections] at hrun
      rw [run_cons, hrun]
      simp only [Dialect.contents, List.map_cons, List.zipIdx_cons, List.tails_cons,
        List.filterMap_cons, sectionAt?, block_cons]
      -- A header ends the newest section and begins the next one. Any other line adds at most one
      -- assignment in front of those that the rest adds to the newest section.
      cases hheader : isHeader (d.contentText line) with
      | true =>
          simp only [↓reduceIte, List.modifyHead_cons, Section.setAll_new, List.reverse_cons,
            List.append_assoc, List.singleton_append]
          rw [show assignments contents [] = [] from rfl, modifyHead_setAll_nil]
      | false =>
          simp only [Bool.false_eq_true, ↓reduceIte]
          rw [assignments_cons, htake, modifyHead_setAll_append]

end State

/-- The sections of a document are those that its contents describe. Each has every key once, and
has values for its keys and for nothing else. -/
theorem sections_ofText (d : Dialect) (text : Bytes) :
    (ofText d text).sections = History.sections (d.contents (lines text)) ∧
      ∀ s ∈ (ofText d text).sections,
        s.keys.Nodup ∧ ∀ key, key ∈ s.keys ↔ ∃ value, s.get? key = some value := by
  have hsections : (ofText d text).sections = History.sections (d.contents (lines text)) := by
    have hrun := State.follows_start.run_sections (d := d) (lines text) rfl
    rw [ofText_eq_ofLines, ofLines_eq_finish]
    simpa [State.finish, History.sections] using congrArg List.reverse hrun
  refine ⟨hsections, ?_⟩
  intro s hs
  refine ⟨?_, s.mem_keys_iff⟩
  rw [hsections] at hs
  obtain ⟨numbered, -, hnumbered⟩ := List.mem_filterMap.mp hs
  obtain ⟨later, heq⟩ := History.entries_of_sectionAt? hnumbered
  rw [s.keys_perm.nodup_iff, heq, Section.keys_lastValues]
  exact Section.nodup_eraseDups _

end DefinitionFiles.Outline
