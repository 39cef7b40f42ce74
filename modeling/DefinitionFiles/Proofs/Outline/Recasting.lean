import DefinitionFiles.Proofs.Outline.History
import Mathlib.Data.List.Forall2

/-!
# Documents that are read alike

Two documents whose lines have the same contents are read alike, even if the lines have other
indices, other lengths, or are read in another dialect. What is said about them then differs no
more than what is said about a line differs from what is said about its counterpart.

A renumbering of lines and a change of diagnostics are carried through the reading line by line. Two
changes are treated here: other indices of the lines, and another category and source.
-/

namespace DefinitionFiles

/-- A section whose header stands on another line. -/
def Section.renumber (place : Nat → Nat) (s : Section) : Section :=
  { s with line := place s.line }

namespace Outline

/-- An outline with its lines renumbered and its diagnostics changed. -/
def recast (place : Nat → Nat) (change : Diagnostic → Diagnostic) (o : Outline) : Outline :=
  { sections := o.sections.map (Section.renumber place)
    diagnostics := o.diagnostics.map change }

namespace State

/-- What is said about a line in the section with the given header. -/
def remark (d : Dialect) (header? : Option Bytes) (index : Nat) (line : Bytes)
    (severity : Severity) (text : Bytes) : Diagnostic :=
  { line := index
    startColumn := 0
    endColumn := Utf8.units line
    severity := severity
    message := Diagnostic.annotate d.category header?
      (utf8 "Line " ++ Bytes.decimal (index + 1) ++ utf8 ": " ++ text)
    source := d.source }

/-- What is said about a document that ends inside a block. -/
def ending (d : Dialect) (header? : Option Bytes) : Diagnostic :=
  { line := -1
    startColumn := 0
    endColumn := 0
    severity := .error
    message := Diagnostic.annotate d.category header? (utf8 "file ended before closing '\x7d'")
    source := d.source }

theorem report_eq (d : Dialect) (index : Nat) (line : Bytes) (severity : Severity) (text : Bytes)
    (s : State) : s.report d index line severity text =
      { s with diagnostics := remark d s.header? index line severity text :: s.diagnostics } :=
  rfl

theorem finish_eq (d : Dialect) (s : State) : s.finish d =
    { sections := s.sections.reverse
      diagnostics := s.diagnostics.reverse ++ if s.isOpen then [ending d s.header?] else [] } := by
  cases hopen : s.isOpen <;> simp [finish, ending, hopen]

def recast (place : Nat → Nat) (change : Diagnostic → Diagnostic) (s : State) : State :=
  { sections := s.sections.map (Section.renumber place)
    diagnostics := s.diagnostics.map change
    isOpen := s.isOpen }

section Fields

variable (place : Nat → Nat) (change : Diagnostic → Diagnostic) (s : State)

@[simp]
theorem recast_start : ({} : State).recast place change = {} :=
  rfl

@[simp]
theorem isOpen_recast : (s.recast place change).isOpen = s.isOpen :=
  rfl

@[simp]
theorem sections_recast :
    (s.recast place change).sections = s.sections.map (Section.renumber place) :=
  rfl

@[simp]
theorem header?_recast : (s.recast place change).header? = s.header? := by
  cases hsections : s.sections <;> simp [header?, hsections, Section.renumber]

end Fields

/-- A line with its index and a counterpart that is read alike: it has the same content, and what is
said about the line turns into what is said about the counterpart. -/
structure Corresponds (d d' : Dialect) (place : Nat → Nat) (change : Diagnostic → Diagnostic)
    (x y : Bytes × Nat) : Prop where
  index : y.2 = place x.2
  content : d'.content y.1 = d.content x.1
  remark : ∀ header? severity text,
    change (State.remark d header? x.2 x.1 severity text) =
      State.remark d' header? y.2 y.1 severity text

section Corresponding

variable {d d' : Dialect} {place : Nat → Nat} {change : Diagnostic → Diagnostic}

theorem report_recast {line line' : Bytes} {index index' : Nat}
    (h : Corresponds d d' place change (line, index) (line', index')) (s : State)
    (severity : Severity) (text : Bytes) :
    (s.recast place change).report d' index' line' severity text =
      (s.report d index line severity text).recast place change := by
  have hremark := h.remark s.header? severity text
  rw [report_eq, report_eq, header?_recast, ← hremark]
  rfl

theorem step_recast {line line' : Bytes} {index index' : Nat}
    (h : Corresponds d d' place change (line, index) (line', index')) (s : State) :
    (s.recast place change).step d' line' index' =
      (s.step d line index).recast place change := by
  have hcontent : d'.content line' = d.content line := h.content
  have hindex : index' = place index := h.index
  unfold step
  rw [hcontent]
  cases d.content line with
  | blank | opening | closing => rfl
  | header name =>
      by_cases hopen : s.isOpen = true
      · have hopen' : (s.recast place change).isOpen = true := hopen
        simp only [if_pos hopen, if_pos hopen', report_recast h]
        rw [hindex]
        rfl
      · have hopen' : ¬ (s.recast place change).isOpen = true := hopen
        simp only [if_neg hopen, if_neg hopen']
        rw [hindex]
        rfl
  | entry key value =>
      simp only [isOpen_recast, sections_recast]
      cases s.isOpen with
      | false => exact report_recast h s _ _
      | true =>
          cases s.sections with
          | nil => exact report_recast h s _ _
          | cons current earlier =>
              simp only [List.map_cons]
              split
              · exact report_recast h { s with
                  sections := current.set key value :: earlier
                  isOpen := true } _ _
              · rfl
  | other =>
      simp only [isOpen_recast, sections_recast]
      cases s.isOpen with
      | false => exact report_recast h s _ _
      | true => cases s.sections <;> exact report_recast h s _ _

theorem run_recast {lines lines' : List Bytes} {index index' : Nat}
    (h : List.Forall₂ (Corresponds d d' place change) (lines.zipIdx index) (lines'.zipIdx index'))
    (s : State) :
    (s.recast place change).run d' lines' index' =
      (s.run d lines index).recast place change := by
  unfold run
  generalize lines.zipIdx index = numbered at h ⊢
  generalize lines'.zipIdx index' = numbered' at h ⊢
  induction h generalizing s with
  | nil => rfl
  | @cons x y _ _ hline _ ih =>
      obtain ⟨line, index⟩ := x
      obtain ⟨line', index'⟩ := y
      rw [List.foldl_cons, List.foldl_cons, ← ih]
      exact congrArg (List.foldl _ · _) (step_recast hline s)

theorem finish_recast (hending : ∀ header?, change (ending d header?) = ending d' header?)
    (s : State) :
    (s.recast place change).finish d' = (s.finish d).recast place change := by
  rw [finish_eq, finish_eq, header?_recast, ← hending]
  cases hopen : s.isOpen <;> simp [recast, Outline.recast, hopen]

end Corresponding

end State

open State

/-- Documents with corresponding lines have corresponding outlines. -/
theorem ofLines_recast {d d' : Dialect} {place : Nat → Nat} {change : Diagnostic → Diagnostic}
    {lines lines' : List Bytes}
    (h : List.Forall₂ (Corresponds d d' place change) lines.zipIdx lines'.zipIdx)
    (hending : ∀ header?, change (ending d header?) = ending d' header?) :
    ofLines d' lines' = (ofLines d lines).recast place change := by
  rw [ofLines_eq_finish, ofLines_eq_finish, ← finish_recast hending, ← run_recast h, recast_start]

theorem forall₂_zipIdx {R : Bytes × Nat → Bytes × Nat → Prop} {lines : List Bytes}
    {index index' : Nat} (h : ∀ line, ∀ i < lines.length, R (line, index + i) (line, index' + i)) :
    List.Forall₂ R (lines.zipIdx index) (lines.zipIdx index') := by
  induction lines generalizing index index' with
  | nil => exact .nil
  | cons line rest ih =>
      refine .cons (h line 0 (by simp)) (ih ?_)
      intro line i hi
      have hnext := h line (i + 1) (by simpa using hi)
      rwa [Nat.add_right_comm, Nat.add_right_comm index' 1 i]

end Outline

/-- What stands in front of every message of a category. -/
def Category.mark (c : Category) : Bytes :=
  if c = Category.none then [] else utf8 "[" ++ c.dirName ++ utf8 "] "

theorem Diagnostic.annotate_append (category : Category) (header? : Option Bytes)
    (front text : Bytes) : annotate category header? (front ++ text) =
      category.mark ++ front ++ annotate Category.none header? text := by
  simp [annotate, Category.mark]

/-! ## Other indices -/

/-- The front of a message about the line with the given index. -/
def Diagnostic.lead (category : Category) (index : Nat) : Bytes :=
  category.mark ++ (utf8 "Line " ++ Bytes.decimal (index + 1) ++ utf8 ": ")

/-- A diagnostic whose line has another index. The number in its message changes with the index; the
diagnostic at the end of a document has neither. -/
def Diagnostic.renumber (category : Category) (place : Nat → Nat) (x : Diagnostic) : Diagnostic :=
  if x.isAtEnd then x
  else
    let index := x.line.toNat
    { x with
      line := place index
      message := match Bytes.after? (lead category index) x.message with
        | some text => lead category (place index) ++ text
        | none => x.message }

namespace Outline.State

theorem renumber_remark (d : Dialect) (place : Nat → Nat) (header? : Option Bytes) (index : Nat)
    (line : Bytes) (severity : Severity) (text : Bytes) :
    (remark d header? index line severity text).renumber d.category place =
      remark d header? (place index) line severity text := by
  have hmessage : ∀ index, (remark d header? index line severity text).message =
      Diagnostic.lead d.category index ++ Diagnostic.annotate Category.none header? text :=
    fun index => Diagnostic.annotate_append d.category header? _ text
  have hline : (remark d header? index line severity text).line.toNat = index := rfl
  have hplaced : (remark d header? index line severity text).isAtEnd = false := by
    simp [Diagnostic.isAtEnd, remark]
  rw [Diagnostic.renumber, hplaced]
  simp only [Bool.false_eq_true, if_false, hline, hmessage, Bytes.after?_append]
  rw [← hmessage]
  rfl

theorem renumber_ending (d : Dialect) (place : Nat → Nat) (header? : Option Bytes) :
    (ending d header?).renumber d.category place = ending d header? :=
  rfl

/-- Lines at other indices are read in the same way, as long as they still follow each other. -/
theorem run_renumber {place : Nat → Nat} {lines : List Bytes} {index index' : Nat}
    (hplace : ∀ i < lines.length, place (index + i) = index' + i) (d : Dialect) (s : State) :
    (s.recast place (Diagnostic.renumber d.category place)).run d lines index' =
      (s.run d lines index).recast place (Diagnostic.renumber d.category place) := by
  apply run_recast
  apply forall₂_zipIdx
  intro line i hi
  refine ⟨(hplace i hi).symm, rfl, ?_⟩
  intro header? severity text
  rw [renumber_remark, hplace i hi]

end Outline.State

/-! ## Another category and source -/

/-- A diagnostic with the mark of a category in front of its message, and a source. -/
def Diagnostic.relabel (category : Category) (source : Bytes) (x : Diagnostic) : Diagnostic :=
  { x with message := category.mark ++ x.message, source := source }

/-- Whether two diagnostics point out the same defect, in whatever words. -/
structure Diagnostic.Coincides (x y : Diagnostic) : Prop where
  line : x.line = y.line
  startColumn : x.startColumn = y.startColumn
  endColumn : x.endColumn = y.endColumn
  severity : x.severity = y.severity

namespace Outline

open State

/-- The dialect without a category and with another source, which reads lines in the same way. -/
theorem ofText_relabel (d : Dialect) (source text : Bytes) :
    ofText d text = (ofText { d with category := Category.none, source := source } text).recast id
      (Diagnostic.relabel d.category d.source) := by
  have hannotate : ∀ header? message, Diagnostic.annotate d.category header? message =
      d.category.mark ++ Diagnostic.annotate Category.none header? message := by
    intro header? message
    simpa using Diagnostic.annotate_append d.category header? [] message
  rw [ofText_eq_ofLines, ofText_eq_ofLines]
  apply ofLines_recast
  · apply forall₂_zipIdx
    intro line i _
    refine ⟨rfl, rfl, ?_⟩
    intro header? severity message
    simp [Diagnostic.relabel, remark, hannotate]
  · intro header?
    simp [Diagnostic.relabel, ending, hannotate]

theorem sections_relabel (d : Dialect) (category : Category) (source text : Bytes) :
    (ofText { d with category := category, source := source } text).sections =
      (ofText d text).sections := by
  rw [ofText_relabel d d.source, ofText_relabel { d with category := category, source := source }
    d.source]
  rfl

/-- The category and the source of a dialect show in the words and the source of diagnostics, and
nowhere else: neither in the sections nor in what is pointed out. -/
theorem annotation_ofText (marker : Bytes) (eagerComments : Bool) (text : Bytes)
    (category category' : Category) (source source' : Bytes) :
    let first := ofText ⟨category, source, marker, eagerComments⟩ text
    let second := ofText ⟨category', source', marker, eagerComments⟩ text
    let plain := ofText ⟨Category.none, source', marker, eagerComments⟩ text
    first.sections = second.sections ∧
      List.Forall₂ Diagnostic.Coincides first.diagnostics second.diagnostics ∧
      (∀ x ∈ first.diagnostics, x.source = source) ∧
      first.diagnostics.map Diagnostic.message =
        plain.diagnostics.map (fun x => (if category = Category.none then []
          else utf8 "[" ++ category.dirName ++ utf8 "] ") ++ x.message) ∧
      ∀ uri, (Definition.parse ⟨category, source, marker, eagerComments⟩ uri text).1.sections =
        first.sections := by
  intro first second plain
  have hfirst : first = plain.recast id (Diagnostic.relabel category source) :=
    ofText_relabel ⟨category, source, marker, eagerComments⟩ source' text
  have hsecond : second = plain.recast id (Diagnostic.relabel category' source') :=
    ofText_relabel ⟨category', source', marker, eagerComments⟩ source' text
  refine ⟨by rw [hfirst, hsecond]; rfl, ?_, ?_, ?_, ?_⟩
  · rw [hfirst, hsecond]
    simp only [recast, List.forall₂_map_left_iff, List.forall₂_map_right_iff, List.forall₂_same]
    exact fun x _ => ⟨rfl, rfl, rfl, rfl⟩
  · rw [hfirst]
    simp [recast, Diagnostic.relabel]
  · rw [hfirst]
    simp [recast, Diagnostic.relabel, Category.mark]
  · intro uri
    exact sections_relabel ⟨category, source, marker, eagerComments⟩ _ source text

end Outline

end DefinitionFiles
