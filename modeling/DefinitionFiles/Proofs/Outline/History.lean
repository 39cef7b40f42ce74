import DefinitionFiles.Outline
import DefinitionFiles.Proofs.Text.Lines
import Mathlib.Data.FinEnum

/-!
# What earlier lines say about a line

Whether a block is open at a line, and which header is in force there, can be read off the lines
before it: the last brace decides the first, the last header the second. The state that is kept
between two lines knows no more than that.
-/

namespace DefinitionFiles

/-- What is left of a line after trimming it and taking its comment away. -/
def Dialect.contentText (d : Dialect) (line : Bytes) : Bytes :=
  d.stripComment (Bytes.trim line)

/-- The contents of some lines. -/
def Dialect.contents (d : Dialect) (lines : List Bytes) : List Bytes :=
  lines.map d.contentText

namespace Outline.History

/-- Whether a content stands between square brackets. -/
def isHeader (content : Bytes) : Bool :=
  2 ≤ content.length && content.head? = some 0x5B && content.getLast? = some 0x5D

/-- A header without its brackets. -/
def nameOf (header : Bytes) : Bytes :=
  header.tail.dropLast

/-- Whether a content is an opening or a closing brace. -/
def isBrace (content : Bytes) : Bool :=
  content = [0x7B] || content = [0x7D]

/-- The key and the value of a content of the form `key=value`. -/
def keyValue? (content : Bytes) : Option (Bytes × Bytes) :=
  match Bytes.cut? 0x3D content with
  | some (key, value) =>
      if key ≠ [] ∧ ∀ b ∈ key, Content.isKeyByte b then some (key, value) else none
  | none => none

/-- The assignment a content makes: it is neither header nor brace, and has the form
`key=value`. -/
def assignment? (content : Bytes) : Option (Bytes × Bytes) :=
  if isHeader content || isBrace content then none else keyValue? content

/-- Whether a block is open behind the given contents: the last brace is there and opens one. -/
def isOpen (before : List Bytes) : Bool :=
  (before.filter isBrace).getLast? = some [0x7B]

/-- The header in force behind the given contents: the name of the last one. -/
def header? (before : List Bytes) : Option Bytes :=
  (before.filter isHeader).getLast?.map nameOf

/-! ## Contents and their classes -/

theorem keyValue?_eq_some_iff {content key value : Bytes} :
    keyValue? content = some (key, value) ↔
      content = key ++ 0x3D :: value ∧ key ≠ [] ∧ ∀ b ∈ key, Content.isKeyByte b := by
  constructor
  · intro h
    unfold keyValue? at h
    split at h
    next key' value' hcut =>
      split at h
      next hkey =>
        cases h
        exact ⟨(Bytes.cut?_eq_some_iff.mp hcut).1, hkey⟩
      next => cases h
    next => cases h
  · rintro ⟨rfl, hkey⟩
    have hsep : (0x3D : UInt8) ∉ key := by
      intro hmem
      exact absurd (hkey.2 _ hmem) (by decide)
    have hcut : Bytes.cut? 0x3D (key ++ 0x3D :: value) = some (key, value) :=
      Bytes.cut?_eq_some_iff.mpr ⟨rfl, hsep⟩
    simp only [keyValue?, hcut, if_pos hkey]

theorem entry?_eq_some_iff {content key value : Bytes} :
    Content.entry? content = some (key, value) ↔
      content = key ++ 0x3D :: value ∧ key ≠ [] ∧ ∀ b ∈ key, Content.isKeyByte b := by
  constructor
  · intro h
    unfold Content.entry? at h
    split at h
    next b key' value' hspan =>
      cases h
      rw [List.span_eq_takeWhile_dropWhile, Prod.mk.injEq] at hspan
      refine ⟨?_, by simp, ?_⟩
      · rw [← hspan.1, ← hspan.2, List.takeWhile_append_dropWhile]
      · intro a ha
        rw [← hspan.1] at ha
        exact List.mem_takeWhile_imp ha
    next => cases h
  · rintro ⟨rfl, hne, hkey⟩
    obtain ⟨b, rest, rfl⟩ := List.exists_cons_of_ne_nil hne
    have hspan : ((b :: rest) ++ 0x3D :: value).span Content.isKeyByte =
        (b :: rest, 0x3D :: value) :=
      Bytes.span_append_cons hkey (by decide)
    simp only [Content.entry?, hspan]

theorem entry?_eq_keyValue? (content : Bytes) : Content.entry? content = keyValue? content := by
  apply Option.ext
  rintro ⟨key, value⟩
  rw [entry?_eq_some_iff, keyValue?_eq_some_iff]

theorem header?_eq_nameOf (content : Bytes) :
    Content.header? content = if isHeader content then some (nameOf content) else none := by
  unfold Content.header?
  split
  next rest =>
    cases rest with
    | nil => rfl
    | cons b rest => simp [isHeader, nameOf]
  next hno =>
    have hnot : isHeader content = false := by
      cases content with
      | nil => rfl
      | cons b rest =>
          have hb : b ≠ 0x5B := fun h => hno rest (by rw [h])
          simp [isHeader, hb]
    simp [hnot]

theorem isBrace_of_isHeader {content : Bytes} (h : isHeader content = true) :
    isBrace content = false := by
  simp only [isHeader, Bool.and_eq_true, decide_eq_true_eq] at h
  have hlength := h.1.1
  simp only [isBrace, Bool.or_eq_false_iff, decide_eq_false_iff_not]
  constructor <;> (rintro rfl; simp at hlength)

/-- What a content is, with what its text looks like. -/
inductive Classified (text : Bytes) : Content → Prop where
  | blank (hblank : text = []) : Classified text .blank
  | header (hheader : isHeader text = true) (hbrace : isBrace text = false) :
      Classified text (.header (nameOf text))
  | opening (hopening : text = [0x7B]) : Classified text .opening
  | closing (hclosing : text = [0x7D]) : Classified text .closing
  | entry {key value : Bytes} (hheader : isHeader text = false) (hbrace : isBrace text = false)
      (hkey : keyValue? text = some (key, value)) : Classified text (.entry key value)
  | other (hne : text ≠ []) (hheader : isHeader text = false) (hbrace : isBrace text = false)
      (hkey : keyValue? text = none) : Classified text .other

theorem classified_ofText (text : Bytes) : Classified text (Content.ofText text) := by
  unfold Content.ofText
  rw [header?_eq_nameOf, entry?_eq_keyValue?]
  split
  next hblank => exact .blank hblank
  next hne =>
    cases hheader : isHeader text with
    | true => exact .header hheader (isBrace_of_isHeader hheader)
    | false =>
        simp only [Bool.false_eq_true, ↓reduceIte]
        split
        next hopening => exact .opening hopening
        next hopening =>
          split
          next hclosing => exact .closing hclosing
          next hclosing =>
            have hbrace : isBrace text = false := by simp [isBrace, hopening, hclosing]
            split
            next hkey => exact .entry hheader hbrace hkey
            next hkey => exact .other hne hheader hbrace hkey

theorem Classified.isHeader_eq {text : Bytes} {content : Content} :
    Classified text content → isHeader text = match content with
      | .header _ => true
      | _ => false := by
  intro h
  cases h with
  | blank htext | opening htext | closing htext => subst htext; rfl
  | header hheader _ => exact hheader
  | entry hheader _ _ => exact hheader
  | other _ hheader _ _ => exact hheader

theorem Classified.isBrace_eq {text : Bytes} {content : Content} :
    Classified text content → isBrace text = match content with
      | .opening | .closing => true
      | _ => false := by
  intro h
  cases h with
  | blank htext | opening htext | closing htext => subst htext; rfl
  | header _ hbrace => exact hbrace
  | entry _ hbrace _ => exact hbrace
  | other _ _ hbrace _ => exact hbrace

theorem Classified.assignment?_eq {text : Bytes} {content : Content} :
    Classified text content → assignment? text = match content with
      | .entry key value => some (key, value)
      | _ => none := by
  intro h
  cases h with
  | blank htext | opening htext | closing htext => subst htext; rfl
  | header hheader _ => simp [assignment?, hheader]
  | entry hheader hbrace hkey => simp [assignment?, hheader, hbrace, hkey]
  | other _ hheader hbrace hkey => simp [assignment?, hheader, hbrace, hkey]

theorem classified_content (d : Dialect) (line : Bytes) :
    Classified (d.contentText line) (d.content line) :=
  classified_ofText _

/-! ## One more line -/

theorem isOpen_concat (before : List Bytes) (content : Bytes) :
    isOpen (before ++ [content]) =
      if isBrace content then decide (content = [0x7B]) else isOpen before := by
  unfold isOpen
  rw [List.filter_append]
  cases hbrace : isBrace content <;> simp [hbrace]

theorem header?_concat (before : List Bytes) (content : Bytes) :
    header? (before ++ [content]) =
      if isHeader content then some (nameOf content) else header? before := by
  unfold header?
  rw [List.filter_append]
  cases hheader : isHeader content <;> simp [hheader]

end Outline.History

/-! ## The state between two lines -/

namespace Outline.State

open History

@[simp]
theorem report_isOpen (d : Dialect) (index : Nat) (line : Bytes) (severity : Severity)
    (text : Bytes) (s : State) : (s.report d index line severity text).isOpen = s.isOpen :=
  rfl

@[simp]
theorem report_sections (d : Dialect) (index : Nat) (line : Bytes) (severity : Severity)
    (text : Bytes) (s : State) : (s.report d index line severity text).sections = s.sections :=
  rfl

/-- Only braces open and close blocks. -/
theorem step_isOpen (d : Dialect) (s : State) (line : Bytes) (index : Nat) :
    (s.step d line index).isOpen = match d.content line with
      | .opening => true
      | .closing => false
      | _ => s.isOpen := by
  unfold step
  cases d.content line with
  | blank | opening | closing => rfl
  | header name => cases hopen : s.isOpen <;> simp [hopen]
  | entry key value =>
      simp only
      split
      · split <;> simp_all
      · rfl
  | other =>
      simp only
      split <;> rfl

/-- Headers begin sections, and entries of an open block go to the newest one. -/
theorem step_sections (d : Dialect) (s : State) (line : Bytes) (index : Nat) :
    (s.step d line index).sections = match d.content line with
      | .header name => { header := name, line := index } :: s.sections
      | .entry key value =>
          if s.isOpen then s.sections.modifyHead (·.set key value) else s.sections
      | _ => s.sections := by
  unfold step
  cases d.content line with
  | blank | opening | closing => rfl
  | header name => cases s.isOpen <;> rfl
  | entry key value =>
      cases hopen : s.isOpen with
      | false => rfl
      | true =>
          cases hsections : s.sections with
          | nil => simp [hsections]
          | cons current earlier =>
              simp only [↓reduceIte, List.modifyHead_cons]
              split <;> rfl
  | other =>
      simp only
      split <;> rfl

/-- The state after some more lines, the first of which has the given index. -/
def run (d : Dialect) (s : State) (lines : List Bytes) (index : Nat) : State :=
  (lines.zipIdx index).foldl (fun s (line, index) => s.step d line index) s

@[simp]
theorem run_nil (d : Dialect) (s : State) (index : Nat) : s.run d [] index = s :=
  rfl

@[simp]
theorem run_cons (d : Dialect) (s : State) (line : Bytes) (rest : List Bytes) (index : Nat) :
    s.run d (line :: rest) index = (s.step d line index).run d rest (index + 1) :=
  rfl

theorem run_append (d : Dialect) (s : State) (first second : List Bytes) (index : Nat) :
    s.run d (first ++ second) index =
      (s.run d first index).run d second (index + first.length) := by
  induction first generalizing s index with
  | nil => rfl
  | cons line first ih =>
      rw [List.cons_append, run_cons, run_cons, ih, List.length_cons]
      congr 1
      omega

/-- A state knows no more of the lines before it than what they say about the next one. -/
structure Follows (s : State) (before : List Bytes) : Prop where
  isOpen : s.isOpen = History.isOpen before
  header? : s.header? = History.header? before

theorem follows_start : ({} : State).Follows [] where
  isOpen := rfl
  header? := rfl

theorem Follows.step {s : State} {before : List Bytes} (h : s.Follows before) (d : Dialect)
    (line : Bytes) (index : Nat) :
    (s.step d line index).Follows (before ++ [d.contentText line]) := by
  have hclass := classified_content d line
  constructor
  · rw [step_isOpen, isOpen_concat, hclass.isBrace_eq, h.isOpen]
    generalize d.content line = content at hclass
    cases hclass with
    | opening hopening => simp [hopening]
    | closing hclosing => simp [hclosing]
    | blank | header | entry | other => rfl
  · rw [State.header?, step_sections, header?_concat, hclass.isHeader_eq, ← h.header?,
      State.header?]
    generalize d.content line = content at hclass
    cases hclass with
    | entry => cases s.isOpen <;> cases s.sections <;> rfl
    | blank | header | opening | closing | other => rfl

/-- Reading lines from a state that follows the contents before them. -/
theorem Follows.run {s : State} {before : List Bytes} (h : s.Follows before) (d : Dialect)
    (rest : List Bytes) :
    (s.run d rest before.length).Follows (before ++ d.contents rest) := by
  induction rest generalizing s before with
  | nil => simpa [Dialect.contents] using h
  | cons line rest ih => simpa [Dialect.contents] using ih (h.step d line before.length)

end Outline.State

namespace Outline

theorem ofLines_eq_finish (d : Dialect) (lines : List Bytes) :
    ofLines d lines = (({} : State).run d lines 0).finish d :=
  rfl

/-- Every line of a text has its part in the outline, however long it is. -/
theorem ofText_eq_ofLines (d : Dialect) (text : Bytes) : ofText d text = ofLines d (lines text) := by
  rw [ofText, LineReader.lines_run_boundOf]

end Outline

end DefinitionFiles
