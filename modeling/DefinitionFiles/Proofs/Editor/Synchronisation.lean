import DefinitionFiles.Proofs.Editor.Position

/-!
# Synchronising an open document

An editor changes its text by edits at offsets, and sends each edit as a change at the positions
that these offsets have in its current text. However the changes are grouped into batches, the open
document has the editor's text after each of them.
-/

namespace DefinitionFiles

/-- An edit of a text by its editor. -/
inductive Edit where
  /-- The part between two offsets is replaced. -/
  | replace (start stop : Nat) (new : Bytes)
  /-- The whole text is replaced. -/
  | rewrite (new : Bytes)

namespace Edit

/-- The text after an edit. -/
def apply (text : Bytes) : Edit → Bytes
  | replace start stop new => text.take start ++ new ++ text.drop stop
  | rewrite new => new

/-- What the editor sends for an edit of its current text. -/
def change (text : Bytes) : Edit → Change
  | replace start stop new =>
      { span? := some ⟨.ofOffset text start, .ofOffset text stop⟩, text := new }
  | rewrite new => { text := new }

/-- Whether an edit replaces the part between two places of a text by well-formed text. -/
def Fits (text : Bytes) : Edit → Prop
  | replace start stop new =>
      start ≤ stop ∧ IsPlace text start ∧ IsPlace text stop ∧ Utf8.isValid new = true
  | rewrite new => Utf8.isValid new = true

/-- The text after edits in order. -/
def applyAll (text : Bytes) (edits : List Edit) : Bytes :=
  edits.foldl apply text

/-- What the editor sends for edits in order, each of the text that the earlier ones left. -/
def changes (text : Bytes) : List Edit → List Change
  | [] => []
  | edit :: rest => edit.change text :: changes (edit.apply text) rest

/-- Whether each of some edits in order fits the text that the earlier ones left. -/
def AllFit (text : Bytes) : List Edit → Prop
  | [] => True
  | edit :: rest => edit.Fits text ∧ AllFit (edit.apply text) rest

/-- What the editor sends for batches of edits in order. -/
def batches (text : Bytes) : List (List Edit) → List (List Change)
  | [] => []
  | batch :: rest => changes text batch :: batches (applyAll text batch) rest

/-- The editor's text after each batch of edits. -/
def texts (text : Bytes) : List (List Edit) → List Bytes
  | [] => []
  | batch :: rest => applyAll text batch :: texts (applyAll text batch) rest

theorem isValid_take {text : Bytes} (hvalid : Utf8.isValid text = true) {place : Nat}
    (hplace : IsPlace text place) :
    Utf8.isValid (text.take place) = true ∧ Utf8.isValid (text.drop place) = true := by
  obtain ⟨cs, rfl⟩ := (Utf8.isValid_iff text).mp hvalid
  obtain ⟨before, after, rfl, rfl⟩ :=
    Utf8.exists_split_of_boundary cs place hplace.le hplace.boundary
  rw [Utf8.ofChars_append, List.take_left, List.drop_left]
  exact ⟨(Utf8.isValid_iff _).mpr ⟨before, rfl⟩, (Utf8.isValid_iff _).mpr ⟨after, rfl⟩⟩

/-- An edit keeps a text well-formed, so that the next one finds its places in it. -/
theorem Fits.isValid_apply {text : Bytes} {edit : Edit} (h : edit.Fits text)
    (hvalid : Utf8.isValid text = true) : Utf8.isValid (edit.apply text) = true := by
  cases edit with
  | replace start stop new =>
      obtain ⟨-, hstart, hstop, hnew⟩ := h
      exact Utf8.isValid_append
        (Utf8.isValid_append (isValid_take hvalid hstart).1 hnew) (isValid_take hvalid hstop).2
  | rewrite new => exact h

/-- The change sent for an edit has the effect of the edit. -/
theorem Fits.edit?_change {text : Bytes} {edit : Edit} (h : edit.Fits text)
    (hvalid : Utf8.isValid text = true) :
    (edit.change text).edit? text = some (edit.apply text) := by
  cases edit with
  | replace start stop new =>
      obtain ⟨hle, hstart, hstop, -⟩ := h
      simp only [change, Change.edit?, Position.offset_ofOffset hvalid hstart,
        Position.offset_ofOffset hvalid hstop]
      rw [if_neg (by omega)]
      rfl
  | rewrite new => rfl

theorem allFit_append {text : Bytes} {earlier later : List Edit} :
    AllFit text (earlier ++ later) ↔
      AllFit text earlier ∧ AllFit (applyAll text earlier) later := by
  induction earlier generalizing text with
  | nil => simp [AllFit, applyAll]
  | cons edit earlier ih =>
      rw [List.cons_append, AllFit, AllFit, ih, and_assoc]
      rfl

theorem AllFit.isValid_applyAll {text : Bytes} {edits : List Edit} (h : AllFit text edits)
    (hvalid : Utf8.isValid text = true) : Utf8.isValid (applyAll text edits) = true := by
  induction edits generalizing text with
  | nil => exact hvalid
  | cons edit edits ih => exact ih h.2 (h.1.isValid_apply hvalid)

/-- A batch of changes has the effect of its edits, and none of them is reversed. -/
theorem AllFit.applyFrom_changes {text : Bytes} {edits : List Edit} (h : AllFit text edits)
    (hvalid : Utf8.isValid text = true) (index : Nat) :
    Change.applyFrom index text (changes text edits) = (applyAll text edits, none) := by
  induction edits generalizing text index with
  | nil => rfl
  | cons edit edits ih =>
      rw [changes, Change.applyFrom, h.1.edit?_change hvalid]
      exact ih h.2 (h.1.isValid_apply hvalid) (index + 1)

end Edit

namespace Document

/-- An open document after each of some batches, with the reversed change that ended the batch. -/
def applyBatches (d : Document) :
    List (List Change) → List (Document × Option Change.Reversed)
  | [] => []
  | batch :: rest => d.apply batch :: applyBatches (d.apply batch).1 rest

/-- Wherever the edits of a well-formed text lie between its characters and outside of its line
terminators, no change that the editor sends is reversed, and after each batch the open document
has the editor's text. -/
theorem applyBatches_batches (d : Document) (edits : List (List Edit))
    (hvalid : Utf8.isValid d.text = true) (hfit : Edit.AllFit d.text edits.flatten) :
    d.applyBatches (Edit.batches d.text edits) =
      (Edit.texts d.text edits).map fun text => ({ d with text := text }, none) := by
  induction edits generalizing d with
  | nil => rfl
  | cons batch rest ih =>
      obtain ⟨hbatch, hrest⟩ := Edit.allFit_append.mp hfit
      have happly : d.apply (Edit.changes d.text batch) =
          ({ d with text := Edit.applyAll d.text batch }, none) := by
        rw [apply, hbatch.applyFrom_changes hvalid]
      rw [Edit.batches, Edit.texts, applyBatches, List.map_cons, happly]
      congr 1
      exact ih { d with text := Edit.applyAll d.text batch } (hbatch.isValid_applyAll hvalid) hrest

/-- An astral character is replaced and the line break behind it removed in one batch; the next one
rewrites the text and adds a line. -/
theorem applyBatches_batches_astral :
    let text := Utf8.ofChars ['a', '😀', '\r', '\n', 'b']
    let edits : List (List Edit) :=
      [[.replace 1 5 (Utf8.ofChars ['é']), .replace 3 5 []],
        [.rewrite (Utf8.ofChars ['x', '\r', '\n']), .replace 3 3 (Utf8.ofChars ['😀'])]]
    (Utf8.isValid text = true ∧ Edit.AllFit text edits.flatten) ∧
      (Document.mk [] 1 text).applyBatches (Edit.batches text edits) =
        [(⟨[], 1, Utf8.ofChars ['a', 'é', 'b']⟩, none),
          (⟨[], 1, Utf8.ofChars ['x', '\r', '\n', '😀']⟩, none)] := by
  intro text edits
  have hchars : ∀ cs, Utf8.isValid (Utf8.ofChars cs) = true :=
    fun cs => (Utf8.isValid_iff _).mpr ⟨cs, rfl⟩
  have hfit : Edit.AllFit text edits.flatten := by
    refine ⟨⟨by decide, ?_, ?_, hchars _⟩, ⟨by decide, ?_, ?_, hchars []⟩, hchars _,
      ⟨by decide, ?_, ?_, hchars _⟩, trivial⟩
    all_goals decide +kernel
  refine ⟨⟨hchars _, hfit⟩, ?_⟩
  exact applyBatches_batches ⟨[], 1, text⟩ edits (hchars _) hfit

end Document

end DefinitionFiles
