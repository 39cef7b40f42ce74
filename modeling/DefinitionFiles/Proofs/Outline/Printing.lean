import DefinitionFiles.Proofs.Outline.Entries
import DefinitionFiles.Proofs.Outline.History
import DefinitionFiles.Proofs.Text.Trimming

/-!
# Printed documents

A document can be printed from headers and entries, one line for each header, brace and entry. What
is printed is read back: no line of it is trimmed, cut at a comment or taken for another kind of
line, and only entries without a value are remarked upon.
-/

namespace DefinitionFiles

/-- An entry that has a line of its own. -/
structure PrintedEntry where
  key : Bytes
  value : Bytes
  key_ne_nil : key ≠ []
  key_bytes : ∀ b ∈ key, Content.isKeyByte b = true
  lf_notMem : Bytes.lf ∉ value
  comment_free : ¬ utf8 "//" <:+: value
  not_blank_end : ∀ c ∈ blanks, ¬ Utf8.encode c <:+ value

/-- A section as it is printed. -/
structure PrintedSection where
  header : Bytes
  entries : List PrintedEntry
  lf_notMem : Bytes.lf ∉ header
  comment_free : ¬ utf8 "//" <:+: header
  nodup_keys : (entries.map PrintedEntry.key).Nodup

/-- What every line of a printed document ends in. -/
inductive LineEnding where
  | lf
  | crlf

def LineEnding.bytes : LineEnding → Bytes
  | .lf => [Bytes.lf]
  | .crlf => [Bytes.cr, Bytes.lf]

namespace PrintedEntry

def line (e : PrintedEntry) : Bytes :=
  e.key ++ 0x3D :: e.value

def pair (e : PrintedEntry) : Bytes × Bytes :=
  (e.key, e.value)

/-- What is said about an entry without a value on the line with the given index. -/
def warning? (header : Bytes) (e : PrintedEntry) (index : Nat) : Option Diagnostic :=
  if e.value = [] then
    some { line := index
           startColumn := 0
           endColumn := Utf8.units e.line
           severity := .warning
           message := utf8 "Line " ++ Bytes.decimal (index + 1) ++ utf8 ": entry " ++ e.key ++
             utf8 " has no value (in [" ++ header ++ utf8 "])"
           source := utf8 "uox3dfn" }
  else none

end PrintedEntry

namespace PrintedSection

def headerLine (p : PrintedSection) : Bytes :=
  0x5B :: (p.header ++ [0x5D])

def lines (p : PrintedSection) : List Bytes :=
  [p.headerLine, [0x7B]] ++ p.entries.map PrintedEntry.line ++ [[0x7D]]

/-- The section that is read when the header stands on the line with the given index. -/
def sectionAt (p : PrintedSection) (index : Nat) : Section :=
  { header := p.header, line := index, entries := p.entries.map PrintedEntry.pair }

/-- The entries follow the header and the opening brace. -/
def warningsAt (p : PrintedSection) (index : Nat) : List Diagnostic :=
  (p.entries.zipIdx (index + 2)).filterMap fun (e, index) => e.warning? p.header index

/-- The index of the header's line of the section at a place in a printed document. -/
def lineOf (sections : List PrintedSection) (place : Nat) : Nat :=
  ((sections.take place).flatMap lines).length

end PrintedSection

def printed (ending : LineEnding) (sections : List PrintedSection) : Bytes :=
  (sections.flatMap PrintedSection.lines).flatMap (· ++ ending.bytes)

/-! ## The lines of a printed document -/

theorem isVisible_of_isKeyByte {b : UInt8} (h : Content.isKeyByte b = true) :
    Bytes.isVisible b = true := by
  simp only [Content.isKeyByte, Bytes.isLetter, Bytes.isDigit, Bytes.isVisible, Bool.or_eq_true,
    Bool.and_eq_true, decide_eq_true_eq, UInt8.le_iff_toNat_le, UInt8.reduceToNat,
    ← UInt8.toNat_inj] at h ⊢
  omega

/-- What the reading of a line needs of it: nothing of it is taken away. -/
structure IsIntact (line : Bytes) : Prop where
  lf_notMem : Bytes.lf ∉ line
  trim_eq : Bytes.trim line = line
  comment_free : ¬ utf8 "//" <:+: line

theorem IsIntact.chomp_eq {line : Bytes} (h : IsIntact line) : chomp line = line := by
  apply if_neg
  intro hlast
  obtain ⟨front, rfl⟩ := List.getLast?_eq_some_iff.mp hlast
  have hend : Bytes.trimEnd (front ++ [Bytes.cr]) = front ++ [Bytes.cr] := by
    rw [← h.trim_eq, Bytes.trim, Bytes.trimEnd_trimEnd]
  have hlength := (Bytes.dropWords_suffix reversedBlankWords front.reverse).length_le
  have hsame := congrArg List.length hend
  rw [Bytes.trimEnd_append_cr, Bytes.trimEnd] at hsame
  simp only [List.length_reverse, List.length_append, List.length_singleton] at hlength hsame
  omega

theorem IsIntact.content_eq {line : Bytes} (h : IsIntact line) :
    ({} : Dialect).content line = Content.ofText line := by
  have hmarker : ({} : Dialect).marker ≠ [] := by decide
  have hfind : Bytes.find? ({} : Dialect).marker line = none :=
    Bytes.find?_eq_none_iff.mpr h.comment_free
  rw [Dialect.content, h.trim_eq, Dialect.stripComment, if_neg hmarker, hfind]

/-- A comment does not start across a byte that is no slash. -/
theorem comment_free_append_cons {b : UInt8} (hslash : b ≠ 0x2F) {front rest : Bytes}
    (hfront : ¬ utf8 "//" <:+: front) (hrest : ¬ utf8 "//" <:+: rest) :
    ¬ utf8 "//" <:+: front ++ b :: rest := by
  have hword : utf8 "//" = [0x2F, 0x2F] := by decide
  have hmem : b ∉ utf8 "//" := by simp [hword, hslash]
  intro h
  rcases Bytes.infix_append_cons hmem h with h | h
  · exact hfront h
  · exact hrest h

theorem comment_free_nil : ¬ utf8 "//" <:+: [] := by
  rw [List.infix_nil]
  decide

/-- A visible byte that is no slash keeps what stands on its two sides apart. -/
theorem isIntact_append_cons {b : UInt8} (hb : Bytes.isVisible b = true) (hslash : b ≠ 0x2F)
    {s t : Bytes} (hlf : Bytes.lf ∉ s ∧ Bytes.lf ∉ t) (hstart : Bytes.trimStart s = s)
    (hend : Bytes.trimEnd t = t) (hcomment : ¬ utf8 "//" <:+: s ∧ ¬ utf8 "//" <:+: t) :
    IsIntact (s ++ b :: t) where
  lf_notMem := by
    have hne : Bytes.lf ≠ b := by
      rintro rfl
      exact absurd hb (by decide)
    simp [hlf, hne]
  trim_eq := by rw [Bytes.trim_append_cons hb, hstart, hend]
  comment_free := comment_free_append_cons hslash hcomment.1 hcomment.2

theorem isIntact_headerLine (p : PrintedSection) : IsIntact p.headerLine := by
  have hlf : Bytes.lf ∉ p.header ++ [0x5D] := by
    have hne : Bytes.lf ≠ 0x5D := by decide
    simp [p.lf_notMem, hne]
  have hend : Bytes.trimEnd (p.header ++ [0x5D]) = p.header ++ [0x5D] := by
    rw [Bytes.trimEnd_append_cons (by decide), Bytes.trimEnd_nil]
  have hcomment := comment_free_append_cons (b := 0x5D) (by decide) p.comment_free comment_free_nil
  exact isIntact_append_cons (s := []) (by decide) (by decide) ⟨List.not_mem_nil, hlf⟩
    Bytes.trimStart_nil hend ⟨comment_free_nil, hcomment⟩

theorem isIntact_singleton {b : UInt8} (hb : Bytes.isVisible b = true) (hslash : b ≠ 0x2F) :
    IsIntact [b] :=
  isIntact_append_cons (s := []) hb hslash ⟨List.not_mem_nil, List.not_mem_nil⟩
    Bytes.trimStart_nil Bytes.trimEnd_nil ⟨comment_free_nil, comment_free_nil⟩

theorem isIntact_entryLine (e : PrintedEntry) : IsIntact e.line := by
  have hlf : Bytes.lf ∉ e.key := fun h => absurd (e.key_bytes _ h) (by decide)
  have hslash : (0x2F : UInt8) ∉ e.key := fun h => absurd (e.key_bytes _ h) (by decide)
  have hstart : Bytes.trimStart e.key = e.key := by
    obtain ⟨b, rest, hkey⟩ := List.exists_cons_of_ne_nil e.key_ne_nil
    have hb := isVisible_of_isKeyByte (e.key_bytes b (by simp [hkey]))
    rw [hkey, ← List.nil_append (b :: rest), Bytes.trimStart_append_cons hb, Bytes.trimStart_nil]
  refine isIntact_append_cons (by decide) (by decide) ⟨hlf, e.lf_notMem⟩ hstart
    (Bytes.trimEnd_eq_self e.not_blank_end) ⟨?_, e.comment_free⟩
  intro hkey
  exact hslash (hkey.subset (by decide))

theorem isIntact_of_mem_lines {p : PrintedSection} {line : Bytes} (h : line ∈ p.lines) :
    IsIntact line := by
  simp only [PrintedSection.lines, List.mem_append, List.mem_cons, List.mem_map,
    List.not_mem_nil, or_false] at h
  rcases h with ((rfl | rfl) | ⟨e, -, rfl⟩) | rfl
  · exact isIntact_headerLine p
  · exact isIntact_singleton (by decide) (by decide)
  · exact isIntact_entryLine e
  · exact isIntact_singleton (by decide) (by decide)

theorem lines_printed (ending : LineEnding) (sections : List PrintedSection) :
    lines (printed ending sections) = sections.flatMap PrintedSection.lines := by
  have hintact : ∀ line ∈ sections.flatMap PrintedSection.lines, IsIntact line := by
    intro line hline
    obtain ⟨p, -, hp⟩ := List.mem_flatMap.mp hline
    exact isIntact_of_mem_lines hp
  unfold printed
  generalize sections.flatMap PrintedSection.lines = pieces at hintact ⊢
  cases ending with
  | lf =>
      have hlines := lines_unlines fun line hline => (hintact line hline).lf_notMem
      rw [List.map_congr_left fun line hline => (hintact line hline).chomp_eq, List.map_id'] at hlines
      exact hlines
  | crlf =>
      have hfree : ∀ line ∈ pieces.map (· ++ [Bytes.cr]), Bytes.lf ∉ line := by
        intro line hline
        obtain ⟨piece, hpiece, rfl⟩ := List.mem_map.mp hline
        exact lf_notMem_append_cr (hintact piece hpiece).lf_notMem
      have hlines := lines_unlines hfree
      simpa [unlines, List.flatMap_map, LineEnding.bytes, chomp_append_cr, Function.comp_def] using
        hlines

/-! ## What the lines are read as -/

theorem content_headerLine (p : PrintedSection) :
    ({} : Dialect).content p.headerLine = .header p.header := by
  rw [(isIntact_headerLine p).content_eq]
  simp [PrintedSection.headerLine, Content.ofText, Content.header?]

theorem content_entryLine (e : PrintedEntry) :
    ({} : Dialect).content e.line = .entry e.key e.value := by
  have hentry : Content.entry? e.line = some (e.key, e.value) :=
    Outline.History.entry?_eq_some_iff.mpr ⟨rfl, e.key_ne_nil, e.key_bytes⟩
  obtain ⟨b, rest, hkey⟩ := List.exists_cons_of_ne_nil e.key_ne_nil
  have hline : e.line = b :: (rest ++ 0x3D :: e.value) := by rw [PrintedEntry.line, hkey]; rfl
  have hb := e.key_bytes b (by simp [hkey])
  have hheader : Content.header? e.line = none := by
    have hne : b ≠ 0x5B := by
      rintro rfl
      exact absurd hb (by decide)
    rw [Outline.History.header?_eq_nameOf]
    simp [Outline.History.isHeader, hline, hne]
  have hbrace : ∀ c : UInt8, e.line ≠ [c] := by simp [hline]
  rw [(isIntact_entryLine e).content_eq, Content.ofText, if_neg (by simp [hline]), hheader]
  simp only [if_neg (hbrace _), hentry]

namespace Outline.State

/-- Outside of a block a header begins a section, and nothing is said about it. -/
theorem step_headerLine {s : State} (h : s.isOpen = false) (p : PrintedSection) (index : Nat) :
    s.step {} p.headerLine index =
      { s with sections := { header := p.header, line := index } :: s.sections } := by
  simp [step, content_headerLine, h]

theorem step_opening (s : State) (index : Nat) :
    s.step {} [0x7B] index = { s with isOpen := true } := by
  have hcontent : ({} : Dialect).content [0x7B] = .opening :=
    (isIntact_singleton (by decide) (by decide)).content_eq
  simp [step, hcontent]

theorem step_closing (s : State) (index : Nat) :
    s.step {} [0x7D] index = { s with isOpen := false } := by
  have hcontent : ({} : Dialect).content [0x7D] = .closing :=
    (isIntact_singleton (by decide) (by decide)).content_eq
  simp [step, hcontent]

theorem report_warning {s : State} {header : Bytes} (hheader : s.header? = some header)
    {e : PrintedEntry} (hvalue : e.value = []) (index : Nat) :
    s.report {} index e.line .warning (utf8 "entry " ++ e.key ++ utf8 " has no value") =
      { s with diagnostics := (e.warning? header index).toList ++ s.diagnostics } := by
  have hfront : utf8 ": entry " = utf8 ": " ++ utf8 "entry " := by decide
  have hback : utf8 " has no value (in [" = utf8 " has no value" ++ utf8 " (in [" := by decide
  simp [State.report, PrintedEntry.warning?, hvalue, hfront, hback, hheader, Diagnostic.annotate]

section Block

variable (current : Section) (earlier : List Section) (diagnostics : List Diagnostic)

/-- In the block of a section a new key is added to its entries. -/
theorem step_entryLine (e : PrintedEntry) (hnew : e.key ∉ current.entries.map Prod.fst)
    (index : Nat) :
    ({ sections := current :: earlier, diagnostics, isOpen := true } : State).step {} e.line index =
      { sections := current.extend [e.pair] :: earlier
        diagnostics := (e.warning? current.header index).toList ++ diagnostics
        isOpen := true } := by
  have hset : current.set e.key e.value = current.extend [e.pair] :=
    Section.set_of_notMem hnew e.value
  have hblank := Bytes.trim_eq_nil_iff e.not_blank_end
  simp only [step, content_entryLine, hset, hblank]
  split
  next hvalue => exact report_warning rfl hvalue index
  next hvalue => simp [PrintedEntry.warning?, hvalue]

/-- Reading the entries of a section one after the other, behind those that were read already. -/
theorem run_entryLines (entries : List PrintedEntry)
    (hnodup : (current.entries.map Prod.fst ++ entries.map PrintedEntry.key).Nodup) (index : Nat) :
    ({ sections := current :: earlier, diagnostics, isOpen := true } : State).run {}
        (entries.map PrintedEntry.line) index =
      { sections := current.extend (entries.map PrintedEntry.pair) :: earlier
        diagnostics := ((entries.zipIdx index).filterMap fun (e, index) =>
          e.warning? current.header index).reverse ++ diagnostics
        isOpen := true } := by
  induction entries generalizing current diagnostics index with
  | nil => simp [Section.extend]
  | cons e rest ih =>
      have hnew : e.key ∉ current.entries.map Prod.fst := by
        intro hmem
        exact (List.nodup_append.mp hnodup).2.2 _ hmem _ List.mem_cons_self rfl
      rw [List.map_cons, run_cons, step_entryLine current earlier diagnostics e hnew]
      rw [ih (current.extend [e.pair]) _
        (by simpa [PrintedEntry.pair] using hnodup), Section.extend_extend]
      cases hwarning : e.warning? current.header index with
      | none => simp [hwarning]
      | some d => simp [hwarning]

end Block

/-- Reading a printed section outside of a block. -/
theorem run_section {s : State} (h : s.isOpen = false) (p : PrintedSection) (index : Nat) :
    s.run {} p.lines index =
      { sections := p.sectionAt index :: s.sections
        diagnostics := (p.warningsAt index).reverse ++ s.diagnostics
        isOpen := false } := by
  have hentries := run_entryLines { header := p.header, line := index } s.sections s.diagnostics
    p.entries p.nodup_keys (index + 2)
  simp only [PrintedSection.lines, run_append, run_cons, run_nil, step_headerLine h, step_opening,
    step_closing, List.length_cons, List.length_nil, hentries]
  rfl

/-- Reading printed sections outside of a block, the first of which begins at the given line. -/
theorem run_sections {s : State} (h : s.isOpen = false) (sections : List PrintedSection)
    (index : Nat) :
    s.run {} (sections.flatMap PrintedSection.lines) index =
      { sections := (sections.mapIdx fun place p =>
          p.sectionAt (index + PrintedSection.lineOf sections place)).reverse ++ s.sections
        diagnostics := (sections.mapIdx fun place p =>
          p.warningsAt (index + PrintedSection.lineOf sections place)).flatten.reverse ++
            s.diagnostics
        isOpen := false } := by
  induction sections generalizing s index with
  | nil => simp [← h]
  | cons p rest ih =>
      have hfirst : PrintedSection.lineOf (p :: rest) 0 = 0 := rfl
      have hline : ∀ place, PrintedSection.lineOf (p :: rest) (place + 1) =
          p.lines.length + PrintedSection.lineOf rest place := by
        intro place
        simp [PrintedSection.lineOf]
      rw [List.flatMap_cons, run_append, run_section h, ih rfl]
      simp [List.mapIdx_cons, hfirst, hline, Nat.add_assoc]

end Outline.State

namespace Outline

/-- A printed document is read back: its sections begin at the lines of their headers and have the
entries that were printed, and the only diagnostics are warnings for entries without a value. -/
theorem ofText_printed (ending : LineEnding) (sections : List PrintedSection) :
    ofText {} (printed ending sections) =
      { sections := sections.mapIdx fun place p =>
          p.sectionAt (PrintedSection.lineOf sections place)
        diagnostics := (sections.mapIdx fun place p =>
          p.warningsAt (PrintedSection.lineOf sections place)).flatten } := by
  rw [ofText_eq_ofLines, lines_printed, ofLines_eq_finish, State.run_sections rfl]
  simp [State.finish]

/-- Brackets and a carriage return in a header, an entry without a value and one whose value has
the bytes of other lines, a stray byte among them, and a section with neither name nor entries. -/
theorem ofText_printed_crlf :
    let bare : PrintedEntry :=
      { key := utf8 "k", value := []
        key_ne_nil := by decide, key_bytes := by decide +kernel, lf_notMem := by decide
        comment_free := by decide
        not_blank_end := Bytes.not_blank_end_iff.mpr (by decide +kernel) }
    let busy : PrintedEntry :=
      { key := utf8 "K_1", value := utf8 " [b]=\x7d\r/" ++ [0xFF]
        key_ne_nil := by decide, key_bytes := by decide +kernel, lf_notMem := by decide
        comment_free := by decide
        not_blank_end := Bytes.not_blank_end_iff.mpr (by decide +kernel) }
    let full : PrintedSection :=
      { header := utf8 "[A]\r", entries := [bare, busy]
        lf_notMem := by decide, comment_free := by decide, nodup_keys := by decide }
    let empty : PrintedSection :=
      { header := [], entries := []
        lf_notMem := by decide, comment_free := by decide, nodup_keys := by decide }
    printed .crlf [full, empty] =
        utf8 "[[A]\r]\r\n\x7b\r\nk=\r\nK_1= [b]=\x7d\r/" ++ 0xFF ::
          utf8 "\r\n\x7d\r\n[]\r\n\x7b\r\n\x7d\r\n" ∧
      ofText {} (printed .crlf [full, empty]) =
        { sections := [
            { header := utf8 "[A]\r", line := 0
              entries := [(utf8 "k", []), (utf8 "K_1", utf8 " [b]=\x7d\r/" ++ [0xFF])] },
            { header := [], line := 5 }]
          diagnostics := [
            ⟨2, 0, 2, .warning, utf8 "Line 3: entry k has no value (in [[A]\r])",
              utf8 "uox3dfn"⟩] } := by
  intro bare busy full empty
  refine ⟨by decide +kernel, ?_⟩
  rw [ofText_printed]
  decide +kernel

end Outline

end DefinitionFiles
