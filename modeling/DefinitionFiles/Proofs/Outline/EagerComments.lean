import DefinitionFiles.Proofs.Outline.History
import DefinitionFiles.Proofs.Text.Trimming
import Mathlib.Data.Bool.AllAny

/-!
# Comments that take more than their marker

An eager comment takes the byte in front of its marker. Where that byte is a character, the line
loses this character and nothing else; where it is the last byte of a longer one, a part of that
character is left, and what the line says is not well-formed any more. Headers cannot be spoilt in
this way, because such a line ends in no bracket; the value of an entry can.
-/

namespace DefinitionFiles

namespace Dialect

variable {d : Dialect} {line : Bytes}

/-- What stands in front of the first comment marker of a trimmed line, if the line has one. -/
def beforeComment? (d : Dialect) (line : Bytes) : Option Bytes :=
  if d.marker = [] then none
  else (Bytes.find? d.marker (Bytes.trim line)).map (Bytes.trim line).take

/-- Whether the comment of a line splits a character: it is eager, and the character in front of its
marker has more than one byte. -/
def Splits (d : Dialect) (line : Bytes) : Prop :=
  d.eagerComments = true ∧
    ∃ front c, 0x80 ≤ c.toNat ∧ d.beforeComment? line = some (front ++ Utf8.encode c)

theorem contentText_eq (d : Dialect) (line : Bytes) :
    d.contentText line = match d.beforeComment? line with
      | some before => Bytes.trim (if d.eagerComments then before.dropLast else before)
      | none => Bytes.trim line := by
  unfold contentText stripComment beforeComment?
  split
  next => rfl
  next =>
    cases hfind : Bytes.find? d.marker (Bytes.trim line) with
    | none => rfl
    | some offset =>
        have hbound := Bytes.add_length_le_of_find? hfind
        cases d.eagerComments with
        | false => rfl
        | true =>
            simp only [↓reduceIte, Option.map_some]
            rw [List.dropLast_eq_take, List.length_take, List.take_take]
            congr 2
            omega

theorem isValid_of_beforeComment? (hmarker : Utf8.isValid d.marker = true)
    (hline : Utf8.isValid line = true) {before : Bytes} (h : d.beforeComment? line = some before) :
    Utf8.isValid before = true := by
  unfold beforeComment? at h
  split at h
  next => cases h
  next hne =>
    obtain ⟨offset, hfind, rfl⟩ := Option.map_eq_some_iff.mp h
    obtain ⟨rest, hrest⟩ := Bytes.exists_append_of_find? hfind
    have htrim := Bytes.isValid_trim hline
    rw [hrest] at htrim
    refine ((Utf8.isValid_append_iff ?_).mp htrim).1
    -- The marker begins with a character, so that it continues none.
    obtain ⟨cs, hcs⟩ := (Utf8.isValid_iff _).mp hmarker
    intro b hb
    rw [List.head?_append_of_ne_nil _ hne, hcs] at hb
    exact Utf8.isTail_of_head?_ofChars hb

/-- What stands in front of a comment is empty, or has a last character. -/
theorem exists_last_of_beforeComment? (hmarker : Utf8.isValid d.marker = true)
    (hline : Utf8.isValid line = true) {before : Bytes} (h : d.beforeComment? line = some before)
    (hne : before ≠ []) :
    ∃ front c, before = front ++ Utf8.encode c ∧ Utf8.isValid front = true := by
  obtain ⟨cs, rfl⟩ := (Utf8.isValid_iff before).mp (isValid_of_beforeComment? hmarker hline h)
  cases cs using List.reverseRecOn with
  | nil => exact absurd rfl hne
  | append_singleton cs c =>
      refine ⟨Utf8.ofChars cs, c, ?_, (Utf8.isValid_iff _).mpr ⟨cs, rfl⟩⟩
      rw [Utf8.ofChars_append, Utf8.ofChars_cons, Utf8.ofChars_nil, List.append_nil]

/-! ## The last character in front of a comment -/

/-- A part of a character at the end of a text is not trimmed away. -/
theorem trim_append_front {c : Char} {front back : Bytes} (hc : Utf8.encode c = front ++ back)
    (hfront : front ≠ []) (hback : back ≠ []) (s : Bytes) :
    Bytes.trim (s ++ front) = Bytes.trimStart s ++ front := by
  have hstart : Bytes.trimStart (s ++ front) = Bytes.trimStart s ++ front := by
    apply Bytes.dropWords_append_of_stop
      (Bytes.isApart_blankWords fun b hb => Utf8.isTail_of_front hc hb)
    apply Bytes.dropWords_of_not_prefix
    rintro word hword ⟨more, rfl⟩
    obtain ⟨e, -, rfl⟩ := List.mem_map.mp hword
    rw [List.append_assoc, ← List.append_nil (Utf8.encode c)] at hc
    exact hback (List.append_eq_nil_iff.mp (Utf8.eq_of_encode_append hc).2.symm).2
  rw [Bytes.trim, hstart]
  apply Bytes.trimEnd_eq_self
  rintro e - ⟨before, heq⟩
  have hsuffix : front <:+ before ++ Utf8.encode e := heq ▸ List.suffix_append _ front
  exact hback (Utf8.eq_of_front_suffix hc hfront hsuffix).2

/-- A comment that splits a character leaves the part of it that is not its last byte. -/
theorem Splits.exists_part (h : d.Splits line) :
    ∃ s part last c, 0x80 ≤ c.toNat ∧ Utf8.encode c = part ++ [last] ∧ part ≠ [] ∧
      d.contentText line = s ++ part := by
  obtain ⟨heager, front, c, hlarge, hbefore⟩ := h
  have hne := Utf8.encode_ne_nil c
  have hpart : (Utf8.encode c).dropLast ≠ [] := by
    have hc := Utf8.encoded_encode c
    generalize Utf8.encode c = bytes at hc
    cases hc with
    | one => omega
    | two | three | four => simp
  have hc : Utf8.encode c = (Utf8.encode c).dropLast ++ [(Utf8.encode c).getLast hne] :=
    (List.dropLast_append_getLast hne).symm
  refine ⟨Bytes.trimStart front, _, _, c, hlarge, hc, hpart, ?_⟩
  rw [contentText_eq, hbefore, heager]
  simp only [↓reduceIte]
  rw [List.dropLast_append_of_ne_nil hne, trim_append_front hc hpart (List.cons_ne_nil _ _)]

theorem Splits.not_isValid_contentText (h : d.Splits line) :
    Utf8.isValid (d.contentText line) = false := by
  obtain ⟨s, part, last, c, -, hc, hpart, hcontent⟩ := h.exists_part
  rw [hcontent]
  exact Utf8.not_isValid_append_front hc hpart (List.cons_ne_nil _ _) s

theorem contentText_of_not_splits (heager : d.eagerComments = true) {front : Bytes} {c : Char}
    (hbefore : d.beforeComment? line = some (front ++ Utf8.encode c)) (h : ¬ d.Splits line) :
    d.contentText line = Bytes.trim front := by
  have hsmall : c.toNat < 0x80 := by
    by_contra hlarge
    exact h ⟨heager, front, c, Nat.le_of_not_lt hlarge, hbefore⟩
  have hnil : (Utf8.encode c).dropLast = [] := by
    have hc := Utf8.encoded_encode c
    generalize Utf8.encode c = bytes at hc
    cases hc with
    | one => rfl
    | two | three | four => omega
  rw [contentText_eq, hbefore, heager]
  simp only [↓reduceIte]
  rw [List.dropLast_append_of_ne_nil (Utf8.encode_ne_nil c), hnil, List.append_nil]

/-- What a line says is well-formed exactly if its comment splits no character. -/
theorem isValid_contentText_iff (hmarker : Utf8.isValid d.marker = true)
    (hline : Utf8.isValid line = true) :
    Utf8.isValid (d.contentText line) = true ↔ ¬ d.Splits line := by
  constructor
  · intro hvalid hsplits
    cases hvalid.symm.trans hsplits.not_isValid_contentText
  · intro hnot
    cases hbefore : d.beforeComment? line with
    | none =>
        rw [contentText_eq, hbefore]
        exact Bytes.isValid_trim hline
    | some before =>
        have hvalid := isValid_of_beforeComment? hmarker hline hbefore
        cases heager : d.eagerComments with
        | false =>
            rw [contentText_eq, hbefore, heager]
            exact Bytes.isValid_trim hvalid
        | true =>
            by_cases hne : before = []
            · rw [contentText_eq, hbefore, heager, hne]
              exact Bytes.isValid_trim ((Utf8.isValid_iff _).mpr ⟨[], rfl⟩)
            · obtain ⟨front, c, rfl, hfront⟩ :=
                exists_last_of_beforeComment? hmarker hline hbefore hne
              rw [contentText_of_not_splits heager hbefore hnot]
              exact Bytes.isValid_trim hfront

end Dialect

/-! ## Headers, keys and values -/

/-- Whether the header and the entries of a section are what some lines say. -/
structure Section.StemsFrom (d : Dialect) (lines : List Bytes) (s : Section) : Prop where
  header : ∃ line ∈ lines, d.content line = .header s.header
  entry : ∀ key value, (key, value) ∈ s.entries → ∃ line ∈ lines, d.content line = .entry key value

theorem Section.mem_setEntry {key value : Bytes} {entries : List (Bytes × Bytes)}
    {a : Bytes × Bytes} (h : a ∈ setEntry key value entries) : a = (key, value) ∨ a ∈ entries := by
  induction entries with
  | nil => simpa [setEntry] using h
  | cons entry rest ih =>
      obtain ⟨k, v⟩ := entry
      rw [setEntry] at h
      split at h
      next hkey =>
        rcases List.mem_cons.mp h with rfl | hrest
        · exact .inl (by rw [hkey])
        · exact .inr (List.mem_cons_of_mem _ hrest)
      next =>
        rcases List.mem_cons.mp h with rfl | hrest
        · exact .inr List.mem_cons_self
        · exact (ih hrest).imp id (List.mem_cons_of_mem _)

namespace Outline

open History

variable {d : Dialect} {all : List Bytes}

theorem State.step_stemsFrom {s : State} (h : ∀ t ∈ s.sections, t.StemsFrom d all) {line : Bytes}
    (hline : line ∈ all) (index : Nat) :
    ∀ t ∈ (s.step d line index).sections, t.StemsFrom d all := by
  rw [State.step_sections]
  cases hcontent : d.content line with
  | header name =>
      intro t ht
      rcases List.mem_cons.mp ht with rfl | hearlier
      · exact ⟨⟨line, hline, hcontent⟩, by simp⟩
      · exact h t hearlier
  | entry key value =>
      simp only
      split
      next =>
        cases hsections : s.sections with
        | nil => simp
        | cons current earlier =>
            rw [hsections] at h
            intro t ht
            rcases List.mem_cons.mp ht with rfl | hearlier
            · have hcurrent := h current List.mem_cons_self
              refine ⟨hcurrent.header, ?_⟩
              intro k v hkv
              rcases Section.mem_setEntry hkv with hnew | hold
              · cases hnew
                exact ⟨line, hline, hcontent⟩
              · exact hcurrent.entry k v hold
            · exact h t (List.mem_cons_of_mem _ hearlier)
      next => exact h
  | blank | opening | closing | other => exact h

theorem State.run_stemsFrom {s : State} (h : ∀ t ∈ s.sections, t.StemsFrom d all)
    {rest : List Bytes} (hrest : ∀ line ∈ rest, line ∈ all) (index : Nat) :
    ∀ t ∈ (s.run d rest index).sections, t.StemsFrom d all := by
  induction rest generalizing s index with
  | nil => exact h
  | cons line rest ih =>
      rw [run_cons]
      exact ih (State.step_stemsFrom h (hrest line List.mem_cons_self) index)
        (fun other hother => hrest other (List.mem_cons_of_mem _ hother)) (index + 1)

theorem stemsFrom_ofText (d : Dialect) (text : Bytes) :
    ∀ s ∈ (ofText d text).sections, s.StemsFrom d (lines text) := by
  rw [ofText_eq_ofLines, ofLines_eq_finish]
  intro s hs
  exact State.run_stemsFrom (by simp) (fun _ hline => hline) 0 s (List.mem_reverse.mp hs)

/-- A header stands between its brackets. -/
theorem eq_of_isHeader {content : Bytes} (h : isHeader content = true) :
    content = 0x5B :: (nameOf content ++ [0x5D]) := by
  simp only [isHeader, Bool.and_eq_true, decide_eq_true_eq] at h
  obtain ⟨⟨hlength, hfirst⟩, hlast⟩ := h
  cases content with
  | nil => cases hfirst
  | cons b rest =>
      cases hfirst
      cases rest with
      | nil => simp at hlength
      | cons a rest =>
          rw [List.getLast?_cons_cons] at hlast
          obtain ⟨name, hname⟩ := List.getLast?_eq_some_iff.mp hlast
          rw [nameOf, List.tail_cons, hname, List.dropLast_concat]

/-- A line whose comment splits a character is no header: a part of a character is no bracket. -/
theorem not_splits_of_isHeader {line : Bytes} (h : isHeader (d.contentText line) = true) :
    ¬ d.Splits line := by
  intro hsplits
  obtain ⟨s, part, last, c, hlarge, hc, hpart, hcontent⟩ := hsplits.exists_part
  have hlast := congrArg List.getLast? (eq_of_isHeader h)
  rw [hcontent, List.getLast?_append_of_ne_nil _ hpart, ← List.cons_append, List.getLast?_concat]
    at hlast
  have hmem : (0x5D : UInt8) ∈ Utf8.encode c := by
    rw [hc]
    exact List.mem_append_left _ (List.mem_of_getLast? hlast)
  exact absurd (Utf8.not_ascii_of_mem_encode hlarge hmem) (by decide)

theorem isValid_of_content_header {line name : Bytes} (hmarker : Utf8.isValid d.marker = true)
    (hline : Utf8.isValid line = true) (h : d.content line = .header name) :
    Utf8.isValid name = true := by
  have hclass := classified_content d line
  rw [h] at hclass
  cases hclass with
  | header hheader =>
      have hvalid := (Dialect.isValid_contentText_iff hmarker hline).mpr
        (not_splits_of_isHeader hheader)
      rw [eq_of_isHeader hheader, Utf8.isValid_cons_of_ascii (by decide)] at hvalid
      exact ((Utf8.isValid_append_cons_of_ascii (by decide)).mp hvalid).1

theorem ascii_of_isKeyByte {b : UInt8} (h : Content.isKeyByte b = true) : b < 0x80 := by
  simp only [Content.isKeyByte, Bytes.isLetter, Bytes.isDigit, Bool.or_eq_true, Bool.and_eq_true,
    decide_eq_true_eq, UInt8.le_iff_toNat_le, ← UInt8.toNat_inj, UInt8.lt_iff_toNat_lt,
    UInt8.reduceToNat] at h ⊢
  omega

theorem isValid_of_content_entry {line key value : Bytes} (hmarker : Utf8.isValid d.marker = true)
    (hline : Utf8.isValid line = true) (h : d.content line = .entry key value) :
    Utf8.isValid key = true ∧ (Utf8.isValid value = true ↔ ¬ d.Splits line) := by
  have hclass := classified_content d line
  rw [h] at hclass
  cases hclass with
  | entry _ _ hkeyValue =>
      obtain ⟨hcontent, -, hkey⟩ := keyValue?_eq_some_iff.mp hkeyValue
      have hascii : ∀ b ∈ key, b < 0x80 := fun b hb => ascii_of_isKeyByte (hkey b hb)
      have hnil := Utf8.isValid_append_of_ascii hascii []
      rw [List.append_nil] at hnil
      have hvalue := Utf8.isValid_append_of_ascii hascii (0x3D :: value)
      rw [← hcontent, Utf8.isValid_cons_of_ascii (by decide)] at hvalue
      rw [← hvalue, hnil]
      exact ⟨(Utf8.isValid_iff _).mpr ⟨[], rfl⟩, Dialect.isValid_contentText_iff hmarker hline⟩

theorem isValid_of_mem_lines {text line : Bytes} (hvalid : Utf8.isValid text = true)
    (h : line ∈ lines text) : Utf8.isValid line = true := by
  have hchomp : ∀ line : Bytes, Utf8.isValid line = true → Utf8.isValid (chomp line) = true := by
    intro line hline
    obtain ⟨ending, heq, hending⟩ := exists_eq_chomp_append line
    rw [heq] at hline
    refine ((Utf8.isValid_append_iff ?_).mp hline).1
    rcases hending with rfl | rfl
    · simp
    · rintro b ⟨⟩
      rfl
  induction text using lineInduction with
  | last text hlf =>
      by_cases hne : text = []
      · rw [hne] at h
        cases h
      · rw [lines_of_notMem hlf hne, List.mem_singleton] at h
        exact h ▸ hchomp text hvalid
  | line front rest hlf ih =>
      obtain ⟨hfront, hrest⟩ := (Utf8.isValid_append_cons_of_ascii (by decide)).mp hvalid
      rw [lines_append_lf hlf] at h
      rcases List.mem_cons.mp h with rfl | hlater
      · exact hchomp front hfront
      · exact ih hrest hlater

/-- In well-formed text with a well-formed marker, the text in front of a comment loses exactly its
last character to an eager comment if that character is ASCII. Headers and keys are well-formed in
any case; a value is well-formed exactly if the line it was read from has no comment that splits a
character, as without eager comments no line has. -/
theorem wellFormed_ofText (d : Dialect) (hmarker : Utf8.isValid d.marker = true) {text : Bytes}
    (hvalid : Utf8.isValid text = true) :
    (d.eagerComments = true → ∀ line ∈ lines text, ∀ before,
      d.beforeComment? line = some before → before ≠ [] →
        ∃ front c, before = front ++ Utf8.encode c ∧ Utf8.isValid front = true ∧
          (d.contentText line = Bytes.trim front ↔ c.toNat < 0x80)) ∧
      ∀ s ∈ (ofText d text).sections, Utf8.isValid s.header = true ∧
        ∀ key value, (key, value) ∈ s.entries → Utf8.isValid key = true ∧
          ∃ line ∈ lines text, d.content line = .entry key value ∧
            (Utf8.isValid value = true ↔ ¬ d.Splits line) := by
  constructor
  · intro heager line hline before hbefore hne
    have hlineValid := isValid_of_mem_lines hvalid hline
    obtain ⟨front, c, rfl, hfront⟩ :=
      Dialect.exists_last_of_beforeComment? hmarker hlineValid hbefore hne
    refine ⟨front, c, rfl, hfront, ?_⟩
    constructor
    · intro hcontent
      have hnot := (Dialect.isValid_contentText_iff hmarker hlineValid).mp
        (hcontent ▸ Bytes.isValid_trim hfront)
      by_contra hlarge
      exact hnot ⟨heager, front, c, Nat.le_of_not_lt hlarge, hbefore⟩
    · intro hsmall
      apply Dialect.contentText_of_not_splits heager hbefore
      rintro ⟨-, front', e, hlarge, hbefore'⟩
      have hsame := Utf8.eq_of_append_encode (Option.some.inj (hbefore.symm.trans hbefore'))
      rw [hsame.2] at hsmall
      omega
  · intro s hs
    have hstems := stemsFrom_ofText d text s hs
    obtain ⟨line, hline, hheader⟩ := hstems.header
    refine ⟨isValid_of_content_header hmarker (isValid_of_mem_lines hvalid hline) hheader, ?_⟩
    intro key value hentry
    obtain ⟨line, hline, hcontent⟩ := hstems.entry key value hentry
    have hboth := isValid_of_content_entry hmarker (isValid_of_mem_lines hvalid hline) hcontent
    exact ⟨hboth.1, line, hline, hcontent, hboth.2⟩

/-- Two values in front of comments, of which one ends in a letter of two bytes. -/
theorem wellFormed_ofText_accented :
    let d : Dialect := { eagerComments := true }
    let text := utf8 "[A]\n\x7b\nX=tea//x\nY=café//x\n\x7d\n"
    (Utf8.isValid d.marker = true ∧ Utf8.isValid text = true) ∧
      ∀ s ∈ (ofText d text).sections, Utf8.isValid s.header = true ∧
        ∀ key value, (key, value) ∈ s.entries → Utf8.isValid key = true ∧
          ∃ line ∈ lines text, d.content line = .entry key value ∧
            (Utf8.isValid value = true ↔ ¬ d.Splits line) := by
  intro d text
  have hmarker : Utf8.isValid d.marker = true := by decide +kernel
  have hvalid : Utf8.isValid text = true := by decide +kernel
  exact ⟨⟨hmarker, hvalid⟩, (wellFormed_ofText d hmarker hvalid).2⟩

/-- A letter of two bytes in front of an eager comment loses the second one, and what is left of it
stays in the value. -/
theorem splits_accented :
    let d : Dialect := { eagerComments := true }
    let text := utf8 "[A]\n\x7b\nNAME=café//x\n\x7d\n"
    (Utf8.isValid d.marker = true ∧ Utf8.isValid text = true) ∧
      d.beforeComment? (utf8 "NAME=café//x") = some (utf8 "NAME=caf" ++ Utf8.encode 'é') ∧
      d.contentText (utf8 "NAME=café//x") ≠ Bytes.trim (utf8 "NAME=caf") ∧
      (ofText d text).sections =
        [{ header := utf8 "A", line := 0, entries := [(utf8 "NAME", utf8 "caf" ++ [0xC3])] }] ∧
      Utf8.isValid (utf8 "caf" ++ [0xC3]) = false := by
  decide +kernel

end Outline

end DefinitionFiles
