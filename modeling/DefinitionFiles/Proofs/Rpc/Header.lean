import DefinitionFiles.Proofs.Numeral.Sign
import DefinitionFiles.Proofs.Rpc.Frame
import DefinitionFiles.Proofs.Text.LetterCase
import DefinitionFiles.Proofs.Text.Trimming

/-!
# Headers line by line

A frame can be read exactly if its stream starts with lines of which the first blank one has only lines
with a colon in front of it, if the values of all length headers among these are lengths, and if the
last one is positive and has as many bytes behind the blank line. The other lines have no influence.
-/

namespace DefinitionFiles.Rpc.Frame

/-- The text of the body length, if a header line gives one: the value behind the name `Content-Length`,
which may have any letter case. -/
def lengthText? (line : Bytes) : Option Bytes :=
  (Bytes.cut? 0x3A line).bind fun (name, value) =>
    if (Bytes.trim name).map Bytes.lowerByte = utf8 "content-length" then some (Bytes.trim value)
    else none

/-- Whether a text is a body length: a decimal numeral, with or without a sign, of a machine integer
that is not negative. -/
def IsLength (length : Nat) (text : Bytes) : Prop :=
  Numeral.Signed Numeral.Decimal length text ∧ length < 2 ^ 63

/-- Whether a line can stand in a header. -/
structure IsField (line : Bytes) : Prop where
  lf_notMem : Bytes.lf ∉ line
  trim_ne_nil : Bytes.trim line ≠ []
  colon_mem : 0x3A ∈ line

instance (line : Bytes) : Decidable (IsField line) :=
  decidable_of_iff (Bytes.lf ∉ line ∧ Bytes.trim line ≠ [] ∧ 0x3A ∈ line)
    ⟨fun ⟨hlf, htrim, hcolon⟩ => ⟨hlf, htrim, hcolon⟩,
      fun ⟨hlf, htrim, hcolon⟩ => ⟨hlf, htrim, hcolon⟩⟩

/-- Whether a line ends a header. -/
structure IsBlank (line : Bytes) : Prop where
  lf_notMem : Bytes.lf ∉ line
  trim_eq_nil : Bytes.trim line = []

instance (line : Bytes) : Decidable (IsBlank line) :=
  decidable_of_iff (Bytes.lf ∉ line ∧ Bytes.trim line = [])
    ⟨fun ⟨hlf, htrim⟩ => ⟨hlf, htrim⟩, fun ⟨hlf, htrim⟩ => ⟨hlf, htrim⟩⟩

/-- The bytes of header lines and the blank line behind them. -/
def headerBytes (lines : List Bytes) (blank : Bytes) : Bytes :=
  lines.flatMap (· ++ [Bytes.lf]) ++ (blank ++ [Bytes.lf])

/-- Whether header lines and a blank one announce a body of the given length. -/
structure Announces (lines : List Bytes) (blank : Bytes) (length : Nat) : Prop where
  isField : ∀ line ∈ lines, IsField line
  isBlank : IsBlank blank
  isLength : ∀ text ∈ lines.filterMap lengthText?, ∃ n, IsLength n text
  last : ∃ text, (lines.filterMap lengthText?).getLast? = some text ∧ IsLength length text
  length_pos : 0 < length

/-- Whether bytes start with a frame: a header that announces `length` bytes, and at least that many
bytes in `more`, which follows the header. -/
def Framed (length : Nat) (more bytes : Bytes) : Prop :=
  ∃ lines blank, Announces lines blank length ∧ length ≤ more.length ∧
    bytes = headerBytes lines blank ++ more

/-! ## One line -/

theorem sameFolded_contentLength (name : Bytes) :
    sameFolded name (utf8 "Content-Length") = true ↔
      name.map Bytes.lowerByte = utf8 "content-length" := by
  have hletters : ∀ b ∈ (utf8 "Content-Length").map Bytes.lowerByte,
      b < 0x80 ∧ b ≠ 0x6B ∧ b ≠ 0x73 := by
    decide +kernel
  have hlower : (utf8 "Content-Length").map Bytes.lowerByte = utf8 "content-length" := by
    decide +kernel
  rw [sameFolded_iff hletters, hlower]

theorem cut?_trim {line name value : Bytes} (h : Bytes.cut? 0x3A line = some (name, value)) :
    Bytes.cut? 0x3A (Bytes.trim line) = some (Bytes.trimStart name, Bytes.trimEnd value) := by
  obtain ⟨rfl, hname⟩ := Bytes.cut?_eq_some_iff.mp h
  refine Bytes.cut?_eq_some_iff.mpr ⟨Bytes.trim_append_cons rfl name value, ?_⟩
  exact fun hcolon => hname (Bytes.mem_of_mem_trimStart hcolon)

theorem exists_cut? {line : Bytes} (h : 0x3A ∈ line) :
    ∃ name value, Bytes.cut? 0x3A line = some (name, value) := by
  cases hcut : Bytes.cut? 0x3A line with
  | none => exact absurd h (Bytes.cut?_eq_none_iff.mp hcut)
  | some parts => exact ⟨parts.1, parts.2, rfl⟩

theorem lengthText?_of_cut? {line name value : Bytes} (h : Bytes.cut? 0x3A line = some (name, value)) :
    lengthText? line = if (Bytes.trim name).map Bytes.lowerByte = utf8 "content-length"
      then some (Bytes.trim value) else none := by
  rw [lengthText?, h, Option.bind_some]

/-- A line that gives no length leaves the one known before it. -/
theorem headerLine_of_none {line : Bytes} (h : 0x3A ∈ line) (hnone : lengthText? line = none)
    (length : Nat) : headerLine length (Bytes.trim line) = .ok length := by
  obtain ⟨name, value, hcut⟩ := exists_cut? h
  have hname : ¬ (Bytes.trim name).map Bytes.lowerByte = utf8 "content-length" := by
    simpa [lengthText?_of_cut? hcut] using hnone
  rw [headerLine, cut?_trim hcut]
  simp [sameFolded_contentLength, Bytes.trim_trimStart, hname]

/-- Where a line gives a length, exactly the texts of lengths are read. -/
theorem headerLine_of_some {line text : Bytes} (hsome : lengthText? line = some text)
    (length next : Nat) : headerLine length (Bytes.trim line) = .ok next ↔ IsLength next text := by
  have hcolon : 0x3A ∈ line := by
    by_contra hnot
    simp [lengthText?, Bytes.cut?_eq_none_iff.mpr hnot] at hsome
  obtain ⟨name, value, hcut⟩ := exists_cut? hcolon
  obtain ⟨hname, rfl⟩ : (Bytes.trim name).map Bytes.lowerByte = utf8 "content-length" ∧
      Bytes.trim value = text := by
    simpa [lengthText?_of_cut? hcut] using hsome
  have hlength : IsLength next (Bytes.trim value) ↔
      ∃ n, Numeral.decimalInteger (Bytes.trim value) = .ok n ∧ ¬ n < 0 ∧ n.toNat = next := by
    simp only [Numeral.decimalInteger_eq_ok_iff]
    constructor
    · rintro ⟨hsigned, hrange⟩
      exact ⟨next, ⟨hsigned, by omega, by omega⟩, by omega, Int.toNat_natCast next⟩
    · rintro ⟨n, ⟨hsigned, -, hrange⟩, hpos, rfl⟩
      obtain ⟨m, rfl⟩ := Int.eq_ofNat_of_zero_le (Int.not_lt.mp hpos)
      exact ⟨hsigned, by omega⟩
  rw [headerLine, cut?_trim hcut, hlength]
  simp only [sameFolded_contentLength, Bytes.trim_trimStart, Bytes.trim_trimEnd, hname, if_true]
  cases Numeral.decimalInteger (Bytes.trim value) with
  | error cause => simp
  | ok n =>
      by_cases hneg : n < 0
      · simp [hneg]
      · simp [hneg, Int.not_lt.mp hneg]

theorem colon_mem_of_headerLine {line : Bytes} {length next : Nat}
    (h : headerLine length (Bytes.trim line) = .ok next) : 0x3A ∈ line := by
  by_contra hnot
  have hcut : Bytes.cut? 0x3A (Bytes.trim line) = none :=
    Bytes.cut?_eq_none_iff.mpr fun hmem => hnot (Bytes.mem_of_mem_trim hmem)
  simp [headerLine, hcut] at h

/-! ## Header lines -/

/-- Whether the texts of length headers take the length known before them to the one known behind
them: all of them are lengths, and the last one counts. -/
def Sets (before : Nat) (texts : List Bytes) (after : Nat) : Prop :=
  (∀ text ∈ texts, ∃ n, IsLength n text) ∧
    match texts.getLast? with
    | none => after = before
    | some text => IsLength after text

theorem sets_nil_iff {before after : Nat} : Sets before [] after ↔ after = before := by
  simp [Sets]

theorem sets_concat_iff {before after : Nat} {front : List Bytes} {last : Bytes} :
    Sets before (front ++ [last]) after ↔
      (∀ text ∈ front, ∃ n, IsLength n text) ∧ IsLength after last := by
  simp only [Sets, List.getLast?_concat, List.forall_mem_append, List.forall_mem_singleton]
  constructor
  · rintro ⟨⟨hfront, -⟩, hlast⟩
    exact ⟨hfront, hlast⟩
  · rintro ⟨hfront, hlast⟩
    exact ⟨⟨hfront, after, hlast⟩, hlast⟩

theorem sets_cons_iff {before after : Nat} {text : Bytes} {texts : List Bytes} :
    Sets before (text :: texts) after ↔ ∃ next, IsLength next text ∧ Sets next texts after := by
  rcases List.eq_nil_or_concat texts with rfl | ⟨front, last, rfl⟩
  · rw [← List.nil_append [text], sets_concat_iff]
    simp [sets_nil_iff]
  · rw [List.concat_eq_append, ← List.cons_append, sets_concat_iff, List.forall_mem_cons]
    simp only [sets_concat_iff, exists_and_right, and_assoc]

theorem headerBytes_cons (line : Bytes) (lines : List Bytes) (blank : Bytes) :
    headerBytes (line :: lines) blank = line ++ Bytes.lf :: headerBytes lines blank := by
  simp [headerBytes]

theorem headerLines_iff {before after : Nat} {bytes : Bytes} :
    HeaderLines before bytes after ↔
      ∃ lines blank, bytes = headerBytes lines blank ∧ (∀ line ∈ lines, IsField line) ∧
        IsBlank blank ∧ Sets before (lines.filterMap lengthText?) after := by
  constructor
  · intro h
    induction h with
    | @blank length line hline hblank =>
        exact ⟨[], line, rfl, by simp, ⟨hline, hblank⟩, sets_nil_iff.mpr rfl⟩
    | @field length next n line lines hline hfield hnext hlines ih =>
        obtain ⟨rest, blank, rfl, hrest, hblank, hsets⟩ := ih
        have hcolon := colon_mem_of_headerLine hnext
        refine ⟨line :: rest, blank, (headerBytes_cons line rest blank).symm,
          List.forall_mem_cons.mpr ⟨⟨hline, hfield, hcolon⟩, hrest⟩, hblank, ?_⟩
        cases htext : lengthText? line with
        | none =>
            cases (headerLine_of_none hcolon htext length).symm.trans hnext
            rwa [List.filterMap_cons_none htext]
        | some text =>
            rw [List.filterMap_cons_some htext, sets_cons_iff]
            exact ⟨next, (headerLine_of_some htext length next).mp hnext, hsets⟩
  · rintro ⟨lines, blank, rfl, hlines, hblank, hsets⟩
    induction lines generalizing before with
    | nil =>
        cases sets_nil_iff.mp hsets
        exact .blank hblank.lf_notMem hblank.trim_eq_nil
    | cons line rest ih =>
        obtain ⟨hline, hrest⟩ := List.forall_mem_cons.mp hlines
        rw [headerBytes_cons]
        cases htext : lengthText? line with
        | none =>
            rw [List.filterMap_cons_none htext] at hsets
            exact .field hline.lf_notMem hline.trim_ne_nil
              (headerLine_of_none hline.colon_mem htext before) (ih hrest hsets)
        | some text =>
            rw [List.filterMap_cons_some htext] at hsets
            obtain ⟨next, hnext, hsets⟩ := sets_cons_iff.mp hsets
            exact .field hline.lf_notMem hline.trim_ne_nil
              ((headerLine_of_some htext before next).mpr hnext) (ih hrest hsets)

theorem announces_iff {lines : List Bytes} {blank : Bytes} {length : Nat} :
    Announces lines blank length ↔ (∀ line ∈ lines, IsField line) ∧ IsBlank blank ∧
      Sets 0 (lines.filterMap lengthText?) length ∧ length ≠ 0 := by
  constructor
  · rintro ⟨hlines, hblank, hlengths, ⟨text, hlast, hlength⟩, hpos⟩
    exact ⟨hlines, hblank, ⟨hlengths, by rwa [hlast]⟩, Nat.pos_iff_ne_zero.mp hpos⟩
  · rintro ⟨hlines, hblank, ⟨hlengths, hsets⟩, hpos⟩
    cases hlast : (lines.filterMap lengthText?).getLast? with
    | none => exact absurd (by rwa [hlast] at hsets) hpos
    | some text =>
        rw [hlast] at hsets
        exact ⟨hlines, hblank, hlengths, ⟨text, hlast, hsets⟩, Nat.pos_of_ne_zero hpos⟩

/-- A frame is read exactly if the bytes start with one, and its body alone is taken off them. -/
theorem read_eq_ok_iff_framed {source rest : Source} {content : Bytes} :
    read source = .ok (content, rest) ↔ ∃ length more, Framed length more source.bytes ∧
      content = more.take length ∧ rest = { source with bytes := more.drop length } := by
  rw [read_eq_ok_iff]
  constructor
  · rintro ⟨header, hheader, hcontent, rfl⟩
    obtain ⟨lines, blank, rfl, hlines, hblank, hsets⟩ := headerLines_iff.mp hheader
    have hlength : content.length ≠ 0 := mt List.length_eq_zero_iff.mp hcontent
    refine ⟨content.length, content ++ rest.bytes, ⟨lines, blank, ?_, ?_, ?_⟩, ?_, ?_⟩
    · exact announces_iff.mpr ⟨hlines, hblank, hsets, hlength⟩
    · simp
    · rw [List.append_assoc]
    · rw [List.take_left]
    · rw [List.drop_left]
  · rintro ⟨length, more, ⟨lines, blank, hannounces, henough, hbytes⟩, rfl, rfl⟩
    obtain ⟨hlines, hblank, hsets, hpos⟩ := announces_iff.mp hannounces
    have hlength : (more.take length).length = length := List.length_take_of_le henough
    refine ⟨headerBytes lines blank, ?_, ?_, ?_⟩
    · rw [hlength]
      exact headerLines_iff.mpr ⟨lines, blank, rfl, hlines, hblank, hsets⟩
    · exact mt (fun hnil => by rw [← hlength, hnil, List.length_nil]) hpos
    · rw [List.append_assoc, List.take_append_drop, ← hbytes]

/-! ## Other header lines -/

/-- Whether a header line gives a body length. -/
def isLengthLine (line : Bytes) : Bool :=
  (lengthText? line).isSome

/-- A header is read line by line, whatever becomes of its lines. -/
theorem header_headerBytes {lines : List Bytes} {blank : Bytes}
    (hlines : ∀ line ∈ lines, IsField line) (hblank : IsBlank blank) (failure? : Option Bytes)
    (length : Nat) (fresh : Bool) (more : Bytes) :
    header failure? length fresh (headerBytes lines blank ++ more) =
      (lines.foldlM (fun length line => headerLine length (Bytes.trim line)) length).map (·, more) := by
  induction lines generalizing length fresh with
  | nil =>
      rw [headerBytes, List.flatMap_nil, List.nil_append, List.append_assoc, List.singleton_append,
        header_append_lf hblank.lf_notMem, if_pos hblank.trim_eq_nil]
      rfl
  | cons line rest ih =>
      obtain ⟨hline, hrest⟩ := List.forall_mem_cons.mp hlines
      rw [headerBytes_cons, List.append_assoc, List.cons_append, header_append_lf hline.lf_notMem,
        if_neg hline.trim_ne_nil, List.foldlM_cons]
      cases headerLine length (Bytes.trim line) with
      | error e => rfl
      | ok next => exact ih hrest next false

theorem foldlM_filter_isLengthLine {lines : List Bytes} (hlines : ∀ line ∈ lines, IsField line)
    (length : Nat) :
    (lines.filter isLengthLine).foldlM
        (fun length line => headerLine length (Bytes.trim line)) length =
      lines.foldlM (fun length line => headerLine length (Bytes.trim line)) length := by
  induction lines generalizing length with
  | nil => rfl
  | cons line rest ih =>
      obtain ⟨hline, hrest⟩ := List.forall_mem_cons.mp hlines
      cases htext : lengthText? line with
      | none =>
          rw [List.filter_cons_of_neg (by simp [isLengthLine, htext]), List.foldlM_cons,
            headerLine_of_none hline.colon_mem htext, ih hrest]
          rfl
      | some text =>
          rw [List.filter_cons_of_pos (by simp [isLengthLine, htext]), List.foldlM_cons,
            List.foldlM_cons]
          cases headerLine length (Bytes.trim line) with
          | error e => rfl
          | ok next => exact ih hrest next

/-- Headers with the same length lines are read alike, also where they cannot be read. -/
theorem read_headerBytes_congr {lines others : List Bytes} {blank otherBlank : Bytes}
    (hlines : ∀ line ∈ lines, IsField line) (hothers : ∀ line ∈ others, IsField line)
    (hblank : IsBlank blank) (hotherBlank : IsBlank otherBlank)
    (hsame : lines.filter isLengthLine = others.filter isLengthLine) (more : Bytes)
    (failure? : Option Bytes) :
    read ⟨headerBytes lines blank ++ more, failure?⟩ =
      read ⟨headerBytes others otherBlank ++ more, failure?⟩ := by
  have hheader : header failure? 0 true (headerBytes lines blank ++ more) =
      header failure? 0 true (headerBytes others otherBlank ++ more) := by
    rw [header_headerBytes hlines hblank, header_headerBytes hothers hotherBlank,
      ← foldlM_filter_isLengthLine hlines, hsame, foldlM_filter_isLengthLine hothers]
  unfold read
  simp only [hheader]

/-- A frame is read exactly if the bytes start with one; then its body is what it gives, and the next
read starts behind it. Otherwise there is an error. Only the lines with lengths matter. -/
theorem read_accepts (source : Source) :
    (∀ content rest, read source = .ok (content, rest) ↔
      ∃ length more, Framed length more source.bytes ∧ content = more.take length ∧
        rest = { source with bytes := more.drop length }) ∧
    ((∃ e, read source = .error e) ↔ ¬ ∃ length more, Framed length more source.bytes) ∧
    ∀ lines others blank otherBlank more, (∀ line ∈ lines, IsField line) →
      (∀ line ∈ others, IsField line) → IsBlank blank → IsBlank otherBlank →
      lines.filter isLengthLine = others.filter isLengthLine →
      source.bytes = headerBytes lines blank ++ more →
      read { source with bytes := headerBytes others otherBlank ++ more } = read source := by
  refine ⟨fun content rest => read_eq_ok_iff_framed, ?_, ?_⟩
  · constructor
    · rintro ⟨e, herror⟩ ⟨length, more, hframed⟩
      cases herror.symm.trans (read_eq_ok_iff_framed.mpr ⟨length, more, hframed, rfl, rfl⟩)
    · intro hnone
      cases hread : read source with
      | error e => exact ⟨e, rfl⟩
      | ok result =>
          obtain ⟨length, more, hframed, -⟩ := read_eq_ok_iff_framed.mp hread
          exact absurd ⟨length, more, hframed⟩ hnone
  · intro lines others blank otherBlank more hlines hothers hblank hotherBlank hsame hbytes
    obtain ⟨bytes, failure?⟩ := source
    cases hbytes
    exact read_headerBytes_congr hothers hlines hotherBlank hblank hsame.symm more failure?

/-- The last of two lengths counts, and lines with other names can be left out. -/
theorem read_accepts_last_length :
    let host := utf8 "Host: here"
    let first := utf8 "content-length:007"
    let last := utf8 " CONTENT-LENGTH : +3\r"
    let source : Source := ⟨headerBytes [first, host, last] (utf8 "\r") ++ utf8 "abcdef", none⟩
    read source = .ok (utf8 "abc", ⟨utf8 "def", none⟩) ∧
      read ⟨headerBytes [first, last] [] ++ utf8 "abcdef", none⟩ = read source := by
  intro host first last source
  have hfields : ∀ line ∈ [host, first, last], IsField line := by
    decide +kernel
  have hfield : IsField host ∧ IsField first ∧ IsField last := by simpa using hfields
  have hfirst : lengthText? first = some (utf8 "007") := by decide +kernel
  have hhost : lengthText? host = none := by decide +kernel
  have hlast : lengthText? last = some (utf8 "+3") := by decide +kernel
  have hseven : IsLength 7 (utf8 "007") :=
    ⟨.plain ⟨by decide, by decide +kernel, by decide⟩, by decide⟩
  have hdigit : Numeral.Decimal 3 (utf8 "3") := ⟨by decide, by decide +kernel, by decide⟩
  have hthree : IsLength 3 (utf8 "+3") := ⟨.plus hdigit, by decide⟩
  have hannounces : Announces [first, host, last] (utf8 "\r") 3 := by
    refine ⟨?_, by decide +kernel, ?_, ?_, by decide⟩
    · simpa using ⟨hfield.2.1, hfield.1, hfield.2.2⟩
    · simpa [hfirst, hhost, hlast] using ⟨⟨7, hseven⟩, ⟨3, hthree⟩⟩
    · exact ⟨utf8 "+3", by simp [hfirst, hhost, hlast], hthree⟩
  obtain ⟨hread, -, hothers⟩ := read_accepts source
  constructor
  · refine (hread _ _).mpr ⟨3, utf8 "abcdef", ⟨_, _, hannounces, by decide, rfl⟩, by decide, ?_⟩
    decide +kernel
  · refine hothers _ _ _ _ _ hannounces.isField ?_ hannounces.isBlank (by decide +kernel) ?_ rfl
    · simpa using hfield.2
    · simp [isLengthLine, hfirst, hhost, hlast]

end DefinitionFiles.Rpc.Frame
