import DefinitionFiles.Proofs.Outline.Composition
import DefinitionFiles.Proofs.Text.Trimming
import Mathlib.Data.Bool.AllAny

/-!
# Comments

What stands behind a comment marker is not read: with another comment a line has the same content,
so that no more than the extent of what is said about the line can differ. A line that has nothing
in front of its comment is not read at all, and can be put between any two lines.

A line is trimmed before its marker is looked for. The marker survives this, because it is made of
whole characters and has no blank at its ends.
-/

namespace DefinitionFiles

/-- A comment marker that stands on one line and is not touched by trimming. -/
structure IsMarker (marker : Bytes) : Prop where
  ne_nil : marker ≠ []
  valid : Utf8.isValid marker = true
  lf_notMem : Bytes.lf ∉ marker
  not_blank_start : ∀ c ∈ blanks, ¬ Utf8.encode c <+: marker
  not_blank_end : ∀ c ∈ blanks, ¬ Utf8.encode c <:+ marker

namespace IsMarker

variable {marker : Bytes}

theorem exists_first (h : IsMarker marker) :
    ∃ c rest, c ∉ blanks ∧ marker = Utf8.encode c ++ rest := by
  obtain ⟨cs, rfl⟩ := (Utf8.isValid_iff marker).mp h.valid
  cases cs with
  | nil => exact absurd rfl h.ne_nil
  | cons c cs =>
      refine ⟨c, Utf8.ofChars cs, ?_, rfl⟩
      intro hc
      exact h.not_blank_start c hc (List.prefix_append _ _)

theorem exists_last (h : IsMarker marker) :
    ∃ front c, c ∉ blanks ∧ marker = front ++ Utf8.encode c := by
  obtain ⟨cs, rfl⟩ := (Utf8.isValid_iff marker).mp h.valid
  cases cs using List.reverseRecOn with
  | nil => exact absurd rfl h.ne_nil
  | append_singleton cs c =>
      have heq : Utf8.ofChars (cs ++ [c]) = Utf8.ofChars cs ++ Utf8.encode c := by
        rw [Utf8.ofChars_append, Utf8.ofChars_cons, Utf8.ofChars_nil, List.append_nil]
      refine ⟨Utf8.ofChars cs, c, ?_, heq⟩
      intro hc
      exact h.not_blank_end c hc (heq ▸ List.suffix_append _ _)

/-- The two sides of a marker are trimmed on their own. -/
theorem trim_append (h : IsMarker marker) (text comment : Bytes) :
    Bytes.trim (text ++ marker ++ comment) =
      Bytes.trimStart text ++ marker ++ Bytes.trimEnd comment := by
  have hstart : Bytes.trimStart (text ++ marker ++ comment) =
      Bytes.trimStart text ++ marker ++ comment := by
    obtain ⟨c, rest, hc, rfl⟩ := h.exists_first
    simpa using Bytes.trimStart_append_encode hc text (rest ++ comment)
  obtain ⟨front, c, hc, rfl⟩ := h.exists_last
  have hend := Bytes.trimEnd_append_encode hc (Bytes.trimStart text ++ front) comment
  rw [Bytes.trim, hstart]
  simpa using hend

end IsMarker

/-! ## The contents of lines with comments -/

namespace Dialect

variable {d : Dialect}

/-- The first marker stands where it stood without the comment, though it need not be the one that
the comment follows. -/
theorem stripComment_append (hne : d.marker ≠ []) (text comment : Bytes) :
    d.stripComment (text ++ d.marker ++ comment) = d.stripComment (text ++ d.marker) := by
  have hfound : Bytes.find? d.marker (text ++ d.marker) ≠ none := by
    rw [Ne, Bytes.find?_eq_none_iff, not_not]
    exact (List.suffix_append text d.marker).isInfix
  obtain ⟨offset, hoffset⟩ := Option.ne_none_iff_exists'.mp hfound
  have hbound := Bytes.add_length_le_of_find? hoffset
  rw [stripComment, stripComment, if_neg hne, if_neg hne, Bytes.find?_append hoffset, hoffset]
  simp only
  rw [List.take_append_of_le_length (by split <;> omega)]

theorem content_comment (h : IsMarker d.marker) (text comment comment' : Bytes) :
    d.content (text ++ d.marker ++ comment') = d.content (text ++ d.marker ++ comment) := by
  rw [content, content, h.trim_append, h.trim_append, stripComment_append h.ne_nil,
    stripComment_append h.ne_nil]

theorem content_chomp (line : Bytes) : d.content (chomp line) = d.content line := by
  have htrim : Bytes.trim (chomp line) = Bytes.trim line := by
    unfold chomp
    split
    next hlast =>
      obtain ⟨init, rfl⟩ := List.getLast?_eq_some_iff.mp hlast
      rw [List.dropLast_concat, Bytes.trim_append_cr]
    next => rfl
  rw [content, htrim, content]

/-- A line without text in front of its comment is blank. -/
theorem content_of_comment (hne : d.marker ≠ []) {line : Bytes}
    (h : Bytes.trim line = [] ∨ d.marker <+: Bytes.trim line) : d.content line = .blank := by
  apply content_of_nil
  rw [contentText, stripComment, if_neg hne]
  rcases h with hblank | ⟨comment, hcomment⟩
  · rw [hblank]
    simp [Bytes.find?, Bytes.findFrom, hne]
  · have hfind : Bytes.find? d.marker (Bytes.trim line) = some 0 := by
      rw [← hcomment]
      exact Bytes.find?_append_left d.marker comment
    rw [hfind]
    simp [Bytes.trim]

end Dialect

/-! ## Outlines with other comments -/

/-- A diagnostic with another extent, if it is about the line with the given index. -/
def Diagnostic.resize (index width : Nat) (x : Diagnostic) : Diagnostic :=
  if x.line = index then { x with endColumn := width } else x

theorem exists_lines_append {back : Bytes} (hback : back = [] ∨ back.head? = some Bytes.lf) :
    ∃ later, ∀ line, Bytes.lf ∉ line → line ≠ [] → lines (line ++ back) = chomp line :: later := by
  cases back with
  | nil =>
      refine ⟨[], ?_⟩
      intro line hlf hne
      rw [List.append_nil, lines_of_notMem hlf hne]
  | cons b rest =>
      obtain rfl : b = Bytes.lf := by simpa using hback
      exact ⟨lines rest, fun line hlf _ => lines_append_lf hlf rest⟩

/-- One more line of a text: between two of its lines or at its ends, where the last line may go
without a line feed. The line has the given index. -/
inductive Inserted (line : Bytes) : (index : Nat) → (text longer : Bytes) → Prop where
  | before {front : Bytes} (hfront : front = [] ∨ front.getLast? = some Bytes.lf) (back : Bytes) :
      Inserted line (front.count Bytes.lf) (front ++ back) (front ++ (line ++ Bytes.lf :: back))
  | last {text : Bytes} (htext : text = [] ∨ text.getLast? = some Bytes.lf) (hne : line ≠ []) :
      Inserted line (text.count Bytes.lf) text (text ++ line)
  | behind {text : Bytes} (htext : ¬ (text = [] ∨ text.getLast? = some Bytes.lf))
      (hne : line ≠ []) :
      Inserted line (text.count Bytes.lf + 1) text (text ++ Bytes.lf :: line)

theorem Inserted.exists_lines {line : Bytes} {index : Nat} {text longer : Bytes}
    (h : Inserted line index text longer) (hlf : Bytes.lf ∉ line) :
    ∃ before after, before.length = index ∧ lines text = before ++ after ∧
      lines longer = before ++ chomp line :: after := by
  cases h with
  | @before front hfront back =>
      refine ⟨lines front, lines back, length_lines_of_whole hfront, lines_append hfront back, ?_⟩
      rw [lines_append hfront, lines_append_lf hlf]
  | last htext hne =>
      refine ⟨lines text, [], length_lines_of_whole htext, by simp, ?_⟩
      rw [lines_append htext, lines_of_notMem hlf hne]
  | behind htext hne =>
      refine ⟨lines text, [], ?_, by simp, ?_⟩
      · rw [length_lines, if_neg htext]
      · -- The line feed ends the last line, which was there before.
        obtain ⟨front, last, rfl, hfront, hlast⟩ := exists_lastPiece text
        have hsome : last ≠ [] := by
          rintro rfl
          exact htext (by simpa using hfront)
        rw [List.append_assoc, lines_append hfront, lines_append hfront, lines_append_lf hlast,
          lines_of_notMem hlast hsome, lines_of_notMem hlf hne, List.append_assoc,
          List.singleton_append]

namespace Outline

open State

theorem corresponds_resize {i index : Nat} (h : i ≠ index) (d : Dialect) (line : Bytes)
    (width : Nat) :
    Corresponds d d id (Diagnostic.resize index width) (line, i) (line, i) := by
  refine ⟨rfl, rfl, ?_⟩
  intro header? severity text
  exact if_neg (mt Int.ofNat_inj.mp h)

/-- Another line with the same content changes no more than the extent of what is said about it. -/
theorem ofLines_resize {d : Dialect} {line line' : Bytes} (h : d.content line' = d.content line)
    (before after : List Bytes) :
    ofLines d (before ++ line' :: after) =
      (ofLines d (before ++ line :: after)).recast id
        (Diagnostic.resize before.length (Utf8.units line')) := by
  apply ofLines_recast
  · rw [List.zipIdx_append, List.zipIdx_append, List.zipIdx_cons, List.zipIdx_cons]
    apply List.rel_append
    · apply forall₂_zipIdx
      intro other i hi
      exact corresponds_resize (by omega) d other _
    · refine .cons ⟨rfl, h, ?_⟩ ?_
      · intro header? severity text
        simp [Diagnostic.resize, remark]
      · apply forall₂_zipIdx
        intro other i _
        exact corresponds_resize (by omega) d other _
  · intro header?
    exact if_neg (by simp [ending])

/-- A blank line between the others changes no more than the indices of those behind it. -/
theorem ofLines_insert {d : Dialect} {line : Bytes} (h : d.content line = .blank)
    (before after : List Bytes) :
    let place := fun i => if i < before.length then i else i + 1
    ofLines d (before ++ line :: after) =
      (ofLines d (before ++ after)).recast place (Diagnostic.renumber d.category place) := by
  intro place
  have hbefore : ∀ i < before.length, place (0 + i) = 0 + i := by
    intro i hi
    simp [place, hi]
  have hafter : ∀ i < after.length, place (before.length + i) = before.length + 1 + i := by
    intro i _
    rw [show place (before.length + i) = before.length + i + 1 from if_neg (by omega)]
    omega
  have hkept := run_renumber hbefore d {}
  rw [recast_start] at hkept
  rw [ofLines_eq_finish, ofLines_eq_finish, run_append, run_append, run_cons, step_of_blank h,
    Nat.zero_add, hkept, run_renumber hafter, finish_recast (renumber_ending d place), ← hkept]

theorem ofText_comment {d : Dialect} (hmarker : IsMarker d.marker)
    {front text comment comment' back : Bytes}
    (hfront : front = [] ∨ front.getLast? = some Bytes.lf)
    (hback : back = [] ∨ back.head? = some Bytes.lf) (htext : Bytes.lf ∉ text)
    (hcomment : Bytes.lf ∉ comment) (hcomment' : Bytes.lf ∉ comment') :
    ofText d (front ++ (text ++ d.marker ++ comment') ++ back) =
      (ofText d (front ++ (text ++ d.marker ++ comment) ++ back)).recast id
        (Diagnostic.resize (front.count Bytes.lf)
          (Utf8.units (chomp (text ++ d.marker ++ comment')))) := by
  obtain ⟨later, hlater⟩ := exists_lines_append hback
  have hlines : ∀ other, Bytes.lf ∉ other →
      ofText d (front ++ (text ++ d.marker ++ other) ++ back) =
        ofLines d (lines front ++ chomp (text ++ d.marker ++ other) :: later) := by
    intro other hother
    rw [ofText_eq_ofLines, List.append_assoc, lines_append hfront,
      hlater _ (by simp [htext, hmarker.lf_notMem, hother]) (by simp [hmarker.ne_nil])]
  have hcontent : d.content (chomp (text ++ d.marker ++ comment')) =
      d.content (chomp (text ++ d.marker ++ comment)) := by
    rw [Dialect.content_chomp, Dialect.content_chomp, Dialect.content_comment hmarker]
  rw [hlines _ hcomment, hlines _ hcomment', ← length_lines_of_whole hfront]
  exact ofLines_resize hcontent (lines front) later

theorem ofText_inserted {d : Dialect} (hne : d.marker ≠ []) {line : Bytes} {index : Nat}
    {text longer : Bytes} (hline : Bytes.trim line = [] ∨ d.marker <+: Bytes.trim line)
    (hlf : Bytes.lf ∉ line) (hinserted : Inserted line index text longer) :
    let place := fun i => if i < index then i else i + 1
    ofText d longer =
      (ofText d text).recast place (Diagnostic.renumber d.category place) := by
  obtain ⟨before, after, rfl, hold, hnew⟩ := hinserted.exists_lines hlf
  have hblank : d.content (chomp line) = .blank := by
    rw [Dialect.content_chomp, Dialect.content_of_comment hne hline]
  rw [ofText_eq_ofLines, ofText_eq_ofLines, hold, hnew]
  exact ofLines_insert hblank before after

/-- Comments are inert. A comment can be replaced by any other one on its line, and a line without
text in front of its comment can be put anywhere between the lines of a text. -/
theorem comments_ofText (d : Dialect) (hmarker : IsMarker d.marker) :
    (∀ front text comment comment' back : Bytes,
      (front = [] ∨ front.getLast? = some Bytes.lf) → (back = [] ∨ back.head? = some Bytes.lf) →
      Bytes.lf ∉ text → Bytes.lf ∉ comment → Bytes.lf ∉ comment' →
      let old := ofText d (front ++ (text ++ d.marker ++ comment) ++ back)
      let new := ofText d (front ++ (text ++ d.marker ++ comment') ++ back)
      new.sections = old.sections ∧
        new.diagnostics = old.diagnostics.map (Diagnostic.resize (front.count Bytes.lf)
          (Utf8.units (chomp (text ++ d.marker ++ comment'))))) ∧
    ∀ (line : Bytes) (index : Nat) (text longer : Bytes),
      (Bytes.trim line = [] ∨ d.marker <+: Bytes.trim line) → Bytes.lf ∉ line →
      Inserted line index text longer →
      let place := fun i => if i < index then i else i + 1
      (ofText d longer).sections = (ofText d text).sections.map (Section.renumber place) ∧
        (ofText d longer).diagnostics =
          (ofText d text).diagnostics.map (Diagnostic.renumber d.category place) := by
  constructor
  · intro front text comment comment' back hfront hback htext hcomment hcomment' old new
    have hnew : new = old.recast id _ :=
      ofText_comment hmarker hfront hback htext hcomment hcomment'
    rw [hnew]
    exact ⟨List.map_id _, rfl⟩
  · intro line index text longer hline hlf hinserted place
    rw [ofText_inserted hmarker.ne_nil hline hlf hinserted]
    exact ⟨rfl, rfl⟩

theorem isMarker_slashes : IsMarker (utf8 "//") where
  ne_nil := by decide
  valid := by decide +kernel
  lf_notMem := by decide
  not_blank_start := List.all_iff_forall_prop.mp (by decide +kernel)
  not_blank_end := List.all_iff_forall_prop.mp (by decide +kernel)

/-- A comment with a brace against one with a stray byte and a carriage return, and a comment on a
line of its own in front of the last line. -/
theorem comments_ofText_eager :
    let d : Dialect := { eagerComments := true }
    (ofText d (utf8 "[A]\n" ++ (utf8 "? " ++ utf8 "//" ++ [0xFF, Bytes.cr]) ++ [])).diagnostics =
        [⟨1, 0, 5, .error, utf8 "Line 2: content outside of a block (in [A])", utf8 "uox3dfn"⟩] ∧
      (ofText d (utf8 "[A]\n" ++ (utf8 " //\x7d" ++ Bytes.lf :: utf8 "? "))).diagnostics =
        [⟨2, 0, 2, .error, utf8 "Line 3: content outside of a block (in [A])",
          utf8 "uox3dfn"⟩] := by
  intro d
  have hinert := comments_ofText d isMarker_slashes
  constructor
  · rw [(hinert.1 (utf8 "[A]\n") (utf8 "? ") (utf8 "\x7b") [0xFF, Bytes.cr] [] (by decide)
      (by decide) (by decide) (by decide) (by decide)).2]
    decide +kernel
  · rw [(hinert.2 (utf8 " //\x7d") _ _ _ (by decide +kernel) (by decide)
      (.before (by decide) (utf8 "? "))).2]
    decide +kernel

end Outline

end DefinitionFiles
