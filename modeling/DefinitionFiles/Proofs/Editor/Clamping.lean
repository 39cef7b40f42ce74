import DefinitionFiles.Proofs.Editor.LineEndings
import DefinitionFiles.Proofs.Editor.Synchronisation
import Mathlib.Order.Basic

/-!
# Positions outside of a text

A position may have any line and any column. It is moved to a place of the text, the later the
position the later the place, so that the part between two positions can be cut out of the text
unless the second one comes before the first. In well-formed text the place lies between two
characters, even if the position is inside of one.
-/

namespace DefinitionFiles

/-! ## Places of a text -/

theorem isPlace_append {front rest : Bytes} (hboundary : ∀ b ∈ rest.head?, Utf8.isTail b = false)
    (hterminator : ¬ (front.getLast? = some Bytes.cr ∧ rest.head? = some Bytes.lf)) :
    IsPlace (front ++ rest) front.length where
  le := by simp
  boundary := by rwa [Utf8.getElem?_length_append]
  terminator := by rwa [Utf8.getElem?_length_append, List.take_left]

/-- Behind a line the places are those of what follows the line. -/
theorem IsPlace.append_lf {rest : Bytes} {place : Nat} (h : IsPlace rest place) (line : Bytes) :
    IsPlace (line ++ Bytes.lf :: rest) (line.length + 1 + place) := by
  have hget : (line ++ Bytes.lf :: rest)[line.length + 1 + place]? = rest[place]? := by
    rw [List.getElem?_append_right (by omega)]
    simp [show line.length + 1 + place - line.length = place + 1 by omega]
  have htake : (line ++ Bytes.lf :: rest).take (line.length + 1 + place) =
      line ++ Bytes.lf :: rest.take place := by
    rw [Nat.add_assoc, List.take_length_add_append, Nat.add_comm 1 place, List.take_succ_cons]
  refine ⟨?_, ?_, ?_⟩
  · have hle := h.le
    rw [List.length_append, List.length_cons]
    omega
  · rw [hget]
    exact h.boundary
  · rw [hget, htake]
    rintro ⟨hlast, hhead⟩
    have hne : Bytes.lf ≠ Bytes.cr := by decide
    rcases List.eq_nil_or_concat (rest.take place) with hnil | ⟨init, last, hconcat⟩
    · rw [hnil, List.getLast?_concat] at hlast
      exact hne (Option.some.inj hlast)
    · apply h.terminator
      refine ⟨?_, hhead⟩
      rw [hconcat] at hlast ⊢
      simpa [List.getLast?_append, List.getLast?_cons] using hlast

namespace Position

/-! ## Order -/

/-- Positions are ordered by line, and on one line by column. -/
instance : Preorder Position where
  le p q := p.line < q.line ∨ p.line = q.line ∧ p.character ≤ q.character
  lt p q := p.line < q.line ∨ p.line = q.line ∧ p.character < q.character
  le_refl _ := .inr ⟨rfl, le_rfl⟩
  le_trans _ _ _ _ _ := by omega
  lt_iff_le_not_ge _ _ := by omega

theorem le_iff {p q : Position} :
    p ≤ q ↔ p.line < q.line ∨ p.line = q.line ∧ p.character ≤ q.character :=
  Iff.rfl

theorem lt_iff {p q : Position} :
    p < q ↔ p.line < q.line ∨ p.line = q.line ∧ p.character < q.character :=
  Iff.rfl

theorem lt_of_not_le {p q : Position} (h : ¬ p ≤ q) : q < p := by
  rw [le_iff] at h
  rw [lt_iff]
  omega

/-! ## Columns -/

theorem dropUnits_cons {units : Int} (h : 0 < units) (b : UInt8) (rest : Bytes) :
    dropUnits units (b :: rest) =
      dropUnits (units - utf16Width (Utf8.read b rest).1.shown) (Utf8.read b rest).2 := by
  rw [dropUnits, if_neg (by omega)]

theorem dropUnits_suffix (units : Int) (line : Bytes) : dropUnits units line <:+ line := by
  induction line using Utf8.glyphInduction generalizing units with
  | nil => rw [dropUnits]
  | glyph b rest ih =>
      by_cases hunits : units ≤ 0
      · rw [dropUnits_of_nonpos hunits]
      · rw [dropUnits_cons (by omega)]
        exact (ih _).trans ⟨_, Utf8.bytes_read b rest⟩

/-- A later column leaves less of its line. -/
theorem length_dropUnits_le {units more : Int} (h : units ≤ more) (line : Bytes) :
    (dropUnits more line).length ≤ (dropUnits units line).length := by
  induction line using Utf8.glyphInduction generalizing units more with
  | nil => rw [dropUnits, dropUnits]
  | glyph b rest ih =>
      by_cases hunits : units ≤ 0
      · rw [dropUnits_of_nonpos hunits]
        exact (dropUnits_suffix more _).length_le
      · rw [dropUnits_cons (by omega), dropUnits_cons (by omega)]
        exact ih (by omega)

/-- Whole characters are dropped, whatever the column is. -/
theorem exists_dropUnits_ofChars (units : Int) (cs : List Char) :
    ∃ before after, cs = before ++ after ∧
      dropUnits units (Utf8.ofChars cs) = Utf8.ofChars after := by
  induction cs generalizing units with
  | nil => exact ⟨[], [], rfl, by rw [Utf8.ofChars_nil, dropUnits]⟩
  | cons c cs ih =>
      by_cases hunits : units ≤ 0
      · exact ⟨[], c :: cs, rfl, dropUnits_of_nonpos hunits _⟩
      · obtain ⟨before, after, rfl, hdrop⟩ := ih (units - utf16Width c)
        refine ⟨c :: before, after, rfl, ?_⟩
        rw [Utf8.ofChars_cons, dropUnits_encode_append (by omega), hdrop]

/-! ## Offsets -/

/-- What stands behind the front line of a text begins with the terminator of that line. -/
theorem exists_terminator (text : Bytes) :
    ∃ behind, text = frontLine text ++ behind ∧ (∀ b ∈ behind.head?, Utf8.isTail b = false) ∧
      ¬ ((frontLine text).getLast? = some Bytes.cr ∧ behind.head? = some Bytes.lf) := by
  cases text using lineInduction with
  | last text hlf =>
      refine ⟨[], ?_, by simp, by simp⟩
      rw [frontLine_of_notMem hlf, List.append_nil]
  | line line rest hlf _ =>
      rw [frontLine_append_lf hlf]
      unfold chomp
      split
      next hlast =>
        obtain ⟨init, rfl⟩ := List.getLast?_eq_some_iff.mp hlast
        refine ⟨Bytes.cr :: Bytes.lf :: rest, by simp, ?_, ?_⟩
        · rintro b ⟨⟩
          rfl
        · rintro ⟨-, ⟨⟩⟩
      next hlast =>
        refine ⟨Bytes.lf :: rest, rfl, ?_, fun h => hlast h.1⟩
        rintro b ⟨⟩
        rfl

theorem length_frontLine_le (text : Bytes) : (frontLine text).length ≤ text.length := by
  obtain ⟨-, behind, htext⟩ := exists_eq_frontLine_append text
  have hlength := congrArg List.length htext
  rw [List.length_append] at hlength
  omega

theorem offset_le_length (text : Bytes) (p : Position) : p.offset text ≤ text.length := by
  unfold offset
  split
  next => exact Nat.zero_le _
  next =>
    split
    next => exact Nat.le_refl _
    next rest hdrop =>
      have hrest := length_of_dropLines? hdrop
      have hline := length_frontLine_le rest
      simp only
      omega

theorem offset_of_neg {p : Position} (h : p.line < 0) (text : Bytes) : p.offset text = 0 := by
  rw [offset, if_pos h]

/-- A line past the last one stands for the end of the text. -/
theorem offset_of_notMem {text : Bytes} (h : Bytes.lf ∉ text) (n : Nat) (units : Int) :
    offset text { line := (n + 1 : Nat), character := units } = text.length := by
  have hdrop : dropLines? (n + 1) text = none := by
    rw [dropLines?, Bytes.cut?_eq_none_iff.mpr h]
  rw [offset, if_neg (Int.not_lt.mpr (Int.natCast_nonneg _))]
  simp only [Int.toNat_natCast, hdrop]

theorem offset_le_offset {text : Bytes} {m n : Nat} {units more : Int}
    (h : m < n ∨ m = n ∧ units ≤ more) :
    offset text { line := m, character := units } ≤ offset text { line := n, character := more } := by
  -- Lines are dropped from the front until the earlier position is on the first one.
  induction n generalizing text m with
  | zero =>
      obtain ⟨rfl, hunits⟩ : m = 0 ∧ units ≤ more := by omega
      have hdrop := length_dropUnits_le hunits (frontLine text)
      rw [Int.ofNat_zero, offset_zero, offset_zero]
      omega
  | succ n ih =>
      cases text using lineInduction with
      | last text hlf =>
          rw [offset_of_notMem hlf]
          exact offset_le_length text _
      | line line rest hlf _ =>
          rw [offset_append_lf hlf]
          cases m with
          | zero =>
              obtain ⟨ending, hending, -⟩ := exists_eq_chomp_append line
              have hlength := congrArg List.length hending
              rw [List.length_append] at hlength
              rw [Int.ofNat_zero, offset_zero, frontLine_append_lf hlf]
              omega
          | succ m =>
              have hrest : offset rest ⟨m, units⟩ ≤ offset rest ⟨n, more⟩ := ih (by omega)
              rw [offset_append_lf hlf]
              omega

/-- The later a position the later its offset. -/
theorem monotone_offset (text : Bytes) : Monotone fun p : Position => p.offset text := by
  rintro ⟨line, units⟩ ⟨line', more⟩ hle
  obtain hle := le_iff.mp hle
  simp only at hle ⊢
  by_cases hnegative : line < 0
  · simp only [offset_of_neg (p := ⟨line, units⟩) hnegative, Nat.zero_le]
  obtain ⟨m, rfl⟩ := Int.eq_ofNat_of_zero_le (Int.not_lt.mp hnegative)
  obtain ⟨n, rfl⟩ := Int.eq_ofNat_of_zero_le (show 0 ≤ line' by omega)
  exact offset_le_offset (by omega)

/-- Every offset of a well-formed text lies between two characters, and outside of the line
terminators. -/
theorem isPlace_offset {text : Bytes} (hvalid : Utf8.isValid text = true) (p : Position) :
    IsPlace text (p.offset text) := by
  obtain ⟨line, units⟩ := p
  by_cases hnegative : line < 0
  · obtain ⟨cs, rfl⟩ := (Utf8.isValid_iff text).mp hvalid
    rw [offset_of_neg hnegative]
    change IsPlace ([] ++ Utf8.ofChars cs) ([] : Bytes).length
    exact isPlace_append (fun b hb => Utf8.isTail_of_head?_ofChars hb) (by simp)
  obtain ⟨n, rfl⟩ := Int.eq_ofNat_of_zero_le (Int.not_lt.mp hnegative)
  induction n generalizing text with
  | zero =>
      obtain ⟨hlf, -⟩ := exists_eq_frontLine_append text
      obtain ⟨behind, htext, hboundary, hterminator⟩ := exists_terminator text
      rw [Int.ofNat_zero, offset_zero]
      generalize frontLine text = line at hlf htext hterminator ⊢
      subst htext
      obtain ⟨cs, rfl⟩ := (Utf8.isValid_iff line).mp
        ((Utf8.isValid_append_iff hboundary).mp hvalid).1
      obtain ⟨before, after, rfl, hdrop⟩ := exists_dropUnits_ofChars units cs
      rw [hdrop, Utf8.ofChars_append, List.length_append, Nat.add_sub_cancel, List.append_assoc]
      rw [Utf8.ofChars_append] at hlf hterminator
      cases hafter : Utf8.ofChars after with
      | nil =>
          rw [hafter, List.append_nil] at hterminator
          exact isPlace_append hboundary hterminator
      | cons b tail =>
          -- The place lies in front of a character of the line, which is no line feed.
          apply isPlace_append
          · rintro b ⟨⟩
            have hhead : b ∈ (Utf8.ofChars after).head? := by simp [hafter]
            exact Utf8.isTail_of_head?_ofChars hhead
          · rintro ⟨-, hhead⟩
            cases hhead
            exact hlf (by simp [hafter])
  | succ n ih =>
      cases text using lineInduction with
      | last text hlf =>
          rw [offset_of_notMem hlf]
          have hplace : IsPlace (text ++ []) text.length := isPlace_append (by simp) (by simp)
          rwa [List.append_nil] at hplace
      | line line rest hlf _ =>
          have hrest := ((Utf8.isValid_append_cons_of_ascii (by decide)).mp hvalid).2
          rw [offset_append_lf hlf]
          exact (ih hrest (by omega)).append_lf line

end Position

/-! ## Changes -/

namespace Change

/-- The effect of some changes, the first of which has the given index: the text they leave and the
reversed change that ended them. What a change keeps and what it replaces are parts of the text that
it finds, and only a change that ends at an earlier position than it starts is reversed. -/
inductive Edits : Nat → Bytes → List Change → Bytes → Option Reversed → Prop where
  | done {index : Nat} {text : Bytes} : Edits index text [] text none
  | rewrite {index : Nat} {text : Bytes} {c : Change} {rest : List Change} {final : Bytes}
      {reversed? : Option Reversed} (hspan : c.span? = none)
      (hrest : Edits (index + 1) c.text rest final reversed?) :
      Edits index text (c :: rest) final reversed?
  | replace {index : Nat} {c : Change} {span : Span} {rest : List Change}
      {before old behind final : Bytes} {reversed? : Option Reversed} (hspan : c.span? = some span)
      (hstart : span.start.offset (before ++ old ++ behind) = before.length)
      (hstop : span.stop.offset (before ++ old ++ behind) = (before ++ old).length)
      (hrest : Edits (index + 1) (before ++ c.text ++ behind) rest final reversed?) :
      Edits index (before ++ old ++ behind) (c :: rest) final reversed?
  | reversed {index : Nat} {text : Bytes} {c : Change} {span : Span} {rest : List Change}
      (hspan : c.span? = some span) (hearlier : span.stop < span.start)
      (hoffset : span.stop.offset text < span.start.offset text) :
      Edits index text (c :: rest) text (some ⟨index⟩)

theorem exists_parts {text : Bytes} {start stop : Nat} (h : start ≤ stop)
    (hstop : stop ≤ text.length) :
    ∃ before old behind, text = before ++ old ++ behind ∧ before.length = start ∧
      (before ++ old).length = stop := by
  have htake : text.take start ++ (text.take stop).drop start = text.take stop := by
    have hfront : (text.take stop).take start = text.take start := by
      rw [List.take_take, Nat.min_eq_left h]
    rw [← hfront, List.take_append_drop]
  refine ⟨text.take start, (text.take stop).drop start, text.drop stop, ?_, ?_, ?_⟩
  · rw [htake, List.take_append_drop]
  · rw [List.length_take]
    omega
  · rw [htake, List.length_take]
    omega

theorem edits_applyFrom (index : Nat) (text : Bytes) (changes : List Change) :
    Edits index text changes (applyFrom index text changes).1
      (applyFrom index text changes).2 := by
  induction changes generalizing index text with
  | nil => exact .done
  | cons c rest ih =>
      cases hspan : c.span? with
      | none =>
          have hedit : c.edit? text = some c.text := by simp only [edit?, hspan]
          rw [applyFrom, hedit]
          exact .rewrite hspan (ih _ _)
      | some span =>
          by_cases hreversed : span.stop.offset text < span.start.offset text
          · have hedit : c.edit? text = none := by simp only [edit?, hspan, if_pos hreversed]
            have hearlier : span.stop < span.start := by
              apply Position.lt_of_not_le
              intro hle
              exact absurd hreversed (Nat.not_lt.mpr (Position.monotone_offset text hle))
            rw [applyFrom, hedit]
            exact .reversed hspan hearlier hreversed
          · have hedit : c.edit? text = some (text.take (span.start.offset text) ++ c.text ++
                text.drop (span.stop.offset text)) := by
              simp only [edit?, hspan, if_neg hreversed]
            rw [applyFrom, hedit]
            obtain ⟨before, old, behind, rfl, hstart, hstop⟩ :=
              exists_parts (Nat.not_lt.mp hreversed) (Position.offset_le_length text span.stop)
            rw [← hstart, ← hstop, List.drop_left, List.append_assoc before old behind,
              List.take_left, ← List.append_assoc before old behind]
            exact .replace hspan hstart.symm hstop.symm (ih _ _)

/-- Changes by well-formed texts keep a text well-formed, even if one of them is reversed. -/
theorem Edits.isValid {index : Nat} {text final : Bytes} {changes : List Change}
    {reversed? : Option Reversed} (h : Edits index text changes final reversed?)
    (hvalid : Utf8.isValid text = true) (hchanges : ∀ c ∈ changes, Utf8.isValid c.text = true) :
    Utf8.isValid final = true := by
  induction h with
  | done => exact hvalid
  | rewrite _ _ ih =>
      exact ih (hchanges _ List.mem_cons_self) fun c hc => hchanges c (List.mem_cons_of_mem _ hc)
  | @replace _ c span _ before old behind _ _ _ hstart hstop _ ih =>
      have hbefore := (Edit.isValid_take hvalid (Position.isPlace_offset hvalid span.start)).1
      have hbehind := (Edit.isValid_take hvalid (Position.isPlace_offset hvalid span.stop)).2
      rw [hstart, List.append_assoc, List.take_left] at hbefore
      rw [hstop, List.drop_left] at hbehind
      have hnew := hchanges c List.mem_cons_self
      exact ih (Utf8.isValid_append (Utf8.isValid_append hbefore hnew) hbehind)
        fun c hc => hchanges c (List.mem_cons_of_mem _ hc)
  | reversed => exact hvalid

end Change

/-- Every position has an offset inside of the text of a document, and a later position has no
earlier offset. So the parts that changes keep and replace are parts of the text, and only a change
that ends at an earlier position than it starts is refused. In well-formed text every offset lies
between two characters, and well-formed changes keep it well-formed. -/
theorem Document.edits_apply (d : Document) (changes : List Change) :
    (∀ p : Position, p.offset d.text ≤ d.text.length) ∧
      (Monotone fun p : Position => p.offset d.text) ∧
      Change.Edits 0 d.text changes (d.apply changes).1.text (d.apply changes).2 ∧
      (Utf8.isValid d.text = true →
        (∀ p : Position, IsPlace d.text (p.offset d.text)) ∧
          ((∀ c ∈ changes, Utf8.isValid c.text = true) →
            Utf8.isValid (d.apply changes).1.text = true)) := by
  have hedits : Change.Edits 0 d.text changes (d.apply changes).1.text (d.apply changes).2 :=
    Change.edits_applyFrom 0 d.text changes
  refine ⟨Position.offset_le_length d.text, Position.monotone_offset d.text, hedits, ?_⟩
  intro hvalid
  exact ⟨Position.isPlace_offset hvalid, hedits.isValid hvalid⟩

/-- A change inside of a surrogate pair takes effect behind the pair, one that covers a negative line
and a line past the last takes the whole text, and a reversed one is refused. -/
theorem Document.edits_apply_astral :
    let d : Document := ⟨[], 1, Utf8.ofChars ['a', '😀', '\r', '\n', 'b']⟩
    let inside : Change := { span? := some ⟨⟨0, 2⟩, ⟨0, 9⟩⟩, text := Utf8.ofChars ['é'] }
    let whole : Change := { span? := some ⟨⟨-1, 5⟩, ⟨7, -3⟩⟩, text := Utf8.ofChars ['x'] }
    let reversed : Change := { span? := some ⟨⟨0, 1⟩, ⟨0, 0⟩⟩ }
    d.apply [inside] = (⟨[], 1, Utf8.ofChars ['a', '😀', 'é', '\r', '\n', 'b']⟩, none) ∧
      d.apply [inside, whole, reversed] = (⟨[], 1, Utf8.ofChars ['x']⟩, some ⟨2⟩) ∧
      Utf8.isValid (d.apply [inside, whole, reversed]).1.text = true := by
  intro d inside whole reversed
  have hchars : ∀ cs, Utf8.isValid (Utf8.ofChars cs) = true :=
    fun cs => (Utf8.isValid_iff _).mpr ⟨cs, rfl⟩
  have hvalid : ∀ c ∈ [inside, whole, reversed], Utf8.isValid c.text = true := by
    intro c hc
    simp only [List.mem_cons, List.not_mem_nil, or_false] at hc
    rcases hc with rfl | rfl | rfl
    · exact hchars _
    · exact hchars _
    · exact hchars []
  refine ⟨by decide +kernel, by decide +kernel, ?_⟩
  exact ((edits_apply d [inside, whole, reversed]).2.2.2 (hchars _)).2 hvalid

end DefinitionFiles
