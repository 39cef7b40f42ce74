import DefinitionFiles.Editor.Document
import DefinitionFiles.Proofs.Text.Cutting
import DefinitionFiles.Proofs.Text.Utf8
import Mathlib.Data.FinEnum
import Mathlib.Data.List.DropRight

/-!
# Positions and offsets

An editor names a place of a text by the number of line feeds before it and the number of code
units since the last one. The offset of that position is the place again, wherever the place lies
between two characters and outside of a line terminator.
-/

namespace DefinitionFiles

/-- Whether an offset of a text lies between two characters, and not between a carriage return and
the line feed that follows it. -/
structure IsPlace (text : Bytes) (offset : Nat) : Prop where
  le : offset ≤ text.length
  boundary : ∀ b ∈ text[offset]?, Utf8.isTail b = false
  terminator : ¬ ((text.take offset).getLast? = some Bytes.cr ∧ text[offset]? = some Bytes.lf)

instance (text : Bytes) (offset : Nat) : Decidable (IsPlace text offset) :=
  decidable_of_iff (offset ≤ text.length ∧ (∀ b ∈ text[offset]?, Utf8.isTail b = false) ∧
      ¬ ((text.take offset).getLast? = some Bytes.cr ∧ text[offset]? = some Bytes.lf))
    ⟨fun ⟨hle, hboundary, hterminator⟩ => ⟨hle, hboundary, hterminator⟩,
      fun h => ⟨h.le, h.boundary, h.terminator⟩⟩

namespace Position

/-- The position of an offset: the line feeds before it, and the code units since the last one. -/
def ofOffset (text : Bytes) (offset : Nat) : Position :=
  { line := (text.take offset).count Bytes.lf
    character := Utf8.units ((text.take offset).rtakeWhile (· != Bytes.lf)) }

/-- Text up to a line feed is dropped line by line. -/
theorem dropLines?_append {front : Bytes} (hfront : front = [] ∨ front.getLast? = some Bytes.lf)
    (rest : Bytes) : dropLines? (front.count Bytes.lf) (front ++ rest) = some rest := by
  induction hcount : front.count Bytes.lf generalizing front with
  | zero =>
      rcases hfront with rfl | hlast
      · rfl
      · exact absurd (List.mem_of_getLast? hlast) (List.count_eq_zero.mp hcount)
  | succ n ih =>
      have hmem : Bytes.lf ∈ front := List.count_pos_iff.mp (by omega)
      obtain ⟨line, later, rfl, hline⟩ := List.eq_append_cons_of_mem hmem
      have hcut : Bytes.cut? Bytes.lf (line ++ Bytes.lf :: later ++ rest) =
          some (line, later ++ rest) :=
        Bytes.cut?_eq_some_iff.mpr ⟨by simp, hline⟩
      have hlater : later = [] ∨ later.getLast? = some Bytes.lf := by
        cases later with
        | nil => exact .inl rfl
        | cons b later => simpa using hfront
      have hn : later.count Bytes.lf = n := by
        simpa [List.count_append, List.count_eq_zero.mpr hline] using hcount
      rw [dropLines?, hcut]
      exact ih hlater hn

theorem length_of_dropLines? {n : Nat} {text rest : Bytes} (h : dropLines? n text = some rest) :
    rest.length ≤ text.length := by
  induction n generalizing text with
  | zero =>
      cases h
      exact Nat.le_refl _
  | succ n ih =>
      rw [dropLines?] at h
      split at h
      next line later hcut => exact (ih h).trans (Bytes.length_of_cut? hcut).le
      next => cases h

theorem frontLine_of_notMem {text : Bytes} (h : Bytes.lf ∉ text) : frontLine text = text := by
  rw [frontLine, Bytes.cut?_eq_none_iff.mpr h]

theorem frontLine_append_lf {line : Bytes} (h : Bytes.lf ∉ line) (rest : Bytes) :
    frontLine (line ++ Bytes.lf :: rest) = chomp line := by
  rw [frontLine, Bytes.cut?_eq_some_iff.mpr ⟨rfl, h⟩]

/-- Behind a front of a line, a carriage return at its end belongs to what follows the front, if it
belongs to the terminator at all. -/
theorem chomp_append (piece kept : Bytes)
    (hterminator : kept = [] → piece.getLast? ≠ some Bytes.cr) :
    ∃ shown, chomp (piece ++ kept) = piece ++ shown := by
  unfold chomp
  split
  next hlast =>
    have hkept : kept ≠ [] := by
      rintro rfl
      exact hterminator rfl (by simpa using hlast)
    exact ⟨kept.dropLast, List.dropLast_append_of_ne_nil hkept⟩
  next => exact ⟨kept, rfl⟩

/-- A piece without a line feed stands at the front of its line, unless its carriage return belongs
to the line terminator. -/
theorem frontLine_append {piece rest : Bytes} (hpiece : Bytes.lf ∉ piece)
    (hterminator : ¬ (piece.getLast? = some Bytes.cr ∧ rest.head? = some Bytes.lf)) :
    ∃ shown, frontLine (piece ++ rest) = piece ++ shown := by
  unfold frontLine
  split
  next line later hcut =>
    obtain ⟨heq, hline⟩ := Bytes.cut?_eq_some_iff.mp hcut
    rcases List.append_eq_append_iff.mp heq with ⟨kept, rfl, rfl⟩ | ⟨kept, rfl, hkept⟩
    · apply chomp_append
      rintro rfl hlast
      exact hterminator ⟨hlast, rfl⟩
    · -- The piece does not reach past the line feed, so it is the whole line.
      cases kept with
      | nil =>
          have hrest : rest = Bytes.lf :: later := by simpa using hkept.symm
          subst hrest
          obtain ⟨shown, hshown⟩ := chomp_append line []
            fun _ hlast => hterminator ⟨by simpa using hlast, rfl⟩
          exact ⟨shown, by simpa using hshown⟩
      | cons b kept =>
          obtain ⟨rfl, -⟩ := List.cons.inj hkept
          exact absurd (by simp) hpiece
  next => exact ⟨rest, rfl⟩

theorem dropUnits_of_nonpos {units : Int} (h : units ≤ 0) (line : Bytes) :
    dropUnits units line = line := by
  cases line with
  | nil => rw [dropUnits]
  | cons b rest => rw [dropUnits, if_pos h]

theorem dropUnits_encode_append {units : Int} (h : 0 < units) (c : Char) (rest : Bytes) :
    dropUnits units (Utf8.encode c ++ rest) = dropUnits (units - utf16Width c) rest := by
  obtain ⟨b, tail, hc⟩ := Utf8.exists_encode_eq_cons c
  rw [hc, List.cons_append, dropUnits, if_neg (by omega)]
  simp only [Utf8.read_encode hc]
  rfl

theorem utf16Width_pos (c : Char) : 0 < utf16Width c := by
  unfold utf16Width
  split <;> decide

/-- Dropping as many code units as some characters have drops these characters. -/
theorem dropUnits_ofChars_append (cs : List Char) (rest : Bytes) :
    dropUnits (Utf8.units (Utf8.ofChars cs)) (Utf8.ofChars cs ++ rest) = rest := by
  induction cs with
  | nil => exact dropUnits_of_nonpos (by simp) rest
  | cons c cs ih =>
      have hpos := utf16Width_pos c
      rw [Utf8.ofChars_cons, Utf8.units_encode_append, List.append_assoc,
        dropUnits_encode_append (by omega)]
      rw [show ((utf16Width c + Utf8.units (Utf8.ofChars cs) : Nat) : Int) - utf16Width c =
        Utf8.units (Utf8.ofChars cs) by omega]
      exact ih

/-- Dropping as many code units as a piece has drops the piece, unless what follows could continue
its last character. -/
theorem dropUnits_units_append (piece : Bytes) {rest : Bytes}
    (hrest : ∀ t ∈ rest.head?, Utf8.isTail t = false) :
    dropUnits (Utf8.units piece) (piece ++ rest) = rest := by
  induction piece using Utf8.glyphInduction with
  | nil => exact dropUnits_of_nonpos (by simp) rest
  | glyph b piece ih =>
      have hpos := utf16Width_pos (Utf8.read b piece).1.shown
      rw [Utf8.units_cons, List.cons_append, dropUnits, if_neg (by omega)]
      simp only [Utf8.read_append b piece hrest]
      rw [show ((utf16Width (Utf8.read b piece).1.shown + Utf8.units (Utf8.read b piece).2 : Nat) :
        Int) - utf16Width (Utf8.read b piece).1.shown = Utf8.units (Utf8.read b piece).2 by omega]
      exact ih

/-- The offset of a column behind whole lines, when the code units up to it are those of a piece of
its line. -/
theorem offset_append {front rest piece shown : Bytes}
    (hfront : front = [] ∨ front.getLast? = some Bytes.lf) (hline : frontLine rest = piece ++ shown)
    {units : Int} (hdrop : dropUnits units (piece ++ shown) = shown) :
    offset (front ++ rest) { line := front.count Bytes.lf, character := units } =
      front.length + piece.length := by
  rw [offset, if_neg (Int.not_lt.mpr (Int.natCast_nonneg _))]
  simp only [Int.toNat_natCast, dropLines?_append hfront, hline, hdrop, List.length_append]
  omega

/-- Well-formed text is a front that ends in a line feed, if it is not empty, and a last line. -/
theorem exists_lastLine (cs : List Char) :
    ∃ front piece, cs = front ++ piece ∧
      (Utf8.ofChars front = [] ∨ (Utf8.ofChars front).getLast? = some Bytes.lf) ∧
      Bytes.lf ∉ Utf8.ofChars piece := by
  induction cs using List.reverseRecOn with
  | nil => exact ⟨[], [], rfl, .inl rfl, by simp⟩
  | append_singleton cs c ih =>
      by_cases hc : c = '\n'
      · refine ⟨cs ++ [c], [], by simp, .inr ?_, by simp⟩
        subst hc
        rw [Utf8.ofChars_append]
        exact List.getLast?_concat
      · obtain ⟨front, piece, rfl, hfront, hpiece⟩ := ih
        refine ⟨front, piece ++ [c], by simp, hfront, ?_⟩
        rw [Utf8.ofChars_append, List.mem_append, not_or, Utf8.ofChars_cons, Utf8.ofChars_nil,
          List.append_nil]
        exact ⟨hpiece, fun hmem => hc (Utf8.eq_newline_of_lf_mem_encode hmem)⟩

theorem rtakeWhile_append_lastLine {front piece : Bytes}
    (hfront : front = [] ∨ front.getLast? = some Bytes.lf) (hpiece : Bytes.lf ∉ piece) :
    (front ++ piece).rtakeWhile (· != Bytes.lf) = piece := by
  have hkeep : ∀ b ∈ piece.reverse, (b != Bytes.lf) = true := by
    intro b hb
    exact bne_iff_ne.mpr fun h => hpiece (h ▸ List.mem_reverse.mp hb)
  have hstop : front.reverse.takeWhile (· != Bytes.lf) = [] := by
    rcases hfront with rfl | hlast
    · rfl
    · obtain ⟨init, rfl⟩ := List.getLast?_eq_some_iff.mp hlast
      simp
  rw [List.rtakeWhile, List.reverse_append, List.takeWhile_append_of_pos hkeep, hstop,
    List.append_nil, List.reverse_reverse]

/-- A front of a text that ends in a line feed, and a piece of the next line. -/
theorem ofOffset_append {front piece : Bytes}
    (hfront : front = [] ∨ front.getLast? = some Bytes.lf) (hpiece : Bytes.lf ∉ piece)
    (rest : Bytes) :
    ofOffset (front ++ piece ++ rest) (front ++ piece).length =
      { line := front.count Bytes.lf, character := Utf8.units piece } := by
  rw [ofOffset, List.take_left, rtakeWhile_append_lastLine hfront hpiece, List.count_append,
    List.count_eq_zero.mpr hpiece, Nat.add_zero]

/-- A place of a well-formed text is the offset of its position. -/
theorem offset_ofOffset {text : Bytes} (hvalid : Utf8.isValid text = true) {place : Nat}
    (hplace : IsPlace text place) : (ofOffset text place).offset text = place := by
  obtain ⟨cs, rfl⟩ := (Utf8.isValid_iff text).mp hvalid
  obtain ⟨before, after, rfl, rfl⟩ :=
    Utf8.exists_split_of_boundary cs place hplace.le hplace.boundary
  -- The text is whole lines, the part of a line in front of the place, and the rest.
  obtain ⟨front, piece, rfl, hfront, hpiece⟩ := exists_lastLine before
  have hterminator : ¬ ((Utf8.ofChars piece).getLast? = some Bytes.cr ∧
      (Utf8.ofChars after).head? = some Bytes.lf) := by
    rintro ⟨hlast, hhead⟩
    apply hplace.terminator
    simp only [Utf8.ofChars_append, List.take_left, List.getElem?_append_right (Nat.le_refl _),
      Nat.sub_self, ← List.head?_eq_getElem?]
    exact ⟨by simp [hlast], hhead⟩
  obtain ⟨shown, hshown⟩ := frontLine_append hpiece hterminator
  simp only [Utf8.ofChars_append]
  rw [ofOffset_append hfront hpiece, List.append_assoc,
    offset_append hfront hshown (dropUnits_ofChars_append piece shown), List.length_append]

end Position

end DefinitionFiles
