import DefinitionFiles.Text.CaseFolding
import DefinitionFiles.Proofs.Text.Utf8

/-!
# Letter case of ASCII words

Among ASCII letters folding is the step to lower case. From outside of ASCII it leads to no ASCII
letter but `k` and `s`, the foldings of the Kelvin sign and of the long s. So an ASCII word without
these two letters agrees up to letter case with its ASCII spellings only.
-/

namespace DefinitionFiles

/-! ## Characters -/

/-- Whether a range of the folding table stays inside ASCII, stands for one character that folds to
`k` or `s`, or leads to characters outside of ASCII. -/
def isFamiliar : Nat × Nat × Nat × Int → Bool
  | (lo, hi, _, shift) =>
      hi < 0x80 || (lo = hi && (lo + shift = 0x6B || lo + shift = 0x73)) ||
        (0x80 ≤ lo + shift && hi + shift < 0xD800) ||
        (0xDFFF < lo + shift && hi + shift < 0x110000)

theorem foldCase_of_not_ascii {c : Char} (h : 0x80 ≤ c.toNat) :
    0x80 ≤ (foldCase c).toNat ∨ foldCase c = 'k' ∨ foldCase c = 's' := by
  have htable : ∀ range ∈ foldingRanges, isFamiliar range = true := by decide +kernel
  unfold foldCase
  simp only
  split
  next lo hi step shift hfind =>
    have hfamiliar := htable _ (List.mem_of_find?_eq_some hfind)
    have hrange := List.find?_some hfind
    simp only [isFamiliar, Bool.and_eq_true, Bool.or_eq_true, decide_eq_true_eq]
      at hfamiliar hrange
    rcases hfamiliar with ((hascii | ⟨hsingle, htarget⟩) | hlow) | hhigh
    · omega
    · have hn : (c.toNat : Int) + shift = lo + shift := by omega
      rw [hn]
      rcases htarget with htarget | htarget
      · rw [htarget]
        exact .inr (.inl rfl)
      · rw [htarget]
        exact .inr (.inr rfl)
    · rw [Utf8.toNat_ofNat_of_scalar (by omega)]
      omega
    · rw [Utf8.toNat_ofNat_of_scalar (by omega)]
      omega
  next => exact .inl h

/-- The character of an ASCII byte. -/
def charOf (b : UInt8) : Char :=
  Char.ofNat b.toNat

theorem foldCase_charOf {b : UInt8} (h : b < 0x80) :
    foldCase (charOf b) = charOf (Bytes.lowerByte b) := by
  have hascii : ∀ n : Fin 128, foldCase (charOf (UInt8.ofNat n)) =
      charOf (Bytes.lowerByte (UInt8.ofNat n)) := by
    decide +kernel
  have hb := hascii ⟨b.toNat, by simpa [UInt8.lt_iff_toNat_lt] using h⟩
  simpa using hb

theorem toNat_charOf (b : UInt8) : (charOf b).toNat = b.toNat := by
  have hb := b.toNat_lt
  exact Utf8.toNat_ofNat_of_scalar (by omega)

theorem charOf_inj {a b : UInt8} (h : charOf a = charOf b) : a = b := by
  rw [← UInt8.toNat_inj, ← toNat_charOf a, ← toNat_charOf b, h]

theorem lowerByte_lt {b : UInt8} : Bytes.lowerByte b < 0x80 ↔ b < 0x80 := by
  simp only [Bytes.lowerByte, Bool.and_eq_true, decide_eq_true_eq, UInt8.le_iff_toNat_le,
    UInt8.lt_iff_toNat_lt, UInt8.reduceToNat]
  split
  next hcapital =>
    simp only [UInt8.toNat_add, UInt8.reduceToNat]
    omega
  next => rfl

/-! ## Texts -/

theorem chars_of_ascii {s : Bytes} (h : ∀ b ∈ s, b < 0x80) : Utf8.chars s = s.map charOf := by
  induction s with
  | nil => simp [Utf8.chars]
  | cons b s ih =>
      have hread : Utf8.read b s = (.scalar (charOf b), s) :=
        Utf8.read_of_ascii (h b List.mem_cons_self) s
      have hrest := ih fun other hother => h other (List.mem_cons_of_mem _ hother)
      rw [Utf8.chars, Utf8.glyphs_cons, hread, List.map_cons, List.map_cons, ← hrest]
      rfl

theorem ascii_of_chars {s : Bytes} (h : ∀ c ∈ Utf8.chars s, c.toNat < 0x80) :
    ∀ b ∈ s, b < 0x80 := by
  induction s using Utf8.glyphInduction with
  | nil => simp
  | glyph b rest ih =>
      rw [Utf8.chars, Utf8.glyphs_cons, List.map_cons] at h
      have hfirst := h _ List.mem_cons_self
      have hrest := ih fun c hc => h c (List.mem_cons_of_mem _ hc)
      rcases Utf8.read_cases b rest with hstray | ⟨c, tail, left, rfl, hc, hread⟩
      · rw [hstray] at hfirst
        exact absurd hfirst (show ¬ '\uFFFD'.toNat < 0x80 by decide)
      · rw [hread] at hfirst hrest
        have hsmall : c.toNat < 0x80 := hfirst
        cases hc with
        | one hb hsize =>
            intro a ha
            rcases List.mem_cons.mp ha with rfl | ha
            · rw [UInt8.lt_iff_toNat_lt, hb]
              exact hsmall
            · exact hrest a ha
        | two | three | four => omega

theorem map_foldCase_of_ascii {s : Bytes} (h : ∀ b ∈ s, b < 0x80) :
    (Utf8.chars s).map foldCase = (s.map Bytes.lowerByte).map charOf := by
  rw [chars_of_ascii h, List.map_map, List.map_map]
  exact List.map_congr_left fun b hb => foldCase_charOf (h b hb)

/-- A text agrees up to letter case with an ASCII word without `k` and `s` exactly if it is an ASCII
spelling of it. -/
theorem sameFolded_iff {word : Bytes}
    (hword : ∀ b ∈ word.map Bytes.lowerByte, b < 0x80 ∧ b ≠ 0x6B ∧ b ≠ 0x73) (s : Bytes) :
    sameFolded s word = true ↔ s.map Bytes.lowerByte = word.map Bytes.lowerByte := by
  have hascii : ∀ b ∈ word, b < 0x80 :=
    fun b hb => lowerByte_lt.mp (hword _ (List.mem_map_of_mem hb)).1
  rw [sameFolded, beq_iff_eq, map_foldCase_of_ascii hascii]
  constructor
  · intro heq
    have hplain : ∀ b ∈ s, b < 0x80 := by
      apply ascii_of_chars
      intro c hc
      have hfolded : foldCase c ∈ (word.map Bytes.lowerByte).map charOf :=
        heq ▸ List.mem_map_of_mem hc
      obtain ⟨b, hb, hcharOf⟩ := List.mem_map.mp hfolded
      obtain ⟨hsmall, hk, hs⟩ := hword b hb
      by_contra hlarge
      rcases foldCase_of_not_ascii (Nat.le_of_not_lt hlarge) with hout | hout | hout
      · rw [← hcharOf, toNat_charOf] at hout
        exact absurd hsmall (UInt8.not_lt.mpr hout)
      · exact hk (charOf_inj (hcharOf.trans hout))
      · exact hs (charOf_inj (hcharOf.trans hout))
    rw [map_foldCase_of_ascii hplain] at heq
    exact List.map_injective_iff.mpr (fun _ _ => charOf_inj) heq
  · intro heq
    have hplain : ∀ b ∈ s, b < 0x80 := by
      intro b hb
      have hmem : Bytes.lowerByte b ∈ word.map Bytes.lowerByte :=
        heq ▸ List.mem_map_of_mem hb
      exact lowerByte_lt.mp (hword _ hmem).1
    rw [map_foldCase_of_ascii hplain, heq]

end DefinitionFiles
