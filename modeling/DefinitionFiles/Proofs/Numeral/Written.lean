import DefinitionFiles.Proofs.Numeral.Sign

/-!
# Written integers

An integer can be written in decimal or, after `0x`, in hexadecimal and any letter case. Both ways give
a literal of it, so that it is read as itself wherever it is in range, and refused elsewhere.
-/

namespace DefinitionFiles.Numeral

/-- Whether a text is the decimal numeral of a number, or `0x` or `0X` and its hexadecimal numeral with
letters in any case. -/
inductive WritesNatural (n : Nat) : Bytes → Prop where
  | decimal : WritesNatural n (Bytes.decimal n)
  | hexadecimal {mark : UInt8} {body : Bytes} (hmark : mark = 0x78 ∨ mark = 0x58)
      (hbody : body.map Bytes.lowerByte = Bytes.numeral 16 n) : WritesNatural n (0x30 :: mark :: body)

/-- Whether a text writes an integer: its absolute value, behind a minus sign if it is negative. -/
def Writes (n : Int) (text : Bytes) : Prop :=
  ∃ body, WritesNatural n.natAbs body ∧ text = if n < 0 then 0x2D :: body else body

/-- An integer is written with digits and letters, apart from its sign. -/
theorem WritesNatural.isDigit_or_isLetter {n : Nat} {text : Bytes} (h : WritesNatural n text)
    {b : UInt8} (hb : b ∈ text) : Bytes.isDigit b = true ∨ Bytes.isLetter b = true := by
  cases h with
  | decimal => exact .inl (Bytes.isDigit_of_mem_decimal hb)
  | @hexadecimal mark body hmark hbody =>
      rcases List.mem_cons.mp hb with rfl | hb
      · exact .inl rfl
      rcases List.mem_cons.mp hb with rfl | hb
      · rcases hmark with rfl | rfl <;> exact .inr rfl
      have hdigits : ∀ b : UInt8, ∀ d : Fin 16, Bytes.lowerByte b = Bytes.hexDigit d →
          Bytes.isDigit b = true ∨ Bytes.isLetter b = true :=
        Bytes.forall_of_fin (by decide +kernel)
      have hmem : Bytes.lowerByte b ∈ Bytes.numeral 16 n := hbody ▸ List.mem_map_of_mem hb
      obtain ⟨d, hd, hlower⟩ := Bytes.exists_digit_of_mem_numeral (by decide) (by decide) hmem
      exact hdigits b ⟨d, hd⟩ hlower

/-- The numeral of a natural number starts with a digit. -/
theorem WritesNatural.exists_cons {n : Nat} {text : Bytes} (h : WritesNatural n text) :
    ∃ b rest, text = b :: rest ∧ Bytes.isDigit b = true := by
  cases h with
  | decimal =>
      obtain ⟨b, rest, hcons⟩ := List.exists_cons_of_ne_nil (Bytes.decimal_ne_nil n)
      exact ⟨b, rest, hcons, Bytes.isDigit_of_mem_decimal (n := n) (by simp [hcons])⟩
  | hexadecimal hmark hbody => exact ⟨_, _, rfl, rfl⟩

/-- A written natural number is a literal of it. -/
theorem WritesNatural.literal {n : Nat} {text : Bytes} (h : WritesNatural n text) : Literal n text := by
  have hplain : 0x5F ∉ text := by
    intro hb
    rcases h.isDigit_or_isLetter hb with hdigit | hletter
    · cases hdigit
    · cases hletter
  cases h with
  | decimal =>
      rcases Nat.eq_zero_or_pos n with rfl | hpos
      -- The numeral of zero counts as an octal one with no digits behind its leading zero.
      · exact .octal .nil
      obtain ⟨b, rest, hcons⟩ := List.exists_cons_of_ne_nil (Bytes.decimal_ne_nil n)
      have hb : b ≠ 0x30 := by
        have hhead : (Bytes.decimal n).head? ≠ some 0x30 :=
          Bytes.head?_numeral_ne (by decide) (by decide) hpos
        simpa [hcons] using hhead
      have hread : digits 10 true n 0 (Bytes.decimal n) = .ok n :=
        (digits_numeral (by decide) (by decide) true n n).trans (if_pos (Nat.le_refl n))
      rw [hcons] at hread hplain ⊢
      exact ((decimal_and_fit_iff hb rest).mp
        ⟨hread, hasFittingUnderscores_of_notMem hplain⟩).1
  | @hexadecimal mark body hmark hbody =>
      have hne : body ≠ [] := by
        rintro rfl
        exact Bytes.numeral_ne_nil (by decide) (by decide) n hbody.symm
      have hlower : (Bytes.lowerByte mark, 16) ∈ marks := by
        rcases hmark with rfl | rfl <;> decide
      have hread : digits 16 true n 0 body = .ok n := by
        rw [← digits_map_lowerByte, hbody, digits_numeral (by decide) (by decide),
          if_pos (Nat.le_refl n)]
      have hfit : underscoresFit true .digit body = true :=
        underscoresFit_of_notMem
          (fun hmem => hplain (List.mem_cons_of_mem _ (List.mem_cons_of_mem _ hmem))) (by decide)
      exact .marked hlower hne ((digits_and_fit_iff (by decide) (knows true (Nat.le_refl 16))
        (Nat.zero_le n)).mp ⟨hread, hfit⟩).1

/-- A written integer is a literal of it, with a sign if it is negative. -/
theorem Writes.signed {n : Int} {text : Bytes} (h : Writes n text) : Signed Literal n text := by
  obtain ⟨body, hbody, rfl⟩ := h
  split
  next hneg =>
    have habs : -(n.natAbs : Int) = n := by omega
    exact habs ▸ .minus hbody.literal
  next hpos =>
    have habs : (n.natAbs : Int) = n := by omega
    exact habs ▸ .plain hbody.literal

theorem Writes.literal {n : Int} {text : Bytes} (h : Writes n text) (hpos : 0 ≤ n) :
    Literal n.toNat text := by
  obtain ⟨body, hbody, rfl⟩ := h
  have habs : n.natAbs = n.toNat := by omega
  rw [if_neg (Int.not_lt.mpr hpos), ← habs]
  exact hbody.literal

end DefinitionFiles.Numeral
