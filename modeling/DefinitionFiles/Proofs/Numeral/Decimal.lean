import DefinitionFiles.Proofs.Numeral.Base

/-!
# Decimal numerals

The decimal numeral of a number consists of digits only. It is read as the number again, as long as
the number fits.
-/

namespace DefinitionFiles

namespace Bytes

theorem isDigit_of_mem_decimal {n : Nat} {b : UInt8} (h : b ∈ decimal n) : isDigit b = true := by
  have hdigit : ∀ d : Fin 10, isDigit (hexDigit d) = true := by decide
  obtain ⟨d, hd, rfl⟩ := exists_digit_of_mem_numeral (by decide) (by decide) h
  exact hdigit ⟨d, hd⟩

theorem decimal_ne_nil (n : Nat) : decimal n ≠ [] :=
  numeral_ne_nil (by decide) (by decide) n

end Bytes

namespace Numeral

/-- A decimal numeral is read as its number. -/
theorem digits_decimal {n max : Nat} (h : n ≤ max) :
    digits 10 false max 0 (Bytes.decimal n) = .ok n :=
  (digits_numeral (by decide) (by decide) false max n).trans (if_pos h)

theorem ne_sign_of_isDigit {b : UInt8} (h : Bytes.isDigit b = true) : b ≠ 0x2B ∧ b ≠ 0x2D := by
  constructor <;> rintro rfl <;> cases h

/-- Without a sign in front a text is read as an unsigned one that has to fit the smaller range. -/
theorem signed_of_no_sign (bits : Nat) (unsigned : (max : Nat) → Bytes → Except NumeralError Nat)
    {text : Bytes} (hplus : ∀ rest, text ≠ 0x2B :: rest) (hminus : ∀ rest, text ≠ 0x2D :: rest) :
    signed bits unsigned text = unsigned (1 <<< bits - 1) text >>= fun value =>
      if 1 <<< (bits - 1) ≤ value then .error .outOfRange else pure (value : Int) := by
  unfold signed
  split
  next heq =>
    split at heq
    next rest => exact absurd rfl (hplus rest)
    next rest => exact absurd rfl (hminus rest)
    next =>
      cases heq
      rfl

theorem decimalInteger_decimal {n : Nat} (h : n < 2 ^ 63) :
    decimalInteger (Bytes.decimal n) = .ok (n : Int) := by
  have hread : decimalNatural (1 <<< 64 - 1) (Bytes.decimal n) = .ok n := by
    rw [decimalNatural, naturalIn, if_neg (Bytes.decimal_ne_nil n), digits_decimal]
    simp only [Nat.shiftLeft_eq]
    omega
  have hfits : ¬ 1 <<< (64 - 1) ≤ n := by
    simp only [Nat.shiftLeft_eq]
    omega
  obtain ⟨b, rest, hcons⟩ := List.exists_cons_of_ne_nil (Bytes.decimal_ne_nil n)
  obtain ⟨hplus, hminus⟩ :=
    ne_sign_of_isDigit (Bytes.isDigit_of_mem_decimal (n := n) (b := b) (by simp [hcons]))
  rw [hcons] at hread ⊢
  rw [decimalInteger, signed_of_no_sign 64 _ (by simp [hplus]) (by simp [hminus]), hread]
  exact if_neg hfits

end Numeral

end DefinitionFiles
