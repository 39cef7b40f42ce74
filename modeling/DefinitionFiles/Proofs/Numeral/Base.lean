import DefinitionFiles.Numeral.Integer
import Mathlib.Data.Nat.Digits.Defs

/-!
# Numerals in a base

The numeral of a number has its last digit behind the numeral of the number divided by the base. In a
base up to sixteen it is read as the number again, as long as the number is in range, and letter case
makes no difference.
-/

namespace DefinitionFiles

namespace Bytes

/-- The numeral of a number in a base up to sixteen, with small letters for the digits from ten on. -/
def numeral (base n : Nat) : Bytes :=
  (Nat.toDigits base n).map fun c => c.toNat.toUInt8

section

variable {base : Nat} (hbase : 1 < base) (hsixteen : base ≤ 16)

include hbase hsixteen

theorem numeral_eq (n : Nat) :
    numeral base n = (if n < base then [] else numeral base (n / base)) ++ [hexDigit (n % base)] := by
  have hdigit : ∀ d : Fin 16, (Nat.digitChar d).toNat.toUInt8 = hexDigit d := by decide
  have hlast : n % base < base := Nat.mod_lt n (by omega)
  unfold numeral
  rw [Nat.toDigits_eq_if hbase]
  split
  next hsmall =>
    have hmod : n % base = n := Nat.mod_eq_of_lt hsmall
    simp [hmod, ← hdigit ⟨n, by omega⟩]
  next => simp [← hdigit ⟨n % base, by omega⟩]

theorem numeral_ne_nil (n : Nat) : numeral base n ≠ [] := by
  rw [numeral_eq hbase hsixteen]
  simp

theorem exists_digit_of_mem_numeral {n : Nat} {b : UInt8} (h : b ∈ numeral base n) :
    ∃ d < base, b = hexDigit d := by
  induction n using Nat.strongRecOn with
  | ind n ih =>
      rw [numeral_eq hbase hsixteen, List.mem_append, List.mem_singleton] at h
      rcases h with hfront | rfl
      · split at hfront
        next => cases hfront
        next hlarge => exact ih (n / base) (Nat.div_lt_self (by omega) hbase) hfront
      · exact ⟨n % base, Nat.mod_lt n (by omega), rfl⟩

/-- The numeral of a positive number has no leading zero. -/
theorem head?_numeral_ne {n : Nat} (hn : 0 < n) : (numeral base n).head? ≠ some 0x30 := by
  have hzero : ∀ d : Fin 16, 0 < d.val → hexDigit d ≠ 0x30 := by decide
  induction n using Nat.strongRecOn with
  | ind n ih =>
      rw [numeral_eq hbase hsixteen]
      split
      next hsmall =>
        have hmod : n % base = n := Nat.mod_eq_of_lt hsmall
        simpa [hmod] using hzero ⟨n, by omega⟩ hn
      next hlarge =>
        have hfront := ih (n / base) (Nat.div_lt_self hn hbase) (Nat.div_pos (by omega) (by omega))
        obtain ⟨b, rest, hcons⟩ := List.exists_cons_of_ne_nil (numeral_ne_nil hbase hsixteen (n / base))
        rw [hcons] at hfront ⊢
        exact hfront

end

end Bytes

namespace Numeral

theorem digits_append (base : Nat) (underscores : Bool) (max value : Nat) (s t : Bytes) :
    digits base underscores max value (s ++ t) =
      digits base underscores max value s >>= fun value =>
        digits base underscores max value t := by
  fun_induction digits base underscores max value s with
  | case1 value => rfl
  | case2 value b rest hskip ih => rw [List.cons_append, digits, if_pos hskip, ih]
  | case3 value b rest hskip hdigit => simp [digits, hskip, hdigit, bind, Except.bind]
  | case4 value b rest hskip d hdigit hbase =>
      simp [digits, hskip, hdigit, hbase, bind, Except.bind]
  | case5 value b rest hskip d hdigit hbase hmax =>
      simp [digits, hskip, hdigit, hbase, hmax, bind, Except.bind]
  | case6 value b rest hskip d hdigit hbase hmax ih =>
      rw [List.cons_append, digits, if_neg hskip, hdigit]
      simp only [hbase, hmax, if_false]
      exact ih

/-- Letter case makes no difference to a digit or an underscore. -/
theorem digitValue?_lowerByte (b : UInt8) :
    digitValue? (Bytes.lowerByte b) = digitValue? b ∧ (Bytes.lowerByte b = 0x5F ↔ b = 0x5F) := by
  revert b
  exact Bytes.forall_of_fin (by decide +kernel)

theorem digits_map_lowerByte (base : Nat) (underscores : Bool) (max value : Nat) (s : Bytes) :
    digits base underscores max value (s.map Bytes.lowerByte) =
      digits base underscores max value s := by
  induction s generalizing value with
  | nil => rfl
  | cons b rest ih =>
      obtain ⟨hvalue, hskip⟩ := digitValue?_lowerByte b
      simp only [List.map_cons, digits, hvalue, hskip, ih]

theorem digitValue?_hexDigit {d : Nat} (h : d < 16) :
    digitValue? (Bytes.hexDigit d) = some d ∧ Bytes.hexDigit d ≠ 0x5F := by
  have hdigits : ∀ d : Fin 16,
      digitValue? (Bytes.hexDigit d) = some d.val ∧ Bytes.hexDigit d ≠ 0x5F := by
    decide
  exact hdigits ⟨d, h⟩

/-- The numeral of a number is read as the number if it is in range. -/
theorem digits_numeral {base : Nat} (hbase : 1 < base) (hsixteen : base ≤ 16) (underscores : Bool)
    (max n : Nat) :
    digits base underscores max 0 (Bytes.numeral base n) =
      if n ≤ max then .ok n else .error .outOfRange := by
  induction n using Nat.strongRecOn with
  | ind n ih =>
      have hlast : n % base < base := Nat.mod_lt n (by omega)
      have hsplit : n / base * base + n % base = n := Nat.div_add_mod' n base
      have hle : n / base ≤ n := Nat.div_le_self n base
      have hfront : digits base underscores max 0
          (if n < base then [] else Bytes.numeral base (n / base)) =
            if n / base ≤ max then .ok (n / base) else .error .outOfRange := by
        split
        next hsmall => simp [digits, Nat.div_eq_of_lt hsmall]
        next hlarge => exact ih (n / base) (Nat.div_lt_self (by omega) hbase)
      obtain ⟨hvalue, hskip⟩ := digitValue?_hexDigit (show n % base < 16 by omega)
      have hdigit : digits base underscores max (n / base) [Bytes.hexDigit (n % base)] =
          if n ≤ max then .ok n else .error .outOfRange := by
        have hfits : ¬ base ≤ n % base := by omega
        by_cases hn : n ≤ max
        · simp [digits, hskip, hvalue, hfits, hsplit, hn]
        · simp [digits, hskip, hvalue, hfits, hsplit, hn, Nat.lt_of_not_le hn]
      rw [Bytes.numeral_eq hbase hsixteen, digits_append, hfront]
      by_cases hrange : n / base ≤ max
      · rw [if_pos hrange]
        exact hdigit
      · rw [if_neg hrange, if_neg (by omega)]
        rfl

end Numeral

end DefinitionFiles
