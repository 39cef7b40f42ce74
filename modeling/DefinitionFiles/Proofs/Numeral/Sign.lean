import DefinitionFiles.Proofs.Numeral.Decimal
import DefinitionFiles.Proofs.Numeral.Literal
import Mathlib.Data.List.Induction
import Mathlib.Data.Nat.Digits.Lemmas

/-!
# Signs and decimal numerals

A sign may stand in front of an unsigned numeral. Exactly such texts are read whose numbers have the
wanted width, whatever the unsigned numerals are: literals, or decimal numerals with any number of
leading zeros. A decimal numeral that is no literal of its number has a leading zero.
-/

namespace DefinitionFiles

/-- The number with the given decimal digits, taken as digits of the given base. -/
def Bytes.valueIn (base : Nat) (digits : Bytes) : Nat :=
  Nat.ofDigits base (digits.reverse.map fun b => b.toNat - 0x30)

namespace Numeral

/-- Whether a text is a decimal numeral of a natural number, with any number of leading zeros. -/
def Decimal (n : Nat) (text : Bytes) : Prop :=
  text ≠ [] ∧ (∀ b ∈ text, Bytes.isDigit b = true) ∧ n = Bytes.valueIn 10 text

/-- Whether a text is that of an integer, given the texts of natural numbers: one of these with or
without a sign. -/
inductive Signed (Unsigned : Nat → Bytes → Prop) : Int → Bytes → Prop where
  | plain {n : Nat} {text : Bytes} (h : Unsigned n text) : Signed Unsigned n text
  | plus {n : Nat} {text : Bytes} (h : Unsigned n text) : Signed Unsigned n (0x2B :: text)
  | minus {n : Nat} {text : Bytes} (h : Unsigned n text) : Signed Unsigned (-n) (0x2D :: text)

/-! ## Signs -/

/-- Behind a minus sign a numeral is read as an unsigned one that has to fit the smaller range. -/
theorem signed_minus (bits : Nat) (unsigned : (max : Nat) → Bytes → Except NumeralError Nat)
    (rest : Bytes) :
    signed bits unsigned (0x2D :: rest) = unsigned (1 <<< bits - 1) rest >>= fun value =>
      if 1 <<< (bits - 1) < value then .error .outOfRange else pure (-value : Int) :=
  rfl

theorem signed_plus (bits : Nat) (unsigned : (max : Nat) → Bytes → Except NumeralError Nat)
    (rest : Bytes) :
    signed bits unsigned (0x2B :: rest) = unsigned (1 <<< bits - 1) rest >>= fun value =>
      if 1 <<< (bits - 1) ≤ value then .error .outOfRange else pure (value : Int) :=
  rfl

theorem bind_check_eq_ok_iff {r : Except NumeralError Nat} {tooLarge : Nat → Prop}
    [DecidablePred tooLarge] {withSign : Nat → Int} {n : Int} :
    (r >>= fun value => if tooLarge value then .error .outOfRange else pure (withSign value)) = .ok n ↔
      ∃ value, r = .ok value ∧ ¬ tooLarge value ∧ withSign value = n := by
  cases r with
  | error e => simp [bind, Except.bind]
  | ok value => by_cases h : tooLarge value <;> simp [h, bind, Except.bind, pure, Except.pure]

section Signs

variable {Unsigned : Nat → Bytes → Prop} {n : Int}

theorem signed_plus_iff (hsign : ∀ n b rest, Unsigned n (b :: rest) → b ≠ 0x2B ∧ b ≠ 0x2D)
    {rest : Bytes} :
    Signed Unsigned n (0x2B :: rest) ↔ ∃ value : Nat, Unsigned value rest ∧ (value : Int) = n := by
  constructor
  · intro h
    cases h with
    | plain h => exact absurd rfl (hsign _ _ _ h).1
    | plus h => exact ⟨_, h, rfl⟩
  · rintro ⟨value, h, rfl⟩
    exact .plus h

theorem signed_minus_iff (hsign : ∀ n b rest, Unsigned n (b :: rest) → b ≠ 0x2B ∧ b ≠ 0x2D)
    {rest : Bytes} :
    Signed Unsigned n (0x2D :: rest) ↔ ∃ value : Nat, Unsigned value rest ∧ -(value : Int) = n := by
  constructor
  · intro h
    cases h with
    | plain h => exact absurd rfl (hsign _ _ _ h).2
    | minus h => exact ⟨_, h, rfl⟩
  · rintro ⟨value, h, rfl⟩
    exact .minus h

theorem signed_plain_iff {text : Bytes} (hplus : ∀ rest, text ≠ 0x2B :: rest)
    (hminus : ∀ rest, text ≠ 0x2D :: rest) :
    Signed Unsigned n text ↔ ∃ value : Nat, Unsigned value text ∧ (value : Int) = n := by
  constructor
  · intro h
    cases h with
    | plain h => exact ⟨_, h, rfl⟩
    | plus => exact absurd rfl (hplus _)
    | minus => exact absurd rfl (hminus _)
  · rintro ⟨value, h, rfl⟩
    exact .plain h

/-- Exactly the texts with or without a sign are read whose numbers have the given width. -/
theorem signed_eq_ok_iff {unsigned : (max : Nat) → Bytes → Except NumeralError Nat}
    (hread : ∀ max n text, unsigned max text = .ok n ↔ Unsigned n text ∧ n ≤ max)
    (hsign : ∀ n b rest, Unsigned n (b :: rest) → b ≠ 0x2B ∧ b ≠ 0x2D) {bits : Nat} (hbits : 0 < bits)
    {text : Bytes} :
    signed bits unsigned text = .ok n ↔
      Signed Unsigned n text ∧ -2 ^ (bits - 1) ≤ n ∧ n < 2 ^ (bits - 1) := by
  have hdouble : 1 <<< bits = 2 * 1 <<< (bits - 1) := by
    rw [Nat.shiftLeft_eq, Nat.shiftLeft_eq, ← Nat.sub_add_cancel hbits, Nat.pow_succ]
    simp [Nat.mul_comm]
  have hlimit : (2 : Int) ^ (bits - 1) = (1 <<< (bits - 1) : Nat) := by simp [Nat.shiftLeft_eq]
  have hpos : 0 < 1 <<< (bits - 1) := by simp [Nat.shiftLeft_eq]
  have hnonneg : ∀ rest, (∃ value, unsigned (1 <<< bits - 1) rest = .ok value ∧
      ¬ 1 <<< (bits - 1) ≤ value ∧ (value : Int) = n) ↔
        (∃ value : Nat, Unsigned value rest ∧ (value : Int) = n) ∧
          -(1 <<< (bits - 1) : Nat) ≤ n ∧ n < (1 <<< (bits - 1) : Nat) := by
    intro rest
    constructor
    · rintro ⟨value, hvalue, hsmall, rfl⟩
      exact ⟨⟨value, ((hread _ _ _).mp hvalue).1, rfl⟩, by omega, by omega⟩
    · rintro ⟨⟨value, hvalue, rfl⟩, -, hsmall⟩
      exact ⟨value, (hread _ _ _).mpr ⟨hvalue, by omega⟩, by omega, rfl⟩
  rw [hlimit]
  by_cases hplus : ∃ rest, text = 0x2B :: rest
  · obtain ⟨rest, rfl⟩ := hplus
    rw [signed_plus, bind_check_eq_ok_iff, signed_plus_iff hsign, hnonneg]
  by_cases hminus : ∃ rest, text = 0x2D :: rest
  · obtain ⟨rest, rfl⟩ := hminus
    rw [signed_minus, bind_check_eq_ok_iff, signed_minus_iff hsign]
    constructor
    · rintro ⟨value, hvalue, hsmall, rfl⟩
      exact ⟨⟨value, ((hread _ _ _).mp hvalue).1, rfl⟩, by omega, by omega⟩
    · rintro ⟨⟨value, hvalue, rfl⟩, hsmall, -⟩
      exact ⟨value, (hread _ _ _).mpr ⟨hvalue, by omega⟩, by omega, rfl⟩
  have hplus : ∀ rest, text ≠ 0x2B :: rest := fun rest h => hplus ⟨rest, h⟩
  have hminus : ∀ rest, text ≠ 0x2D :: rest := fun rest h => hminus ⟨rest, h⟩
  rw [signed_of_no_sign bits unsigned hplus hminus, bind_check_eq_ok_iff,
    signed_plain_iff hplus hminus, hnonneg]

end Signs

/-- A literal starts with a digit. -/
theorem Literal.isDigit {n : Nat} {b : UInt8} {rest : Bytes} (h : Literal n (b :: rest)) :
    Bytes.isDigit b = true := by
  cases h with
  | decimal hb hd => simpa using knows false (Nat.le_refl 10) b _ hb hd
  | octal => rfl
  | marked => rfl

theorem integer_eq_ok_iff {bits : Nat} (hbits : 0 < bits) {n : Int} {text : Bytes} :
    integer bits text = .ok n ↔ Signed Literal n text ∧ -2 ^ (bits - 1) ≤ n ∧ n < 2 ^ (bits - 1) := by
  have hread : ∀ max n text, natural max text = .ok n ↔ Literal n text ∧ n ≤ max :=
    fun _ _ _ => natural_eq_ok_iff
  exact signed_eq_ok_iff hread (fun _ _ _ h => ne_sign_of_isDigit h.isDigit) hbits

theorem Signed.unique {n m : Int} {text : Bytes} (hn : Signed Literal n text)
    (hm : Signed Literal m text) : n = m := by
  -- Both are read as one integer by a reader whose range has them.
  obtain ⟨width, hwidth⟩ : ∃ width, n.natAbs + m.natAbs < 2 ^ width := ⟨_, Nat.lt_two_pow_self⟩
  have hlimit : (2 : Int) ^ width = (2 ^ width : Nat) := by simp
  have hread : ∀ k, Signed Literal k text → k.natAbs ≤ n.natAbs + m.natAbs →
      integer (width + 1) text = .ok k := by
    intro k hk hle
    rw [integer_eq_ok_iff (by omega : 0 < width + 1), Nat.add_sub_cancel, hlimit]
    exact ⟨hk, by omega, by omega⟩
  have hsame := (hread n hn (Nat.le_add_right _ _)).symm.trans (hread m hm (Nat.le_add_left _ _))
  exact Except.ok.inj hsame

/-! ## Decimal numerals -/

theorem digitValue?_of_isDigit {b : UInt8} (h : Bytes.isDigit b = true) :
    digitValue? b = some (b.toNat - 0x30) ∧ b.toNat - 0x30 < 10 := by
  have hb := h
  simp only [Bytes.isDigit, Bool.and_eq_true, decide_eq_true_eq, UInt8.le_iff_toNat_le,
    UInt8.reduceToNat] at hb
  exact ⟨by simp [digitValue?, h], by omega⟩

theorem Extends.concat {base value n d : Nat} {s : Bytes} {b : UInt8} (h : Extends base value s n)
    (hb : digitValue? b = some d) (hd : d < base) : Extends base value (s ++ [b]) (n * base + d) := by
  induction h with
  | nil => exact .digit hb hd .nil
  | digit hother hlt _ ih => exact .digit hother hlt ih
  | underscore hother hlt _ ih => exact .underscore hother hlt ih

theorem Extends.unique {base value n m : Nat} {s : Bytes} (hbase : 0 < base)
    (hn : Extends base value s n) (hm : Extends base value s m) : n = m := by
  have hread := (hn.digits_eq hbase (Nat.le_max_left n m)).symm.trans
    (hm.digits_eq hbase (Nat.le_max_right n m))
  exact Except.ok.inj hread

theorem valueIn_concat (base : Nat) (s : Bytes) (b : UInt8) :
    Bytes.valueIn base (s ++ [b]) = b.toNat - 0x30 + base * Bytes.valueIn base s := by
  simp [Bytes.valueIn, Nat.ofDigits_cons]

/-- Decimal digits that are all digits of a base extend zero to their value in that base. -/
theorem extends_valueIn {base : Nat} {s : Bytes}
    (h : ∀ b ∈ s, Bytes.isDigit b = true ∧ b.toNat - 0x30 < base) :
    Extends base 0 s (Bytes.valueIn base s) := by
  induction s using List.reverseRecOn with
  | nil => exact .nil
  | append_singleton s b ih =>
      obtain ⟨hs, hb⟩ := List.forall_mem_append.mp h
      obtain ⟨hdigit, hlt⟩ := hb b List.mem_cons_self
      have hconcat := (ih hs).concat (digitValue?_of_isDigit hdigit).1 hlt
      rwa [valueIn_concat, Nat.add_comm, Nat.mul_comm]

theorem extends_decimal_iff {n : Nat} {s : Bytes} (h : ∀ b ∈ s, Bytes.isDigit b = true) :
    Extends 10 0 s n ↔ n = Bytes.valueIn 10 s := by
  have hvalue : Extends 10 0 s (Bytes.valueIn 10 s) :=
    extends_valueIn fun b hb => ⟨h b hb, (digitValue?_of_isDigit (h b hb)).2⟩
  constructor
  · intro hn
    exact hn.unique (by decide) hvalue
  · rintro rfl
    exact hvalue

/-- Without underscores the reader takes what it takes with them, unless there are any. -/
theorem digits_plain_eq_ok_iff {base max value n : Nat} {s : Bytes} :
    digits base false max value s = .ok n ↔ 0x5F ∉ s ∧ digits base true max value s = .ok n := by
  induction s generalizing value with
  | nil => simp [digits]
  | cons b rest ih =>
      by_cases hb : b = 0x5F
      · subst hb
        simp [digits, digitValue?_underscore]
      · cases hdigit : digitValue? b with
        | none => simp [digits, hb, hdigit]
        | some d =>
            have hne : ¬ 0x5F = b := fun h => hb h.symm
            by_cases hd : base ≤ d
            · simp [digits, hb, hdigit, hd]
            · by_cases hmax : max < value * base + d
              · simp [digits, hb, hdigit, hd, hmax]
              · simp [digits, hb, hdigit, hd, hmax, hne, ih]

/-- Exactly the decimal numerals are read, up to the greatest number in range. -/
theorem decimalNatural_eq_ok_iff {max n : Nat} {text : Bytes} :
    decimalNatural max text = .ok n ↔ Decimal n text ∧ n ≤ max := by
  have hknows : Knows false 10 := knows false (by decide)
  rw [decimalNatural, naturalIn]
  by_cases hne : text = []
  · simp [hne, Decimal]
  rw [if_neg hne, digits_plain_eq_ok_iff]
  constructor
  · rintro ⟨hplain, hread⟩
    have hfit : underscoresFit false .digit text = true :=
      underscoresFit_of_notMem hplain (by decide)
    obtain ⟨hextends, hmax⟩ :=
      (digits_and_fit_iff (by decide) hknows (Nat.zero_le max)).mp ⟨hread, hfit⟩
    have hdigits : ∀ b ∈ text, Bytes.isDigit b = true := by
      intro b hb
      rcases hextends.digit_of_mem hb with rfl | ⟨d, hdigit, hd⟩
      · exact absurd hb hplain
      · simpa using hknows b d hdigit hd
    exact ⟨⟨hne, hdigits, (extends_decimal_iff hdigits).mp hextends⟩, hmax⟩
  · rintro ⟨⟨-, hdigits, rfl⟩, hmax⟩
    refine ⟨fun hb => ?_, ((extends_decimal_iff hdigits).mpr rfl).digits_eq (by decide) hmax⟩
    cases hdigits 0x5F hb

theorem decimalInteger_eq_ok_iff {n : Int} {text : Bytes} :
    decimalInteger text = .ok n ↔ Signed Decimal n text ∧ -2 ^ 63 ≤ n ∧ n < 2 ^ 63 := by
  have hread : ∀ max n text, decimalNatural max text = .ok n ↔ Decimal n text ∧ n ≤ max :=
    fun _ _ _ => decimalNatural_eq_ok_iff
  refine signed_eq_ok_iff hread (fun n b rest h => ?_) (by decide)
  exact ne_sign_of_isDigit (h.2.1 b List.mem_cons_self)

/-! ## Decimal numerals as literals -/

/-- Octal digits mean another number than the same decimal ones, unless the number has one digit
only. -/
theorem valueIn_eight_eq_iff {text : Bytes} (hsmall : ∀ b ∈ text, b ≤ 0x37) :
    Bytes.valueIn 8 text = Bytes.valueIn 10 text ↔ Bytes.valueIn 10 text < 8 := by
  rcases List.eq_nil_or_concat text with rfl | ⟨front, b, rfl⟩
  · decide
  · have hb := UInt8.le_iff_toNat_le.mp (hsmall b (by simp))
    have hfront : Bytes.valueIn 8 front ≤ Bytes.valueIn 10 front :=
      Nat.ofDigits_monotone _ (by decide)
    simp only [List.concat_eq_append, valueIn_concat, UInt8.reduceToNat] at hb ⊢
    omega

section Digits

variable {text : Bytes} (hdigits : ∀ b ∈ text, Bytes.isDigit b = true)

include hdigits

/-- Without a leading zero a decimal numeral is a literal of its number. -/
theorem literal_of_head?_ne (hne : text ≠ []) (hzero : text.head? ≠ some 0x30) :
    Literal (Bytes.valueIn 10 text) text := by
  obtain ⟨b, rest, rfl⟩ := List.exists_cons_of_ne_nil hne
  have hextends := (extends_decimal_iff hdigits).mpr rfl
  obtain ⟨hdigit, hd⟩ := digitValue?_of_isDigit (hdigits b List.mem_cons_self)
  rw [extends_cons_iff hdigit hd, Nat.zero_mul, Nat.zero_add] at hextends
  exact .decimal hdigit hd (by simpa using hzero) hextends

/-- Behind a leading zero the digits of a numeral count as octal ones. -/
theorem literal_of_head?_eq (hzero : text.head? = some 0x30) (hsmall : ∀ b ∈ text, b ≤ 0x37) :
    Literal (Bytes.valueIn 8 text) text := by
  have hextends : Extends 8 0 text (Bytes.valueIn 8 text) := by
    refine extends_valueIn fun b hb => ⟨hdigits b hb, ?_⟩
    have hle := UInt8.le_iff_toNat_le.mp (hsmall b hb)
    simp only [UInt8.reduceToNat] at hle
    omega
  obtain ⟨rest, rfl⟩ := List.head?_eq_some_iff.mp hzero
  have hleading : digitValue? 0x30 = some 0 := by decide
  rw [extends_cons_iff hleading (by decide)] at hextends
  exact .octal hextends

/-- Behind a leading zero there must be no eight and no nine. -/
theorem not_literal_of_head?_eq (hzero : text.head? = some 0x30) {b : UInt8} (hb : b ∈ text)
    (hlarge : 0x37 < b) (n : Nat) : ¬ Literal n text := by
  intro h
  obtain ⟨rest, rfl⟩ := List.head?_eq_some_iff.mp hzero
  cases h with
  | decimal _ _ hne => exact absurd rfl hne
  | octal hrest =>
      have hbehind : b ∈ rest := by
        rcases List.mem_cons.mp hb with rfl | hbehind
        · exact absurd hlarge (by decide)
        · exact hbehind
      have hvalue := (digitValue?_of_isDigit (hdigits b hb)).1
      rcases hrest.digit_of_mem hbehind with rfl | ⟨d, hdigit, hd⟩
      · cases hdigits _ hb
      · have hlt := UInt8.lt_iff_toNat_lt.mp hlarge
        simp only [UInt8.reduceToNat] at hlt
        cases hvalue.symm.trans hdigit
        omega
  | marked hmark =>
      cases (digitValue?_mark hmark).1.symm.trans (hdigits _ (by simp))

theorem not_signed_of_head?_eq (hzero : text.head? = some 0x30) {b : UInt8} (hb : b ∈ text)
    (hlarge : 0x37 < b) (n : Int) : ¬ Signed Literal n text := by
  intro h
  cases h with
  | plain h => exact not_literal_of_head?_eq hdigits hzero hb hlarge _ h
  | plus => cases hzero
  | minus => cases hzero

end Digits

/-! ## Literals as decimal and hexadecimal numerals -/

/-- Whether a text is a decimal numeral, or `0x` and hexadecimal digits. -/
inductive IsPlain : Bytes → Prop where
  | decimal {text : Bytes} (hne : text ≠ []) (hdigits : ∀ b ∈ text, Bytes.isDigit b = true) :
      IsPlain text
  | hexadecimal {mark : UInt8} {rest : Bytes} (hmark : Bytes.lowerByte mark = 0x78) (hne : rest ≠ [])
      (hdigits : ∀ b ∈ rest, (Bytes.hexValue? b).isSome = true) : IsPlain (0x30 :: mark :: rest)

/-- Whether a text starts with the mark of a binary or an octal literal. -/
def HasRareMark (text : Bytes) : Prop :=
  ∃ mark rest, text = 0x30 :: mark :: rest ∧
    (Bytes.lowerByte mark = 0x62 ∨ Bytes.lowerByte mark = 0x6F)

/-- What stands behind the sign, if there is one. -/
def unsignedPart (text : Bytes) : Bytes :=
  match text with
  | 0x2B :: rest => rest
  | 0x2D :: rest => rest
  | _ => text

theorem Extends.isDigit_of_mem {base value n : Nat} {hex : Bool} (hknows : Knows hex base) {s : Bytes}
    (h : Extends base value s n) (hplain : 0x5F ∉ s) {b : UInt8} (hb : b ∈ s) :
    Bytes.isDigit b = true ∨ hex = true ∧ (Bytes.hexValue? b).isSome = true := by
  rcases h.digit_of_mem hb with rfl | ⟨d, hdigit, hd⟩
  · exact absurd hb hplain
  · exact hknows b d hdigit hd

theorem isSome_hexValue?_of_isDigit {b : UInt8} (h : Bytes.isDigit b = true) :
    (Bytes.hexValue? b).isSome = true := by
  rw [Bytes.isDigit] at h
  rw [Bytes.hexValue?, if_pos h, Option.isSome_some]

/-- A literal without underscores and without a mark of a rare base is a plain numeral. -/
theorem Literal.isPlain {n : Nat} {text : Bytes} (h : Literal n text) (hplain : 0x5F ∉ text)
    (hmark : ¬ HasRareMark text) : IsPlain text := by
  cases h with
  | @decimal d b rest hb hd _ hrest =>
      have hknows : Knows false 10 := knows false (by decide)
      have hbehind : 0x5F ∉ rest := fun hmem => hplain (List.mem_cons_of_mem _ hmem)
      refine .decimal (List.cons_ne_nil _ _) (List.forall_mem_cons.mpr ⟨?_, fun c hc => ?_⟩)
      · simpa using hknows b d hb hd
      · simpa using hrest.isDigit_of_mem hknows hbehind hc
  | @octal rest hrest =>
      have hknows : Knows false 8 := knows false (by decide)
      have hbehind : 0x5F ∉ rest := fun hmem => hplain (List.mem_cons_of_mem _ hmem)
      refine .decimal (List.cons_ne_nil _ _) (List.forall_mem_cons.mpr ⟨rfl, fun c hc => ?_⟩)
      simpa using hrest.isDigit_of_mem hknows hbehind hc
  | @marked mark base rest hother hne hrest =>
      have hbehind : 0x5F ∉ rest := fun hmem =>
        hplain (List.mem_cons_of_mem _ (List.mem_cons_of_mem _ hmem))
      rcases mem_marks_iff.mp hother with ⟨hlower, -⟩ | ⟨hlower, -⟩ | ⟨hlower, rfl⟩
      · exact absurd ⟨mark, rest, rfl, .inl hlower⟩ hmark
      · exact absurd ⟨mark, rest, rfl, .inr hlower⟩ hmark
      · have hknows : Knows true 16 := knows true (by decide)
        refine .hexadecimal hlower hne fun b hb => ?_
        rcases hrest.isDigit_of_mem hknows hbehind hb with hdigit | ⟨-, hhex⟩
        · exact isSome_hexValue?_of_isDigit hdigit
        · exact hhex

theorem unsignedPart_of_isDigit {b : UInt8} (h : Bytes.isDigit b = true) (rest : Bytes) :
    unsignedPart (b :: rest) = b :: rest := by
  obtain ⟨hplus, hminus⟩ := ne_sign_of_isDigit h
  simp [unsignedPart, hplus, hminus]

theorem Signed.isPlain {n : Int} {text : Bytes} (h : Signed Literal n text) (hplain : 0x5F ∉ text)
    (hmark : ¬ HasRareMark (unsignedPart text)) : IsPlain (unsignedPart text) := by
  cases h with
  | @plain n text h =>
      have hpart : unsignedPart text = text := by
        cases text with
        | nil => rfl
        | cons b rest => exact unsignedPart_of_isDigit h.isDigit rest
      rw [hpart] at hmark ⊢
      exact h.isPlain hplain hmark
  | plus h => exact h.isPlain (fun hmem => hplain (List.mem_cons_of_mem _ hmem)) hmark
  | minus h => exact h.isPlain (fun hmem => hplain (List.mem_cons_of_mem _ hmem)) hmark

end Numeral

end DefinitionFiles
