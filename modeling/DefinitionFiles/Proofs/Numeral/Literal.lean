import DefinitionFiles.Proofs.Numeral.Base

/-!
# Integer literals

What is read as an integer is a literal, behind a sign if the integer may have one: decimal without a
leading zero, octal behind a zero, or binary, octal or hexadecimal behind `0b`, `0o` or `0x`. A single
underscore may stand in front of every digit but the first character of the literal. A text without
underscores and without the marks `b` and `o` is thus a decimal or a hexadecimal numeral, but a decimal
numeral with a leading zero is read in base eight.
-/

namespace DefinitionFiles

namespace Numeral

/-- Whether digits of a base, each with at most one underscore in front of it, take the number read
before them to the one read with them. -/
inductive Extends (base : Nat) : (before : Nat) → (digits : Bytes) → (after : Nat) → Prop where
  | nil {n : Nat} : Extends base n [] n
  | digit {n m d : Nat} {b : UInt8} {rest : Bytes} (hb : digitValue? b = some d) (hd : d < base)
      (hrest : Extends base (n * base + d) rest m) : Extends base n (b :: rest) m
  | underscore {n m d : Nat} {b : UInt8} {rest : Bytes} (hb : digitValue? b = some d) (hd : d < base)
      (hrest : Extends base (n * base + d) rest m) : Extends base n (0x5F :: b :: rest) m

/-- The marks of the bases that can be named in a literal, in lower case. -/
def marks : List (UInt8 × Nat) :=
  [(0x62, 2), (0x6F, 8), (0x78, 16)]

/-- Whether a text is a literal of a natural number. -/
inductive Literal (n : Nat) : Bytes → Prop where
  | decimal {d : Nat} {b : UInt8} {rest : Bytes} (hb : digitValue? b = some d) (hd : d < 10)
      (hzero : b ≠ 0x30) (hrest : Extends 10 d rest n) : Literal n (b :: rest)
  | octal {rest : Bytes} (hrest : Extends 8 0 rest n) : Literal n (0x30 :: rest)
  | marked {mark : UInt8} {base : Nat} {rest : Bytes} (hmark : (Bytes.lowerByte mark, base) ∈ marks)
      (hne : rest ≠ []) (hrest : Extends base 0 rest n) : Literal n (0x30 :: mark :: rest)

/-! ## Digits and underscores -/

theorem digitValue?_underscore : digitValue? 0x5F = none := by decide

section Reading

variable {base max value n : Nat} {s : Bytes}

theorem Extends.le (hbase : 0 < base) (h : Extends base value s n) : value ≤ n := by
  induction h with
  | nil => exact Nat.le_refl _
  | digit _ _ _ ih | underscore _ _ _ ih =>
      exact Nat.le_trans (Nat.le_trans (Nat.le_mul_of_pos_right _ hbase) (Nat.le_add_right _ _)) ih

theorem Extends.digit_of_mem (h : Extends base value s n) {b : UInt8} (hb : b ∈ s) :
    b = 0x5F ∨ ∃ d, digitValue? b = some d ∧ d < base := by
  induction h with
  | nil => cases hb
  | digit hdigit hd _ ih =>
      rcases List.mem_cons.mp hb with rfl | hb
      · exact .inr ⟨_, hdigit, hd⟩
      · exact ih hb
  | underscore hdigit hd _ ih =>
      rcases List.mem_cons.mp hb with rfl | hb
      · exact .inl rfl
      rcases List.mem_cons.mp hb with rfl | hb
      · exact .inr ⟨_, hdigit, hd⟩
      · exact ih hb

theorem le_of_digits (hvalue : value ≤ max) (h : digits base true max value s = .ok n) : n ≤ max := by
  fun_induction digits base true max value s with
  | case1 => cases h; exact hvalue
  | case2 _ _ _ _ ih => exact ih hvalue h
  | case3 => cases h
  | case4 => cases h
  | case5 => cases h
  | case6 value b rest hskip d hdigit hbase hmax ih => exact ih (Nat.le_of_not_lt hmax) h

theorem digits_cons {b : UInt8} {d : Nat} (hb : digitValue? b = some d) (hd : d < base) (rest : Bytes) :
    digits base true max value (b :: rest) =
      if max < value * base + d then .error .outOfRange
      else digits base true max (value * base + d) rest := by
  have hplain : b ≠ 0x5F := by
    rintro rfl
    cases digitValue?_underscore.symm.trans hb
  simp [digits, hplain, hb, Nat.not_le.mpr hd]

theorem digits_of_not_digit {b : UInt8} {rest : Bytes} (hb : b ≠ 0x5F)
    (h : ∀ d, digitValue? b = some d → base ≤ d) :
    digits base true max value (b :: rest) = .error .malformed := by
  cases hdigit : digitValue? b with
  | none => simp [digits, hb, hdigit]
  | some d => simp [digits, hb, hdigit, h d hdigit]

theorem extends_cons_iff {b : UInt8} {d : Nat} {rest : Bytes} (hb : digitValue? b = some d)
    (hd : d < base) : Extends base value (b :: rest) n ↔ Extends base (value * base + d) rest n := by
  refine ⟨fun h => ?_, fun h => .digit hb hd h⟩
  cases h with
  | digit hother _ hrest =>
      cases hb.symm.trans hother
      exact hrest
  | underscore => cases digitValue?_underscore.symm.trans hb

theorem Extends.digits_eq (hbase : 0 < base) (h : Extends base value s n) (hmax : n ≤ max) :
    digits base true max value s = .ok n := by
  induction h with
  | nil => rfl
  | digit hb hd hrest ih =>
      have hle := Nat.le_trans (hrest.le hbase) hmax
      rw [digits_cons hb hd, if_neg (Nat.not_lt.mpr hle), ih hmax]
  | @underscore value _ d b rest hb hd hrest ih =>
      have hskip : digits base true max value (0x5F :: b :: rest) =
          digits base true max value (b :: rest) := by
        rw [digits, if_pos (by decide)]
      have hle := Nat.le_trans (hrest.le hbase) hmax
      rw [hskip, digits_cons hb hd, if_neg (Nat.not_lt.mpr hle), ih hmax]

/-- Whether the check of underscores knows the digits of a base. -/
def Knows (hex : Bool) (base : Nat) : Prop :=
  ∀ b d, digitValue? b = some d → d < base →
    Bytes.isDigit b = true ∨ hex = true ∧ (Bytes.hexValue? b).isSome = true

theorem knows (hex : Bool) (hbase : base ≤ if hex then 16 else 10) : Knows hex base := by
  have hbytes : ∀ b : UInt8, ∀ d ∈ digitValue? b,
      (d < 10 → Bytes.isDigit b = true) ∧ (d < 16 → (Bytes.hexValue? b).isSome = true) :=
    Bytes.forall_of_fin (by decide +kernel)
  intro b d hb hd
  obtain ⟨hdecimal, hhex⟩ := hbytes b d hb
  cases hex with
  | false => exact .inl (hdecimal (Nat.lt_of_lt_of_le hd hbase))
  | true => exact .inr ⟨rfl, hhex (Nat.lt_of_lt_of_le hd hbase)⟩

theorem underscoresFit_digit {hex : Bool} {b : UInt8}
    (h : Bytes.isDigit b = true ∨ hex = true ∧ (Bytes.hexValue? b).isSome = true) (before : Before)
    (rest : Bytes) : underscoresFit hex before (b :: rest) = underscoresFit hex .digit rest := by
  rw [underscoresFit, if_pos (by simpa using h)]

theorem underscoresFit_underscore (hex : Bool) (before : Before) (rest : Bytes) :
    underscoresFit hex before (0x5F :: rest) =
      (before == .digit && underscoresFit hex .underscore rest) := by
  have hplain : (Bytes.isDigit 0x5F || hex && (Bytes.hexValue? 0x5F).isSome) = false := by
    cases hex <;> decide
  rw [underscoresFit, hplain]
  rfl

theorem underscoresFit_of_notMem {hex : Bool} {before : Before} (h : 0x5F ∉ s)
    (hbefore : before ≠ .underscore) : underscoresFit hex before s = true := by
  induction s generalizing before with
  | nil => simpa [underscoresFit] using hbefore
  | cons b rest ih =>
      obtain ⟨hb, hrest⟩ := not_or.mp (mt List.mem_cons.mpr h)
      have hb : b ≠ 0x5F := fun heq => hb heq.symm
      rw [underscoresFit]
      split
      next => exact ih hrest (by decide)
      next => simpa [hb, hbefore] using ih hrest (by decide)

theorem Extends.underscoresFit_eq {hex : Bool} (hknows : Knows hex base)
    (h : Extends base value s n) : underscoresFit hex .digit s = true := by
  induction h with
  | nil => rfl
  | digit hb hd hrest ih => rw [underscoresFit_digit (hknows _ _ hb hd), ih]
  | underscore hb hd hrest ih =>
      rw [underscoresFit_underscore, underscoresFit_digit (hknows _ _ hb hd), ih]
      rfl

/-- What the reader takes, with its underscores where they may stand, are digits that extend the
number. An underscore read last belongs to the digit behind it. -/
theorem extends_of_digits {hex : Bool} (hknows : Knows hex base) {before : Before}
    (hread : digits base true max value s = .ok n) (hfit : underscoresFit hex before s = true) :
    (before = .digit → Extends base value s n) ∧
      (before = .underscore → Extends base value (0x5F :: s) n) := by
  induction s generalizing value before with
  | nil =>
      cases hread
      refine ⟨fun _ => .nil, ?_⟩
      rintro rfl
      cases hfit
  | cons b rest ih =>
      by_cases hb : b = 0x5F
      · subst hb
        have hskip : digits base true max value rest = .ok n := by
          rwa [digits, if_pos (by decide)] at hread
        rw [underscoresFit_underscore, Bool.and_eq_true, beq_iff_eq] at hfit
        refine ⟨fun _ => (ih hskip hfit.2).2 rfl, ?_⟩
        rintro rfl
        cases hfit.1
      · by_cases hdigit : ∃ d, digitValue? b = some d ∧ d < base
        · obtain ⟨d, hvalue, hd⟩ := hdigit
          rw [digits_cons hvalue hd] at hread
          rw [underscoresFit_digit (hknows b d hvalue hd)] at hfit
          split at hread
          next => cases hread
          next =>
            have hrest := (ih hread hfit).1 rfl
            exact ⟨fun _ => .digit hvalue hd hrest, fun _ => .underscore hvalue hd hrest⟩
        · have hrefused : ∀ d, digitValue? b = some d → base ≤ d :=
            fun d hvalue => Nat.le_of_not_lt fun hd => hdigit ⟨d, hvalue, hd⟩
          cases (digits_of_not_digit hb hrefused).symm.trans hread

theorem digits_and_fit_iff {hex : Bool} (hbase : 0 < base) (hknows : Knows hex base)
    (hvalue : value ≤ max) :
    (digits base true max value s = .ok n ∧ underscoresFit hex .digit s = true) ↔
      Extends base value s n ∧ n ≤ max := by
  constructor
  · rintro ⟨hread, hfit⟩
    exact ⟨(extends_of_digits hknows hread hfit).1 rfl, le_of_digits hvalue hread⟩
  · rintro ⟨hextends, hmax⟩
    exact ⟨hextends.digits_eq hbase hmax, hextends.underscoresFit_eq hknows⟩

end Reading

/-! ## Literals of natural numbers -/

theorem hasFittingUnderscores_of_notMem {text : Bytes} (h : 0x5F ∉ text) :
    hasFittingUnderscores text = true := by
  cases text with
  | nil => rfl
  | cons b rest =>
      have hunsigned : 0x5F ∉ if b = 0x2B || b = 0x2D then rest else b :: rest := by
        split
        next => exact fun hmem => h (List.mem_cons_of_mem _ hmem)
        next => exact h
      unfold hasFittingUnderscores
      dsimp only
      generalize (if b = 0x2B || b = 0x2D then rest else b :: rest) = body at hunsigned
      split
      next mark rest =>
        have hrest : 0x5F ∉ rest := fun hmem =>
          hunsigned (List.mem_cons_of_mem _ (List.mem_cons_of_mem _ hmem))
        split
        next => exact underscoresFit_of_notMem hrest (by decide)
        next => exact underscoresFit_of_notMem hunsigned (by decide)
      next => exact underscoresFit_of_notMem hunsigned (by decide)

theorem natural_eq_ok_iff_digits {max n : Nat} {text : Bytes} (hne : text ≠ []) :
    natural max text = .ok n ↔
      digits (baseOf text).1 true max 0 (baseOf text).2 = .ok n ∧
        hasFittingUnderscores text = true := by
  rw [natural, if_neg hne]
  cases hread : digits (baseOf text).1 true max 0 (baseOf text).2 with
  | error e => simp [hread, bind, Except.bind]
  | ok value =>
      simp only [hread, bind, Except.bind]
      by_cases hfit : hasFittingUnderscores text = true
      · simp [hfit, pure, Except.pure]
      · have hmem : 0x5F ∈ text := by
          by_contra hnot
          exact hfit (hasFittingUnderscores_of_notMem hnot)
        simp [hfit, hmem]

/-- A literal starts with no zero, or with the mark of its base, or with a zero only. -/
theorem front_cases {text : Bytes} (hne : text ≠ []) :
    (∃ b rest, text = b :: rest ∧ b ≠ 0x30) ∨
      (∃ mark base rest, text = 0x30 :: mark :: rest ∧ (Bytes.lowerByte mark, base) ∈ marks ∧
        rest ≠ []) ∨
      ∃ rest, text = 0x30 :: rest ∧
        ∀ mark base more, rest = mark :: more → (Bytes.lowerByte mark, base) ∈ marks → more = [] := by
  obtain ⟨b, rest, rfl⟩ := List.exists_cons_of_ne_nil hne
  by_cases hb : b = 0x30
  · subst hb
    by_cases hmarked : ∃ mark base more, rest = mark :: more ∧
        (Bytes.lowerByte mark, base) ∈ marks ∧ more ≠ []
    · obtain ⟨mark, base, more, rfl, hmark, hmore⟩ := hmarked
      exact .inr (.inl ⟨mark, base, more, rfl, hmark, hmore⟩)
    · refine .inr (.inr ⟨rest, rfl, ?_⟩)
      intro mark base more hrest hmark
      by_contra hmore
      exact hmarked ⟨mark, base, more, hrest, hmark, hmore⟩
  · exact .inl ⟨b, rest, rfl, hb⟩

section Fronts

variable {mark : UInt8} {base : Nat} {rest : Bytes}

theorem mem_marks_iff {b : UInt8} :
    (b, base) ∈ marks ↔ b = 0x62 ∧ base = 2 ∨ b = 0x6F ∧ base = 8 ∨ b = 0x78 ∧ base = 16 := by
  simp [marks]

theorem base_unique {b : UInt8} {other : Nat} (h : (b, base) ∈ marks) (hother : (b, other) ∈ marks) :
    base = other := by
  rw [mem_marks_iff] at h hother
  rcases h with ⟨rfl, rfl⟩ | ⟨rfl, rfl⟩ | ⟨rfl, rfl⟩ <;> simpa [eq_comm] using hother

theorem baseOf_decimalFront {b : UInt8} (hb : b ≠ 0x30) (rest : Bytes) :
    baseOf (b :: rest) = (10, b :: rest) := by
  unfold baseOf
  split
  next heq => exact absurd (List.cons.inj heq).1 hb
  next heq => exact absurd (List.cons.inj heq).1 hb
  next => rfl

theorem baseOf_marked (hmark : (Bytes.lowerByte mark, base) ∈ marks) (hne : rest ≠ []) :
    baseOf (0x30 :: mark :: rest) = (base, rest) := by
  obtain ⟨b, rest, rfl⟩ := List.exists_cons_of_ne_nil hne
  rcases mem_marks_iff.mp hmark with ⟨hlower, rfl⟩ | ⟨hlower, rfl⟩ | ⟨hlower, rfl⟩ <;>
    simp [baseOf, hlower]

theorem hasFittingUnderscores_digit {b : UInt8} (hb : b ≠ 0x30) (hdigit : Bytes.isDigit b = true) :
    hasFittingUnderscores (b :: rest) = underscoresFit false .digit (b :: rest) := by
  have hsign : ¬ (b = 0x2B ∨ b = 0x2D) := by
    rintro (rfl | rfl) <;> cases hdigit
  simp [hasFittingUnderscores, hb, hsign, underscoresFit_digit (.inl hdigit)]

theorem hasFittingUnderscores_marked (hmark : (Bytes.lowerByte mark, base) ∈ marks) :
    hasFittingUnderscores (0x30 :: mark :: rest) = underscoresFit (base == 16) .digit rest := by
  rcases mem_marks_iff.mp hmark with ⟨hlower, rfl⟩ | ⟨hlower, rfl⟩ | ⟨hlower, rfl⟩ <;>
    simp [hasFittingUnderscores, hlower]

/-- A mark is no digit in the base that it stands for a digit of. -/
theorem digitValue?_mark (hmark : (Bytes.lowerByte mark, base) ∈ marks) :
    Bytes.isDigit mark = false ∧ mark ≠ 0x5F ∧ ∀ d, digitValue? mark = some d → 10 ≤ d := by
  have hbytes : ∀ mark : UInt8, (∃ entry ∈ marks, entry.1 = Bytes.lowerByte mark) →
      Bytes.isDigit mark = false ∧ mark ≠ 0x5F ∧ ∀ d ∈ digitValue? mark, 10 ≤ d :=
    Bytes.forall_of_fin (by decide +kernel)
  exact hbytes mark ⟨_, hmark, rfl⟩

theorem underscoresFit_mark (hmark : (Bytes.lowerByte mark, base) ∈ marks) :
    underscoresFit false .digit [mark] = true := by
  obtain ⟨-, hplain, -⟩ := digitValue?_mark hmark
  exact underscoresFit_of_notMem (by simpa using hplain.symm) (by decide)

theorem unmarked (h : ∀ mark base more, rest = mark :: more →
    (Bytes.lowerByte mark, base) ∈ marks → more = []) :
    baseOf (0x30 :: rest) = (8, rest) ∧
      hasFittingUnderscores (0x30 :: rest) = underscoresFit false .digit rest := by
  cases rest with
  | nil => exact ⟨rfl, rfl⟩
  | cons mark more =>
      by_cases hmarked : ∃ base, (Bytes.lowerByte mark, base) ∈ marks
      · obtain ⟨base, hmark⟩ := hmarked
        obtain rfl := h mark base more rfl hmark
        refine ⟨rfl, ?_⟩
        rw [hasFittingUnderscores_marked hmark, underscoresFit_mark hmark]
        rfl
      · have hnone : ¬ Bytes.lowerByte mark = 0x62 ∧ ¬ Bytes.lowerByte mark = 0x6F ∧
            ¬ Bytes.lowerByte mark = 0x78 := by
          simpa [mem_marks_iff, exists_or] using hmarked
        have hstart : underscoresFit false .start (0x30 :: mark :: more) =
            underscoresFit false .digit (mark :: more) :=
          underscoresFit_digit (.inl (by decide)) _ _
        refine ⟨?_, ?_⟩
        · cases more <;> simp [baseOf, hnone]
        · simp [hasFittingUnderscores, hnone, hstart]

end Fronts

section Shapes

variable {n : Nat} {b mark : UInt8} {base : Nat} {rest : Bytes}

theorem literal_cons_iff (hb : b ≠ 0x30) :
    Literal n (b :: rest) ↔ ∃ d, digitValue? b = some d ∧ d < 10 ∧ Extends 10 d rest n := by
  constructor
  · intro h
    cases h with
    | decimal hdigit hd _ hrest => exact ⟨_, hdigit, hd, hrest⟩
    | octal => exact absurd rfl hb
    | marked => exact absurd rfl hb
  · rintro ⟨d, hdigit, hd, hrest⟩
    exact .decimal hdigit hd hb hrest

theorem literal_marked_iff (hmark : (Bytes.lowerByte mark, base) ∈ marks) (hne : rest ≠ []) :
    Literal n (0x30 :: mark :: rest) ↔ Extends base 0 rest n := by
  refine ⟨fun h => ?_, fun h => .marked hmark hne h⟩
  cases h with
  | decimal _ _ hzero => exact absurd rfl hzero
  | octal hrest =>
      obtain ⟨-, hplain, hvalue⟩ := digitValue?_mark hmark
      cases hrest with
      | digit hdigit hd => exact absurd (hvalue _ hdigit) (by omega)
      | underscore => exact absurd rfl hplain
  | marked hother _ hrest => rwa [base_unique hmark hother]

theorem literal_zero_iff (h : ∀ mark base more, rest = mark :: more →
    (Bytes.lowerByte mark, base) ∈ marks → more = []) :
    Literal n (0x30 :: rest) ↔ Extends 8 0 rest n := by
  refine ⟨fun hliteral => ?_, fun hrest => .octal hrest⟩
  cases hliteral with
  | decimal _ _ hzero => exact absurd rfl hzero
  | octal hrest => exact hrest
  | marked hmark hne => exact absurd (h _ _ _ rfl hmark) hne

end Shapes

theorem decimal_and_fit_iff {max n : Nat} {b : UInt8} (hb : b ≠ 0x30) (rest : Bytes) :
    (digits 10 true max 0 (b :: rest) = .ok n ∧ hasFittingUnderscores (b :: rest) = true) ↔
      Literal n (b :: rest) ∧ n ≤ max := by
  rw [literal_cons_iff hb]
  by_cases hdigit : ∃ d, digitValue? b = some d ∧ d < 10
  · obtain ⟨d, hvalue, hd⟩ := hdigit
    have hfit : hasFittingUnderscores (b :: rest) = underscoresFit false .digit (b :: rest) :=
      hasFittingUnderscores_digit hb (by simpa using knows false (Nat.le_refl 10) b d hvalue hd)
    have hextends : Extends 10 0 (b :: rest) n ↔ Extends 10 d rest n := by
      rw [extends_cons_iff hvalue hd, Nat.zero_mul, Nat.zero_add]
    rw [hfit, digits_and_fit_iff (by decide) (knows false (Nat.le_refl 10)) (Nat.zero_le max), hextends]
    simp [hvalue, hd]
  · have hrefused : ¬ (digits 10 true max 0 (b :: rest) = .ok n ∧
        hasFittingUnderscores (b :: rest) = true) := by
      rintro ⟨hread, hfit⟩
      by_cases hskip : b = 0x5F
      · subst hskip
        cases hfit
      · have hlarge : ∀ d, digitValue? b = some d → 10 ≤ d :=
          fun d hvalue => Nat.le_of_not_lt fun hd => hdigit ⟨d, hvalue, hd⟩
        cases (digits_of_not_digit hskip hlarge).symm.trans hread
    refine iff_of_false hrefused ?_
    rintro ⟨⟨d, hvalue, hd, -⟩, -⟩
    exact hdigit ⟨d, hvalue, hd⟩

/-- Exactly the literals are read, up to the greatest number in range. -/
theorem natural_eq_ok_iff {max n : Nat} {text : Bytes} :
    natural max text = .ok n ↔ Literal n text ∧ n ≤ max := by
  by_cases hne : text = []
  · subst hne
    refine ⟨fun h => ?_, fun h => ?_⟩
    · cases h
    · cases h.1
  rw [natural_eq_ok_iff_digits hne]
  obtain ⟨b, rest, rfl, hb⟩ | ⟨mark, base, rest, rfl, hmark, hrest⟩ | ⟨rest, rfl, hunmarked⟩ :=
    front_cases hne
  · rw [baseOf_decimalFront hb]
    exact decimal_and_fit_iff hb rest
  · have hbase : 0 < base ∧ base ≤ if base == 16 then 16 else 10 := by
      rcases mem_marks_iff.mp hmark with ⟨-, rfl⟩ | ⟨-, rfl⟩ | ⟨-, rfl⟩ <;> decide
    rw [baseOf_marked hmark hrest, hasFittingUnderscores_marked hmark, literal_marked_iff hmark hrest]
    exact digits_and_fit_iff hbase.1 (knows _ hbase.2) (Nat.zero_le _)
  · obtain ⟨hbase, hfit⟩ := unmarked hunmarked
    rw [hbase, hfit, literal_zero_iff hunmarked]
    have hknows : Knows false 8 := knows false (by decide)
    exact digits_and_fit_iff (Nat.succ_pos 7) hknows (Nat.zero_le _)

end Numeral

end DefinitionFiles
