import DefinitionFiles.Proofs.Json.Scalar
import DefinitionFiles.Proofs.Text.LetterCase

/-!
# What string contents stand for

String contents are a sequence of tokens: `\u` escapes by their number, and other characters, as
they are or behind a backslash. Two escapes may make up one character together; everything else
stands for itself. Escaping the markup characters once more turns characters into escapes of their
own number, none of which is half a pair, so that the contents stand for the same text as before.
-/

namespace DefinitionFiles

namespace Bytes

theorem hexValue?_hexDigit (n : Nat) : hexValue? (hexDigit (n % 16)) = some (n % 16) := by
  have hdigits : ∀ d : Fin 16, hexValue? (hexDigit d) = some d.val := by decide
  exact hdigits ⟨n % 16, Nat.mod_lt n (by decide)⟩

end Bytes

namespace Json

/-! ## Tokens -/

/-- A part of string contents: an escape by its number, or any other character. -/
inductive Token where
  | unit (n : Nat)
  | char (c : Char)
  deriving DecidableEq, Repr

/-- The tokens of string contents. -/
def tokens (s : Bytes) : List Token :=
  match _h : unit? s with
  | some (n, rest) => .unit n :: tokens rest
  | none =>
      match _h' : single? s with
      | some (c, rest) => .char c :: tokens rest
      | none => []
termination_by s.length
decreasing_by
  · exact length_of_unit? _h
  · exact length_of_single? _h'

namespace Token

/-- The characters that tokens stand for. -/
def decode : List Token → List Char
  | [] => []
  | .char c :: rest => c :: decode rest
  | .unit n :: .unit low :: rest =>
      if isHighSurrogate n && isLowSurrogate low then pairUnit n low :: decode rest
      else loneUnit n :: decode (.unit low :: rest)
  | .unit n :: rest => loneUnit n :: decode rest

/-- Whether a token stands for a character, whatever is around it. -/
def Shows (c : Char) (token : Token) : Prop :=
  token = .char c ∨ token = .unit c.toNat

/-- The token that is written for one when markup is escaped. -/
def guarded : Token → Token
  | .unit n => .unit n
  | .char c => if isMarkup c then .unit c.toNat else .char c

theorem shows_guarded (c : Char) : Shows c (guarded (.char c)) := by
  rw [guarded]
  split
  · exact .inr rfl
  · exact .inl rfl

theorem not_surrogate (c : Char) :
    isHighSurrogate c.toNat = false ∧ isLowSurrogate c.toNat = false := by
  have hscalar : c.toNat < 0xD800 ∨ 0xDFFF < c.toNat ∧ c.toNat < 0x110000 := c.valid
  simp only [isHighSurrogate, isLowSurrogate, Bool.and_eq_false_iff, decide_eq_false_iff_not]
  omega

theorem loneUnit_toNat (c : Char) : loneUnit c.toNat = c := by
  simp [loneUnit, not_surrogate c, Char.ofNat_toNat]

theorem decode_cons_of_shows {c : Char} {token : Token} (h : Shows c token) (rest : List Token) :
    decode (token :: rest) = c :: decode rest := by
  rcases h with rfl | rfl
  · rw [decode]
  · match rest with
    | [] | .char _ :: _ => simp [decode, loneUnit_toNat]
    | .unit low :: rest => simp [decode, not_surrogate c, loneUnit_toNat]

/-- Half a pair does not go with a token that stands for a character by itself. -/
theorem decode_unit_cons_of_shows {c : Char} {token : Token} (h : Shows c token) (n : Nat)
    (rest : List Token) :
    decode (.unit n :: token :: rest) = loneUnit n :: decode (token :: rest) := by
  rcases h with rfl | rfl <;> simp [decode, not_surrogate c]

theorem decode_map_guarded (tokens : List Token) : decode (tokens.map guarded) = decode tokens := by
  fun_induction decode tokens with
  | case1 => rfl
  | case2 c rest ih => rw [List.map_cons, decode_cons_of_shows (shows_guarded c), ih]
  | case3 n low rest hpair ih => simp only [List.map_cons, guarded, decode, hpair, if_true, ih]
  | case4 n low rest hpair ih =>
      rw [List.map_cons, guarded] at ih
      simp [guarded, decode, hpair, ih]
  | case5 n rest hother ih =>
      match rest with
      | [] => rfl
      | .unit low :: rest => exact (hother low rest rfl).elim
      | .char c :: rest =>
          rw [← ih, List.map_cons, List.map_cons, guarded,
            decode_unit_cons_of_shows (shows_guarded c)]

end Token

theorem tokens_of_unit? {s rest : Bytes} {n : Nat} (h : unit? s = some (n, rest)) :
    tokens s = .unit n :: tokens rest := by
  rw [tokens]
  split
  next heq =>
    cases h.symm.trans heq
    rfl
  next heq => cases h.symm.trans heq

theorem tokens_of_single? {s rest : Bytes} {c : Char} (hunit : unit? s = none)
    (h : single? s = some (c, rest)) : tokens s = .char c :: tokens rest := by
  rw [tokens]
  split
  next heq => cases hunit.symm.trans heq
  next =>
    split
    next heq =>
      cases h.symm.trans heq
      rfl
    next heq => cases h.symm.trans heq

@[simp]
theorem tokens_nil : tokens [] = [] := by
  rw [tokens]
  rfl

theorem tokens_of_none {s : Bytes} (hunit : unit? s = none) (h : single? s = none) :
    tokens s = [] := by
  rw [tokens]
  split
  next heq => cases hunit.symm.trans heq
  next =>
    split
    next heq => cases h.symm.trans heq
    next => rfl

theorem decode_unit_cons_of_none {s : Bytes} (h : unit? s = none) (n : Nat) :
    Token.decode (.unit n :: tokens s) = loneUnit n :: Token.decode (tokens s) := by
  cases hsingle : single? s with
  | none =>
      rw [tokens_of_none h hsingle]
      rfl
  | some found =>
      obtain ⟨c, rest⟩ := found
      rw [tokens_of_single? h hsingle, Token.decode_unit_cons_of_shows (.inl rfl)]

theorem unescapeFrom_eq (acc : List Char) (s : Bytes) :
    unescapeFrom acc s = (Token.decode (tokens s)).reverse ++ acc := by
  fun_induction unescapeFrom acc s with
  | case1 acc s n rest hunit low rest' hlow hpair ih =>
      rw [ih, tokens_of_unit? hunit, tokens_of_unit? hlow, Token.decode, if_pos hpair]
      simp
  | case2 acc s n rest hunit low rest' hlow hpair ih =>
      rw [ih, tokens_of_unit? hunit, tokens_of_unit? hlow, Token.decode, if_neg hpair]
      simp
  | case3 acc s n rest hunit hlow ih =>
      rw [ih, tokens_of_unit? hunit, decode_unit_cons_of_none hlow]
      simp
  | case4 acc s hunit c rest hsingle ih =>
      rw [ih, tokens_of_single? hunit hsingle, Token.decode]
      simp
  | case5 acc s hunit hsingle =>
      rw [tokens_of_none hunit hsingle]
      rfl

/-- String contents stand for the characters of their tokens. -/
theorem unescape_eq (raw : Bytes) : unescape raw = Utf8.ofChars (Token.decode (tokens raw)) := by
  simp [unescape, unescapeFrom_eq]

/-! ## Characters and bytes -/

/-- Whether a character stands in a string as it is. -/
def isPlain (c : Char) : Bool :=
  c ≠ '"' && c ≠ '\\' && 0x20 ≤ c.toNat

/-- A character with an escape in its place if it is markup. -/
def guardChar (c : Char) : Bytes :=
  if isMarkup c then utf8 "\\u" ++ Bytes.hex 4 c.toNat else Utf8.encode c

theorem encode_charOf {b : UInt8} (h : b < 0x80) : Utf8.encode (charOf b) = [b] := by
  have hsize : (charOf b).toNat < 0x80 := by
    rw [toNat_charOf]
    exact h
  exact (Utf8.Encoded.one (toNat_charOf b).symm hsize).eq_encode.symm

/-- A character begins with its own byte, or outside of ASCII with a byte outside of it. -/
theorem eq_charOf_or_of_encode {c : Char} {b : UInt8} {tail : Bytes}
    (h : Utf8.encode c = b :: tail) :
    (b < 0x80 ∧ c = charOf b) ∨ (¬ b < 0x80 ∧ 0x80 ≤ c.toNat) := by
  have hc : Utf8.Encoded c (b :: tail) := h ▸ Utf8.encoded_encode c
  simp only [UInt8.lt_iff_toNat_lt, UInt8.reduceToNat]
  cases hc with
  | one hb hsize =>
      refine .inl ⟨by omega, Char.toNat_inj.mp ?_⟩
      rw [toNat_charOf, hb]
  | two | three | four => exact .inr (by omega)

theorem plain_of_not_ascii {b : UInt8} (h : ¬ b < 0x80) :
    b ≠ 0x22 ∧ ¬ (b < 0x20 || b = 0x5C) = true := by
  have hbytes : ∀ b : UInt8, ¬ b < 0x80 → b ≠ 0x22 ∧ ¬ (b < 0x20 || b = 0x5C) = true :=
    Bytes.forall_of_fin (by decide +kernel)
  exact hbytes b h

/-- The first byte tells whether a character stands in a string as it is. -/
theorem isPlain_iff {c : Char} {b : UInt8} {tail : Bytes} (h : Utf8.encode c = b :: tail) :
    isPlain c = true ↔ b ≠ 0x22 ∧ ¬ (b < 0x20 || b = 0x5C) = true := by
  rcases eq_charOf_or_of_encode h with ⟨hb, rfl⟩ | ⟨hb, hc⟩
  · have hascii : ∀ b : UInt8, b < 0x80 →
        (isPlain (charOf b) = true ↔ b ≠ 0x22 ∧ ¬ (b < 0x20 || b = 0x5C) = true) :=
      Bytes.forall_of_fin (by decide +kernel)
    exact hascii b hb
  · have hplain : isPlain c = true := by
      have hquote : c ≠ '"' := by
        rintro rfl
        exact absurd hc (by decide)
      have hescape : c ≠ '\\' := by
        rintro rfl
        exact absurd hc (by decide)
      have hprintable : 0x20 ≤ c.toNat := by omega
      simp [isPlain, hquote, hescape, hprintable]
    exact iff_of_true hplain (plain_of_not_ascii hb)

theorem Contents.append_tails {tail : Bytes} (htail : ∀ t ∈ tail, Utf8.isTail t = true)
    {raw : Bytes} : Contents (tail ++ raw) ↔ Contents raw := by
  induction tail with
  | nil => rfl
  | cons t tail ih =>
      have hascii : ¬ t < 0x80 := by
        intro hascii
        cases (htail t List.mem_cons_self).symm.trans (Utf8.isTail_of_ascii hascii)
      obtain ⟨hquote, hcontrol⟩ := plain_of_not_ascii hascii
      rw [← ih fun other hother => htail other (List.mem_cons_of_mem _ hother), List.cons_append]
      constructor
      · intro h
        generalize hs : t :: (tail ++ raw) = s at h
        cases h with
        | nil => cases hs
        | plain _ _ hraw =>
            obtain ⟨-, rfl⟩ := List.cons.inj hs
            exact hraw
        | short | unit =>
            obtain ⟨rfl, -⟩ := List.cons.inj hs
            exact absurd (by decide) hascii
      · exact .plain hquote hcontrol

/-! ## Markup in contents -/

@[simp]
theorem guardMarkup_nil : guardMarkup [] = [] := by
  simp [guardMarkup]

theorem guardMarkup_encode_append (c : Char) (rest : Bytes) :
    guardMarkup (Utf8.encode c ++ rest) = guardChar c ++ guardMarkup rest := by
  rw [guardMarkup, Utf8.glyphs_encode_append, List.flatMap_cons, guardChar]
  rfl

theorem guardMarkup_cons_of_stray {b : UInt8} {rest : Bytes}
    (h : Utf8.read b rest = (.stray b, rest)) :
    guardMarkup (b :: rest) = b :: guardMarkup rest := by
  rw [guardMarkup, Utf8.glyphs_cons, h]
  rfl

theorem guardMarkup_append_of_ascii {front : Bytes}
    (h : ∀ b ∈ front, b < 0x80 ∧ isMarkup (charOf b) = false) (rest : Bytes) :
    guardMarkup (front ++ rest) = front ++ guardMarkup rest := by
  induction front with
  | nil => rfl
  | cons b front ih =>
      obtain ⟨hb, hmarkup⟩ := h b List.mem_cons_self
      have hchar := guardMarkup_encode_append (charOf b) (front ++ rest)
      rw [guardChar, hmarkup, if_neg Bool.false_ne_true, encode_charOf hb] at hchar
      rw [List.cons_append, List.cons_append, ← ih fun a ha => h a (List.mem_cons_of_mem b ha)]
      exact hchar

theorem exists_guardChar_eq_cons (c : Char) :
    ∃ b tail, guardChar c = b :: tail ∧ Utf8.isTail b = false := by
  unfold guardChar
  split
  · exact ⟨0x5C, _, rfl, by decide⟩
  · obtain ⟨b, tail, hc⟩ := Utf8.exists_encode_eq_cons c
    exact ⟨b, tail, hc, (Utf8.isTail_of_encode hc).1⟩

/-- Escaping markup changes no byte that can continue a character. -/
theorem exists_of_guardMarkup_eq {tail : Bytes} (htail : ∀ t ∈ tail, Utf8.isTail t = true)
    {s rest : Bytes} (h : guardMarkup s = tail ++ rest) : ∃ left, s = tail ++ left := by
  induction tail generalizing s with
  | nil => exact ⟨s, rfl⟩
  | cons t tail ih =>
      have ht := htail t List.mem_cons_self
      cases s with
      | nil => simp at h
      | cons b s =>
          rcases Utf8.read_cases b s with hstray | ⟨c, more, left, rfl, hc, -⟩
          · rw [guardMarkup_cons_of_stray hstray] at h
            obtain ⟨rfl, hrest⟩ := List.cons.inj h
            obtain ⟨left, rfl⟩ :=
              ih (fun other hother => htail other (List.mem_cons_of_mem _ hother)) hrest
            exact ⟨left, rfl⟩
          · -- What is written for a character begins with no such byte.
            obtain ⟨lead, written, hguard, hlead⟩ := exists_guardChar_eq_cons c
            rw [← List.cons_append, hc.eq_encode, guardMarkup_encode_append, hguard] at h
            obtain ⟨rfl, -⟩ := List.cons.inj h
            cases hlead.symm.trans ht

/-- A stray byte does not become part of a character. -/
theorem read_guardMarkup_of_stray {b : UInt8} {rest : Bytes}
    (h : Utf8.read b rest = (.stray b, rest)) :
    Utf8.read b (guardMarkup rest) = (.stray b, guardMarkup rest) := by
  rcases Utf8.read_cases b (guardMarkup rest) with hstray | ⟨c, tail, left, hrest, hc, -⟩
  · exact hstray
  · obtain ⟨left, rfl⟩ := exists_of_guardMarkup_eq (fun t ht => hc.isTail_of_mem ht) hrest
    cases h.symm.trans (Utf8.read_of_encoded hc left)

/-! ## The spelling of tokens -/

/-- String contents and their tokens. -/
inductive Spells : Bytes → List Token → Prop where
  | nil : Spells [] []
  | unit {a b c d : UInt8} {n : Nat} {raw : Bytes} {tokens : List Token}
      (hhex : hex4? a b c d = some n) (hraw : Spells raw tokens) :
      Spells (0x5C :: 0x75 :: a :: b :: c :: d :: raw) (.unit n :: tokens)
  | short {e : UInt8} {raw : Bytes} {tokens : List Token} (he : isShortEscape e = true)
      (hraw : Spells raw tokens) :
      Spells (0x5C :: e :: raw) (.char (charOf (shortValue e)) :: tokens)
  | char {c : Char} {raw : Bytes} {tokens : List Token} (hc : isPlain c = true)
      (hraw : Spells raw tokens) : Spells (Utf8.encode c ++ raw) (.char c :: tokens)
  | stray {b : UInt8} {raw : Bytes} {tokens : List Token}
      (hb : Utf8.read b raw = (.stray b, raw)) (hraw : Spells raw tokens) :
      Spells (b :: raw) (.char '\uFFFD' :: tokens)

/-- Four digits have a number if each of them has one. -/
theorem exists_hex4?_iff {a b c d : UInt8} :
    (∃ n, hex4? a b c d = some n) ↔
      ([a, b, c, d].all fun x => (Bytes.hexValue? x).isSome) = true := by
  simp only [hex4?, List.all_cons, List.all_nil, Bool.and_true, Bool.and_eq_true]
  cases Bytes.hexValue? a <;> cases Bytes.hexValue? b <;> cases Bytes.hexValue? c <;>
    cases Bytes.hexValue? d <;> simp

theorem plain_of_stray {b : UInt8} {raw : Bytes} (h : Utf8.read b raw = (.stray b, raw)) :
    b ≠ 0x22 ∧ ¬ (b < 0x20 || b = 0x5C) = true := by
  apply plain_of_not_ascii
  intro hascii
  rw [Utf8.read_of_ascii hascii] at h
  cases h

theorem tokens_cons {b : UInt8} (hb : b ≠ 0x5C) (rest : Bytes) :
    tokens (b :: rest) =
      .char (Utf8.read b rest).1.shown :: tokens (Utf8.read b rest).2 := by
  have hunit : unit? (b :: rest) = none := by
    unfold unit?
    split
    next heq => exact absurd (List.cons.inj heq).1 hb
    next => rfl
  apply tokens_of_single? hunit
  unfold single?
  split
  next heq => cases heq
  next heq => exact absurd (List.cons.inj heq).1 hb
  next heq =>
    cases heq
    rfl

theorem tokens_short {e : UInt8} (he : isShortEscape e = true) (raw : Bytes) :
    tokens (0x5C :: e :: raw) = .char (charOf (shortValue e)) :: tokens raw := by
  have hunit : unit? (0x5C :: e :: raw) = none := by
    unfold unit?
    split
    next heq =>
      cases heq
      exact absurd he (by decide)
    next => rfl
  exact tokens_of_single? hunit rfl

namespace Spells

theorem contents {raw : Bytes} {tokens : List Token} (h : Spells raw tokens) : Contents raw := by
  induction h with
  | nil => exact .nil
  | unit hhex _ ih => exact .unit (exists_hex4?_iff.mp ⟨_, hhex⟩) ih
  | short he _ ih => exact .short he ih
  | @char c raw tokens hc _ ih =>
      obtain ⟨b, tail, hencode⟩ := Utf8.exists_encode_eq_cons c
      obtain ⟨hquote, hplain⟩ := (isPlain_iff hencode).mp hc
      rw [hencode, List.cons_append]
      exact .plain hquote hplain
        ((Contents.append_tails (Utf8.isTail_of_encode hencode).2).mpr ih)
  | stray hb _ ih => exact .plain (plain_of_stray hb).1 (plain_of_stray hb).2 ih

theorem tokens_eq {raw : Bytes} {tokens : List Token} (h : Spells raw tokens) :
    Json.tokens raw = tokens := by
  induction h with
  | nil => exact tokens_nil
  | @unit a b c d n raw tokens hhex _ ih =>
      have hunit : unit? (0x5C :: 0x75 :: a :: b :: c :: d :: raw) = some (n, raw) := by
        simp [unit?, hhex]
      rw [tokens_of_unit? hunit, ih]
  | short he _ ih => rw [tokens_short he, ih]
  | @char c raw tokens hc _ ih =>
      obtain ⟨b, tail, hencode⟩ := Utf8.exists_encode_eq_cons c
      have hescape : b ≠ 0x5C := by
        rintro rfl
        exact absurd ((isPlain_iff hencode).mp hc).2 (by decide)
      rw [hencode, List.cons_append, tokens_cons hescape, Utf8.read_encode hencode, ih]
      rfl
  | stray hb _ ih =>
      have hescape := (plain_of_stray hb).2
      rw [tokens_cons (by simp_all), hb, ih]
      rfl

end Spells

theorem Contents.exists_spells {raw : Bytes} (h : Contents raw) : ∃ tokens, Spells raw tokens := by
  -- Contents are built byte by byte, but a character takes several of them at once.
  generalize hlength : raw.length = n
  induction n using Nat.strongRecOn generalizing raw with
  | ind n ih =>
      subst hlength
      cases h with
      | nil => exact ⟨[], .nil⟩
      | @short e raw he hraw =>
          have hless : raw.length < (0x5C :: e :: raw).length := by
            simp only [List.length_cons]
            omega
          obtain ⟨tokens, htokens⟩ := ih _ hless hraw rfl
          exact ⟨_, .short he htokens⟩
      | @unit a b c d raw hhex hraw =>
          have hless : raw.length < (0x5C :: 0x75 :: a :: b :: c :: d :: raw).length := by
            simp only [List.length_cons]
            omega
          obtain ⟨tokens, htokens⟩ := ih _ hless hraw rfl
          obtain ⟨n, hn⟩ := exists_hex4?_iff.mpr hhex
          exact ⟨_, .unit hn htokens⟩
      | @plain b raw hquote hplain hraw =>
          rcases Utf8.read_cases b raw with hstray | ⟨c, tail, left, rfl, hc, -⟩
          · obtain ⟨tokens, htokens⟩ := ih _ (Nat.lt_succ_self _) hraw rfl
            exact ⟨_, .stray hstray htokens⟩
          · have hless : left.length < (b :: (tail ++ left)).length := by
              simp only [List.length_cons, List.length_append]
              omega
            have hleft := (append_tails fun t ht => hc.isTail_of_mem ht).mp hraw
            obtain ⟨tokens, htokens⟩ := ih _ hless hleft rfl
            have hchar := (isPlain_iff hc.eq_encode.symm).mpr ⟨hquote, hplain⟩
            rw [← List.cons_append, hc.eq_encode]
            exact ⟨_, .char hchar htokens⟩

/-! ## Written contents -/

theorem Spells.escaped {n : Nat} (hn : n < 0x10000) {raw : Bytes} {tokens : List Token}
    (h : Spells raw tokens) :
    Spells (utf8 "\\u" ++ Bytes.hex 4 n ++ raw) (.unit n :: tokens) := by
  have hdigits : utf8 "\\u" ++ Bytes.hex 4 n = [0x5C, 0x75, Bytes.hexDigit (n >>> 12 % 16),
      Bytes.hexDigit (n >>> 8 % 16), Bytes.hexDigit (n >>> 4 % 16), Bytes.hexDigit (n % 16)] := by
    rfl
  rw [hdigits]
  apply Spells.unit _ h
  simp only [hex4?, Bytes.hexValue?_hexDigit, Option.bind_eq_bind, Option.bind_some,
    Option.pure_def, Nat.shiftRight_eq_div_pow, Option.some.injEq]
  omega

theorem lt_of_isMarkup {c : Char} (h : isMarkup c = true) : c.toNat < 0x10000 := by
  simp only [isMarkup, Bool.or_eq_true, decide_eq_true_eq] at h
  rcases h with (((rfl | rfl) | rfl) | rfl) | rfl <;> decide

theorem guardMarkup_unit {a b c d : UInt8}
    (hhex : ([a, b, c, d].all fun x => (Bytes.hexValue? x).isSome) = true) (raw : Bytes) :
    guardMarkup (0x5C :: 0x75 :: a :: b :: c :: d :: raw) =
      0x5C :: 0x75 :: a :: b :: c :: d :: guardMarkup raw := by
  have hbytes : ∀ b : UInt8, b = 0x5C ∨ b = 0x75 ∨ (Bytes.hexValue? b).isSome = true →
      b < 0x80 ∧ isMarkup (charOf b) = false :=
    Bytes.forall_of_fin (by decide +kernel)
  have hfront : ∀ x ∈ [0x5C, 0x75, a, b, c, d], x < 0x80 ∧ isMarkup (charOf x) = false := by
    intro x hx
    apply hbytes
    simp only [List.mem_cons, List.all_eq_true, List.not_mem_nil, or_false] at hx hhex
    exact hx.imp id fun hx => hx.imp id (hhex x)
  exact guardMarkup_append_of_ascii hfront raw

theorem guardMarkup_short {e : UInt8} (he : isShortEscape e = true) (raw : Bytes) :
    guardMarkup (0x5C :: e :: raw) = 0x5C :: e :: guardMarkup raw := by
  have hbytes : ∀ b : UInt8, b = 0x5C ∨ isShortEscape b = true →
      b < 0x80 ∧ isMarkup (charOf b) = false :=
    Bytes.forall_of_fin (by decide +kernel)
  have hfront : ∀ x ∈ [0x5C, e], x < 0x80 ∧ isMarkup (charOf x) = false := by
    intro x hx
    apply hbytes
    rcases List.mem_pair.mp hx with rfl | rfl
    · exact .inl rfl
    · exact .inr he
  exact guardMarkup_append_of_ascii hfront raw

theorem guarded_short {e : UInt8} (he : isShortEscape e = true) :
    Token.guarded (.char (charOf (shortValue e))) = .char (charOf (shortValue e)) := by
  have hbytes : ∀ b : UInt8, isShortEscape b = true → isMarkup (charOf (shortValue b)) = false :=
    Bytes.forall_of_fin (by decide +kernel)
  rw [Token.guarded, hbytes e he, if_neg Bool.false_ne_true]

theorem Spells.guardMarkup {raw : Bytes} {tokens : List Token} (h : Spells raw tokens) :
    Spells (guardMarkup raw) (tokens.map Token.guarded) := by
  induction h with
  | nil => simpa using Spells.nil
  | unit hhex _ ih =>
      rw [guardMarkup_unit (exists_hex4?_iff.mp ⟨_, hhex⟩)]
      exact .unit hhex ih
  | short he _ ih =>
      rw [guardMarkup_short he, List.map_cons, guarded_short he]
      exact .short he ih
  | @char c raw tokens hc _ ih =>
      rw [guardMarkup_encode_append, List.map_cons, guardChar, Token.guarded]
      split
      next hmarkup => exact ih.escaped (lt_of_isMarkup hmarkup)
      next => exact .char hc ih
  | stray hb _ ih =>
      rw [guardMarkup_cons_of_stray hb]
      exact .stray (read_guardMarkup_of_stray hb) ih

/-- With its markup escaped, contents are contents again and stand for the same text. -/
theorem Contents.guardMarkup {raw : Bytes} (h : Contents raw) :
    Contents (guardMarkup raw) ∧ unescape (Json.guardMarkup raw) = unescape raw := by
  obtain ⟨tokens, htokens⟩ := h.exists_spells
  refine ⟨htokens.guardMarkup.contents, ?_⟩
  rw [unescape_eq, unescape_eq, htokens.guardMarkup.tokens_eq, htokens.tokens_eq,
    Token.decode_map_guarded]

theorem of_shortEscape? {n : Nat} {letter : UInt8} (h : shortEscape? n = some letter) :
    isShortEscape letter = true ∧ (shortValue letter).toNat = n := by
  unfold shortEscape? at h
  split at h
  all_goals cases h
  all_goals decide

theorem exists_spells_escapeChar (c : Char) : ∃ token, Token.Shows c token ∧
    ∀ raw tokens, Spells raw tokens → Spells (escapeChar c ++ raw) (token :: tokens) := by
  unfold escapeChar
  split
  next hquoted =>
    refine ⟨.char c, .inl rfl, fun raw tokens hraw => ?_⟩
    simp only [Bool.or_eq_true, decide_eq_true_eq] at hquoted
    rcases hquoted with rfl | rfl
    · exact Spells.short (e := 0x22) (by decide) hraw
    · exact Spells.short (e := 0x5C) (by decide) hraw
  next hquoted =>
    split
    next hcontrol =>
      split
      next letter hletter =>
        obtain ⟨he, hvalue⟩ := of_shortEscape? hletter
        have hc : charOf (shortValue letter) = c := by rw [charOf, hvalue, Char.ofNat_toNat]
        exact ⟨.char c, .inl rfl, fun raw tokens hraw => hc ▸ .short he hraw⟩
      next => exact ⟨.unit c.toNat, .inr rfl, fun raw tokens hraw => hraw.escaped (by omega)⟩
    next hcontrol =>
      refine ⟨.char c, .inl rfl, fun raw tokens hraw => .char ?_ hraw⟩
      simp_all [isPlain]

theorem exists_spells_flatMap_escapeChar (cs : List Char) :
    ∃ tokens, Spells (cs.flatMap escapeChar) tokens ∧ Token.decode tokens = cs := by
  induction cs with
  | nil => exact ⟨[], .nil, rfl⟩
  | cons c cs ih =>
      obtain ⟨tokens, htokens, hdecode⟩ := ih
      obtain ⟨token, hshows, hspells⟩ := exists_spells_escapeChar c
      refine ⟨token :: tokens, hspells _ _ htokens, ?_⟩
      rw [Token.decode_cons_of_shows hshows, hdecode]

/-- An escaped text is contents that stand for the text, with U+FFFD for its stray bytes. -/
theorem contents_escape (s : Bytes) :
    Contents (escape s) ∧ unescape (escape s) = Utf8.ofChars (Utf8.chars s) := by
  obtain ⟨tokens, htokens, hdecode⟩ := exists_spells_flatMap_escapeChar (Utf8.chars s)
  refine ⟨htokens.contents, ?_⟩
  rw [unescape_eq, escape, htokens.tokens_eq, hdecode]

theorem unescape_escape {s : Bytes} (h : Utf8.isValid s = true) : unescape (escape s) = s := by
  obtain ⟨cs, rfl⟩ := (Utf8.isValid_iff s).mp h
  rw [(contents_escape _).2, Utf8.chars, Utf8.glyphs_ofChars]
  simp [Glyph.shown, Function.comp_def]

example : unescape (guardMarkup (escape (utf8 "<\"\n\u2028"))) = utf8 "<\"\n\u2028" := by
  decide +kernel

end Json

end DefinitionFiles
