import DefinitionFiles.Text.Utf8
import Mathlib.Algebra.GroupWithZero.Nat
import Mathlib.Data.List.Basic

/-!
# Encoded characters

Reading undoes writing: at the front of a text that starts with an encoded character stands that
character. Reading loses no byte, so a well-formed text is the encoding of its characters.
-/

namespace DefinitionFiles

namespace Utf8

/-! ## Bytes of a character -/

theorem toNat_ofNat_of_lt {n : Nat} (h : n < 256) : (UInt8.ofNat n).toNat = n := by
  simp only [UInt8.toNat_ofNat', Nat.reducePow]
  omega

theorem isTail_iff (b : UInt8) : isTail b = true ↔ 0x80 ≤ b.toNat ∧ b.toNat ≤ 0xBF := by
  simp [isTail, UInt8.le_iff_toNat_le]

/-- A second byte that two lead bytes restrict further, from below and from above. -/
theorem restrictedTail_iff {first last least most : UInt8} (lead b : UInt8) (hne : first ≠ last)
    (hleast : 0x80 ≤ least.toNat) (hmost : most.toNat ≤ 0xBF) :
    (if lead = first then least ≤ b && b ≤ 0xBF
      else if lead = last then 0x80 ≤ b && b ≤ most
      else isTail b) = true ↔
      0x80 ≤ b.toNat ∧ b.toNat ≤ 0xBF ∧ (lead.toNat = first.toNat → least.toNat ≤ b.toNat) ∧
        (lead.toNat = last.toNat → b.toNat ≤ most.toNat) := by
  rw [UInt8.toNat_inj, UInt8.toNat_inj]
  split
  next hlead =>
    subst hlead
    simp only [Bool.and_eq_true, decide_eq_true_eq, UInt8.le_iff_toNat_le, UInt8.reduceToNat,
      hne, false_implies, and_true, forall_const]
    omega
  next hfirst =>
    split
    next hlead =>
      subst hlead
      simp only [Bool.and_eq_true, decide_eq_true_eq, UInt8.le_iff_toNat_le, UInt8.reduceToNat,
        hfirst, false_implies, true_and, forall_const]
      omega
    next hlast => simp [isTail_iff, hfirst, hlast]

theorem isSecondOfThree_iff (lead b : UInt8) :
    isSecondOfThree lead b = true ↔ 0x80 ≤ b.toNat ∧ b.toNat ≤ 0xBF ∧
      (lead.toNat = 0xE0 → 0xA0 ≤ b.toNat) ∧ (lead.toNat = 0xED → b.toNat ≤ 0x9F) :=
  restrictedTail_iff lead b (by decide) (by decide) (by decide)

theorem isSecondOfFour_iff (lead b : UInt8) :
    isSecondOfFour lead b = true ↔ 0x80 ≤ b.toNat ∧ b.toNat ≤ 0xBF ∧
      (lead.toNat = 0xF0 → 0x90 ≤ b.toNat) ∧ (lead.toNat = 0xF4 → b.toNat ≤ 0x8F) :=
  restrictedTail_iff lead b (by decide) (by decide) (by decide)

/-- The bytes of a character by the size of its number. -/
inductive Encoded (c : Char) : Bytes → Prop where
  | one {b : UInt8} (hb : b.toNat = c.toNat) (hsize : c.toNat < 0x80) : Encoded c [b]
  | two {b b₁ : UInt8} (hb : b.toNat = c.toNat / 0x40 + 0xC0)
      (hb₁ : b₁.toNat = c.toNat % 0x40 + 0x80) (hsize : 0x80 ≤ c.toNat ∧ c.toNat < 0x800) :
      Encoded c [b, b₁]
  | three {b b₁ b₂ : UInt8} (hb : b.toNat = c.toNat / 0x1000 + 0xE0)
      (hb₁ : b₁.toNat = c.toNat / 0x40 % 0x40 + 0x80) (hb₂ : b₂.toNat = c.toNat % 0x40 + 0x80)
      (hsize : 0x800 ≤ c.toNat ∧ c.toNat < 0x10000)
      (hscalar : c.toNat < 0xD800 ∨ 0xDFFF < c.toNat) : Encoded c [b, b₁, b₂]
  | four {b b₁ b₂ b₃ : UInt8} (hb : b.toNat = c.toNat / 0x40000 + 0xF0)
      (hb₁ : b₁.toNat = c.toNat / 0x1000 % 0x40 + 0x80)
      (hb₂ : b₂.toNat = c.toNat / 0x40 % 0x40 + 0x80) (hb₃ : b₃.toNat = c.toNat % 0x40 + 0x80)
      (hsize : 0x10000 ≤ c.toNat ∧ c.toNat < 0x110000) : Encoded c [b, b₁, b₂, b₃]

theorem encoded_encode (c : Char) : Encoded c (encode c) := by
  have hscalar : c.toNat < 0xD800 ∨ 0xDFFF < c.toNat ∧ c.toNat < 0x110000 := c.valid
  have hval : c.val.toNat = c.toNat := rfl
  unfold encode String.utf8EncodeChar
  simp only [hval]
  split
  · exact .one (toNat_ofNat_of_lt (by omega)) (by omega)
  · split
    · refine .two ?_ ?_ (by omega) <;> rw [toNat_ofNat_of_lt (by omega)]
      omega
    · split
      · refine .three ?_ ?_ ?_ (by omega) (by omega) <;> rw [toNat_ofNat_of_lt (by omega)]
        omega
      · refine .four ?_ ?_ ?_ ?_ (by omega) <;> rw [toNat_ofNat_of_lt (by omega)]
        omega

/-- A character has only one encoding. -/
theorem Encoded.eq_encode {c : Char} {bytes : Bytes} (h : Encoded c bytes) : bytes = encode c := by
  have hencode := encoded_encode c
  generalize encode c = bytes' at hencode
  cases h <;> cases hencode <;> first
    | omega
    | simp only [List.cons.injEq, and_true, ← UInt8.toNat_inj]
      omega

/-! ## Reading one character -/

theorem payload_of_toNat {b : UInt8} {n : Nat} (h : b.toNat = n % 0x40 + 0x80) :
    payload b = n % 0x40 := by
  rw [payload]
  omega

theorem read_of_encoded {c : Char} {b : UInt8} {tail : Bytes} (h : Encoded c (b :: tail))
    (rest : Bytes) : read b (tail ++ rest) = (.scalar c, rest) := by
  -- the lead byte decides the branch, and the tails put the number together again
  cases h with
  | one hb hsize =>
      simp only [read, UInt8.lt_iff_toNat_lt, UInt8.reduceToNat, List.nil_append]
      rw [if_pos (by omega), hb, Char.ofNat_toNat]
  | @two _ b₁ hb hb₁ hsize =>
      have htail : isTail b₁ = true := (isTail_iff b₁).mpr (by omega)
      simp only [read, UInt8.lt_iff_toNat_lt, UInt8.le_iff_toNat_le, Bool.and_eq_true,
        decide_eq_true_eq, UInt8.reduceToNat, List.cons_append, List.nil_append]
      rw [if_neg (by omega), if_pos (by omega), if_pos htail, payload_of_toNat hb₁, hb]
      rw [show (c.toNat / 0x40 + 0xC0) % 0x20 * 0x40 + c.toNat % 0x40 = c.toNat by omega,
        Char.ofNat_toNat]
  | @three _ b₁ b₂ hb hb₁ hb₂ hsize hscalar =>
      have hsecond : isSecondOfThree b b₁ = true := (isSecondOfThree_iff b b₁).mpr (by omega)
      have htail : isTail b₂ = true := (isTail_iff b₂).mpr (by omega)
      simp only [read, UInt8.lt_iff_toNat_lt, UInt8.le_iff_toNat_le, Bool.and_eq_true,
        decide_eq_true_eq, UInt8.reduceToNat, List.cons_append, List.nil_append]
      rw [if_neg (by omega), if_neg (by omega), if_pos (by omega), if_pos ⟨hsecond, htail⟩,
        payload_of_toNat hb₁, payload_of_toNat hb₂, hb]
      rw [show (c.toNat / 0x1000 + 0xE0) % 0x10 * 0x1000 + c.toNat / 0x40 % 0x40 * 0x40 +
        c.toNat % 0x40 = c.toNat by omega, Char.ofNat_toNat]
  | @four _ b₁ b₂ b₃ hb hb₁ hb₂ hb₃ hsize =>
      have hsecond : isSecondOfFour b b₁ = true := (isSecondOfFour_iff b b₁).mpr (by omega)
      have htail₂ : isTail b₂ = true := (isTail_iff b₂).mpr (by omega)
      have htail₃ : isTail b₃ = true := (isTail_iff b₃).mpr (by omega)
      simp only [read, UInt8.lt_iff_toNat_lt, UInt8.le_iff_toNat_le, Bool.and_eq_true,
        decide_eq_true_eq, UInt8.reduceToNat, List.cons_append, List.nil_append]
      rw [if_neg (by omega), if_neg (by omega), if_neg (by omega), if_pos (by omega),
        if_pos ⟨⟨hsecond, htail₂⟩, htail₃⟩, payload_of_toNat hb₁, payload_of_toNat hb₂,
        payload_of_toNat hb₃, hb]
      rw [show (c.toNat / 0x40000 + 0xF0) % 0x08 * 0x40000 + c.toNat / 0x1000 % 0x40 * 0x1000 +
        c.toNat / 0x40 % 0x40 * 0x40 + c.toNat % 0x40 = c.toNat by omega, Char.ofNat_toNat]

theorem toNat_ofNat_of_scalar {n : Nat} (h : n < 0xD800 ∨ 0xDFFF < n ∧ n < 0x110000) :
    (Char.ofNat n).toNat = n := by
  rw [Char.ofNat, dif_pos h]
  rfl

/-- What reading can find: a stray byte, or a character with its whole encoding. -/
theorem read_cases (b : UInt8) (rest : Bytes) :
    read b rest = (.stray b, rest) ∨
      ∃ c tail left, rest = tail ++ left ∧ Encoded c (b :: tail) ∧
        read b rest = (.scalar c, left) := by
  unfold read payload
  simp only [UInt8.lt_iff_toNat_lt, UInt8.le_iff_toNat_le, Bool.and_eq_true, decide_eq_true_eq,
    UInt8.reduceToNat, isTail_iff, isSecondOfThree_iff, isSecondOfFour_iff]
  split
  next hlead =>
    have hc := toNat_ofNat_of_scalar (n := b.toNat) (by omega)
    exact .inr ⟨_, [], rest, rfl, .one hc.symm (by omega), rfl⟩
  next =>
    split
    next hlead =>
      split
      next b₁ left =>
        split
        next htail =>
          have hc := toNat_ofNat_of_scalar (n := b.toNat % 0x20 * 0x40 + b₁.toNat % 0x40)
            (by omega)
          exact .inr ⟨_, [b₁], left, rfl, .two (by omega) (by omega) (by omega), rfl⟩
        next => exact .inl rfl
      next => exact .inl rfl
    next =>
      split
      next hlead =>
        split
        next b₁ b₂ left =>
          split
          next htail =>
            have hc := toNat_ofNat_of_scalar
              (n := b.toNat % 0x10 * 0x1000 + b₁.toNat % 0x40 * 0x40 + b₂.toNat % 0x40) (by omega)
            exact .inr ⟨_, [b₁, b₂], left, rfl, .three (by omega) (by omega) (by omega)
              (by omega) (by omega), rfl⟩
          next => exact .inl rfl
        next => exact .inl rfl
      next =>
        split
        next hlead =>
          split
          next b₁ b₂ b₃ left =>
            split
            next htail =>
              have hc := toNat_ofNat_of_scalar (n := b.toNat % 0x08 * 0x40000 +
                b₁.toNat % 0x40 * 0x1000 + b₂.toNat % 0x40 * 0x40 + b₃.toNat % 0x40) (by omega)
              exact .inr ⟨_, [b₁, b₂, b₃], left, rfl, .four (by omega) (by omega) (by omega)
                (by omega) (by omega), rfl⟩
            next => exact .inl rfl
          next => exact .inl rfl
        next => exact .inl rfl

/-- Reading loses no byte. -/
theorem bytes_read (b : UInt8) (rest : Bytes) :
    (read b rest).1.bytes ++ (read b rest).2 = b :: rest := by
  rcases read_cases b rest with hstray | ⟨c, tail, left, rfl, hc, hread⟩
  · rw [hstray]
    rfl
  · rw [hread]
    change encode c ++ left = (b :: tail) ++ left
    rw [hc.eq_encode]

/-- Behind its first byte a character has only tails. -/
theorem Encoded.isTail_of_mem {c : Char} {b t : UInt8} {tail : Bytes}
    (h : Encoded c (b :: tail)) (ht : t ∈ tail) : isTail t = true := by
  rw [isTail_iff]
  cases h with
  | one => cases ht
  | two | three | four =>
      simp only [List.mem_cons, List.not_mem_nil, or_false] at ht
      rcases ht with rfl | rfl | rfl <;> omega

theorem Encoded.isTail_lead {c : Char} {b : UInt8} {tail : Bytes} (h : Encoded c (b :: tail)) :
    isTail b = false := by
  rw [← Bool.not_eq_true, isTail_iff]
  cases h <;> omega

/-- What is read does not depend on what follows the text, unless that could continue a
character. -/
theorem read_append (b : UInt8) (rest : Bytes) {more : Bytes}
    (hmore : ∀ t ∈ more.head?, isTail t = false) :
    read b (rest ++ more) = ((read b rest).1, (read b rest).2 ++ more) := by
  rcases read_cases b rest with hstray | ⟨c, tail, left, rfl, hc, hread⟩
  · rcases read_cases b (rest ++ more) with hstray' | ⟨c, tail, left, heq, hc, -⟩
    · rw [hstray, hstray']
    · -- The character would end inside the text, or have a tail behind it.
      rcases List.append_eq_append_iff.mp heq with ⟨kept, rfl, rfl⟩ | ⟨kept, rfl, rfl⟩
      · cases kept with
        | nil =>
            rw [List.append_nil] at hc
            have hread := read_of_encoded hc []
            rw [List.append_nil, hstray] at hread
            cases hread
        | cons t kept =>
            have htail := hc.isTail_of_mem (t := t) (by simp)
            rw [hmore t rfl] at htail
            cases htail
      · rw [read_of_encoded hc kept] at hstray
        cases hstray
  · rw [hread, List.append_assoc, read_of_encoded hc]

theorem exists_encode_eq_cons (c : Char) : ∃ b tail, encode c = b :: tail := by
  have h := encoded_encode c
  generalize encode c = bytes at h
  cases h <;> exact ⟨_, _, rfl⟩

theorem encode_ne_nil (c : Char) : encode c ≠ [] := by
  obtain ⟨b, tail, hc⟩ := exists_encode_eq_cons c
  rw [hc]
  exact List.cons_ne_nil b tail

/-- A character is a lead and its tails. -/
theorem isTail_of_encode {c : Char} {b : UInt8} {tail : Bytes} (h : encode c = b :: tail) :
    isTail b = false ∧ ∀ t ∈ tail, isTail t = true := by
  have hcodes : Encoded c (b :: tail) := h ▸ encoded_encode c
  exact ⟨hcodes.isTail_lead, fun t ht => hcodes.isTail_of_mem ht⟩

/-- At the front of an encoded character stands that character. -/
theorem read_encode {c : Char} {b : UInt8} {tail : Bytes} (h : encode c = b :: tail)
    (rest : Bytes) : read b (tail ++ rest) = (.scalar c, rest) :=
  read_of_encoded (h ▸ encoded_encode c) rest

/-! ## Reading a whole text -/

/-- Induction along the glyphs of a text. -/
@[elab_as_elim]
theorem glyphInduction {motive : Bytes → Prop} (nil : motive [])
    (glyph : ∀ b rest, motive (read b rest).2 → motive (b :: rest)) (s : Bytes) : motive s :=
  match s with
  | [] => nil
  | b :: rest => glyph b rest (glyphInduction nil glyph (read b rest).2)
termination_by s.length
decreasing_by
  have := length_read_le b rest
  simp only [List.length_cons]
  omega

theorem glyphsFrom_append (older acc : List Glyph) (s : Bytes) :
    glyphsFrom (acc ++ older) s = older.reverse ++ glyphsFrom acc s := by
  fun_induction glyphsFrom acc s with
  | case1 acc => rw [glyphsFrom, List.reverse_append]
  | case2 acc b rest ih => rw [glyphsFrom, ← ih, List.cons_append]

@[simp]
theorem glyphs_nil : glyphs [] = [] := by
  rw [glyphs, glyphsFrom, List.reverse_nil]

theorem glyphs_cons (b : UInt8) (rest : Bytes) :
    glyphs (b :: rest) = (read b rest).1 :: glyphs (read b rest).2 := by
  rw [glyphs, glyphsFrom, ← List.nil_append [(read b rest).1], glyphsFrom_append]
  rfl

theorem flatMap_bytes_glyphs (s : Bytes) : (glyphs s).flatMap Glyph.bytes = s := by
  induction s using glyphInduction with
  | nil => simp
  | glyph b rest ih => rw [glyphs_cons, List.flatMap_cons, ih, bytes_read]

theorem glyphs_encode_append (c : Char) (rest : Bytes) :
    glyphs (encode c ++ rest) = .scalar c :: glyphs rest := by
  obtain ⟨b, tail, hc⟩ := exists_encode_eq_cons c
  rw [hc, List.cons_append, glyphs_cons, read_encode hc]

/-- A text begins with at most one character. -/
theorem eq_of_encode_append {c e : Char} {s t : Bytes} (h : encode c ++ s = encode e ++ t) :
    c = e ∧ s = t := by
  have hglyphs := congrArg glyphs h
  rw [glyphs_encode_append, glyphs_encode_append] at hglyphs
  obtain ⟨hglyph, -⟩ := List.cons.inj hglyphs
  cases hglyph
  exact ⟨rfl, List.append_cancel_left h⟩

/-- A front of a character that ends where another character ends is all of it. -/
theorem eq_of_front_suffix {c e : Char} {front back s : Bytes} (hc : encode c = front ++ back)
    (hfront : front ≠ []) (h : front <:+ s ++ encode e) : c = e ∧ back = [] := by
  obtain ⟨b, front, rfl⟩ := List.exists_cons_of_ne_nil hfront
  obtain ⟨lead, tail, he⟩ := exists_encode_eq_cons e
  obtain ⟨hb, hbtails⟩ := isTail_of_encode hc
  obtain ⟨hlead, htails⟩ := isTail_of_encode he
  -- Otherwise the lead of one character would be a tail of the other.
  have hwhole : b :: front = encode e := by
    obtain ⟨before, heq⟩ := h
    rcases List.append_eq_append_iff.mp heq with ⟨gap, -, hgap⟩ | ⟨gap, -, hgap⟩
    · cases gap with
      | nil => exact hgap
      | cons g gap =>
          obtain ⟨-, rfl⟩ := List.cons.inj hgap
          cases hlead.symm.trans (hbtails lead (by simp [he]))
    · cases gap with
      | nil => exact hgap.symm
      | cons g gap =>
          obtain ⟨-, rfl⟩ := List.cons.inj (he.symm.trans hgap)
          cases hb.symm.trans (htails b (by simp))
  rw [hwhole, ← List.append_nil (encode c)] at hc
  obtain ⟨hsame, hnil⟩ := eq_of_encode_append hc
  exact ⟨hsame, hnil.symm⟩

/-- A text ends with at most one character. -/
theorem eq_of_append_encode {c e : Char} {s t : Bytes} (h : s ++ encode c = t ++ encode e) :
    s = t ∧ c = e := by
  have hsuffix : encode c <:+ t ++ encode e := h ▸ List.suffix_append s _
  obtain ⟨rfl, -⟩ := eq_of_front_suffix (List.append_nil _).symm (encode_ne_nil c) hsuffix
  exact ⟨List.append_cancel_right h, rfl⟩

@[simp]
theorem ofChars_nil : ofChars [] = [] :=
  rfl

theorem ofChars_cons (c : Char) (cs : List Char) : ofChars (c :: cs) = encode c ++ ofChars cs :=
  rfl

theorem ofChars_append (cs cs' : List Char) : ofChars (cs ++ cs') = ofChars cs ++ ofChars cs' :=
  List.flatMap_append

theorem glyphs_ofChars (cs : List Char) : glyphs (ofChars cs) = cs.map .scalar := by
  induction cs with
  | nil => simp [ofChars]
  | cons c cs ih => rw [ofChars_cons, glyphs_encode_append, ih, List.map_cons]

/-- The well-formed texts are the encodings of characters. -/
theorem isValid_iff (s : Bytes) : isValid s = true ↔ ∃ cs, s = ofChars cs := by
  constructor
  · intro h
    refine ⟨chars s, ?_⟩
    have hglyphs : ∀ g ∈ glyphs s, g.bytes = encode g.shown := by
      intro g hg
      cases g with
      | scalar c => rfl
      | stray b => simpa using List.all_eq_true.mp h _ hg
    calc
      s = (glyphs s).flatMap Glyph.bytes := (flatMap_bytes_glyphs s).symm
      _ = (glyphs s).flatMap fun g => encode g.shown := List.flatMap_congr hglyphs
      _ = ofChars (chars s) := by rw [ofChars, chars, List.flatMap_map]
  · rintro ⟨cs, rfl⟩
    rw [isValid, glyphs_ofChars]
    simp

theorem isValid_append {s t : Bytes} (hs : isValid s = true) (ht : isValid t = true) :
    isValid (s ++ t) = true := by
  obtain ⟨cs, rfl⟩ := (isValid_iff s).mp hs
  obtain ⟨cs', rfl⟩ := (isValid_iff t).mp ht
  exact (isValid_iff _).mpr ⟨cs ++ cs', (ofChars_append cs cs').symm⟩

theorem isValid_encode_append (c : Char) (rest : Bytes) :
    isValid (encode c ++ rest) = isValid rest := by
  rw [isValid, glyphs_encode_append, List.all_cons, isValid, Bool.true_and]

/-! ## Boundaries of characters -/

theorem isTail_getElem_encode {c : Char} {i : Nat} (hpos : 0 < i) (hi : i < (encode c).length) :
    isTail (encode c)[i] = true := by
  obtain ⟨b, tail, hc⟩ := exists_encode_eq_cons c
  obtain ⟨j, rfl⟩ := Nat.exists_eq_add_of_lt hpos
  have hencoded := encoded_encode c
  simp only [hc] at hi hencoded ⊢
  exact hencoded.isTail_of_mem (by simp)

/-- An offset of a well-formed text that stands in front of no tail lies between two
characters. -/
theorem exists_split_of_boundary (cs : List Char) (offset : Nat)
    (hle : offset ≤ (ofChars cs).length)
    (hboundary : ∀ b ∈ (ofChars cs)[offset]?, isTail b = false) :
    ∃ before after, cs = before ++ after ∧ (ofChars before).length = offset := by
  induction cs generalizing offset with
  | nil => exact ⟨[], [], rfl, (Nat.le_zero.mp hle).symm⟩
  | cons c cs ih =>
      by_cases hzero : offset = 0
      · exact ⟨[], c :: cs, rfl, hzero.symm⟩
      · rw [ofChars_cons] at hle hboundary
        -- Inside a character stand only tails, so the offset lies behind the first one.
        by_cases hinside : offset < (encode c).length
        · rw [List.getElem?_append_left hinside, List.getElem?_eq_getElem hinside] at hboundary
          have htail := isTail_getElem_encode (Nat.pos_of_ne_zero hzero) hinside
          rw [hboundary _ rfl] at htail
          cases htail
        · rw [List.getElem?_append_right (by omega)] at hboundary
          rw [List.length_append] at hle
          obtain ⟨before, after, rfl, hlength⟩ :=
            ih (offset - (encode c).length) (by omega) hboundary
          refine ⟨c :: before, after, rfl, ?_⟩
          rw [ofChars_cons, List.length_append, hlength]
          omega

theorem getElem?_length_append (s t : Bytes) : (s ++ t)[s.length]? = t.head? := by
  rw [List.getElem?_append_right (Nat.le_refl _), Nat.sub_self, List.head?_eq_getElem?]

/-- In front of a byte that continues no character a well-formed text falls into two. -/
theorem isValid_append_iff {s t : Bytes} (ht : ∀ b ∈ t.head?, isTail b = false) :
    isValid (s ++ t) = true ↔ isValid s = true ∧ isValid t = true := by
  constructor
  · intro h
    obtain ⟨cs, hcs⟩ := (isValid_iff _).mp h
    obtain ⟨before, after, rfl, hlength⟩ := exists_split_of_boundary cs s.length
      (by rw [← hcs, List.length_append]; omega)
      (by rwa [← hcs, getElem?_length_append])
    rw [ofChars_append] at hcs
    obtain ⟨rfl, rfl⟩ := List.append_inj hcs hlength.symm
    exact ⟨(isValid_iff _).mpr ⟨before, rfl⟩, (isValid_iff _).mpr ⟨after, rfl⟩⟩
  · rintro ⟨hs, ht⟩
    exact isValid_append hs ht

/-- A character continues no other one. -/
theorem isTail_of_head?_ofChars {cs : List Char} {b : UInt8} (h : b ∈ (ofChars cs).head?) :
    isTail b = false := by
  cases cs with
  | nil => cases h
  | cons c cs =>
      obtain ⟨lead, tail, hc⟩ := exists_encode_eq_cons c
      rw [ofChars_cons, hc] at h
      cases h
      exact (isTail_of_encode hc).1

theorem isTail_of_front {c : Char} {front back : Bytes} (hc : encode c = front ++ back)
    {b : UInt8} (h : b ∈ front.head?) : isTail b = false := by
  cases front with
  | nil => cases h
  | cons lead front =>
      cases h
      exact (isTail_of_encode hc).1

/-- A text that ends in a part of a character is not well-formed. -/
theorem not_isValid_append_front {c : Char} {front back : Bytes} (hc : encode c = front ++ back)
    (hfront : front ≠ []) (hback : back ≠ []) (s : Bytes) : isValid (s ++ front) = false := by
  rw [← Bool.not_eq_true, isValid_append_iff fun b hb => isTail_of_front hc hb, isValid_iff front]
  rintro ⟨-, cs, rfl⟩
  cases cs with
  | nil => exact hfront rfl
  | cons e cs =>
      rw [ofChars_cons, List.append_assoc, ← List.append_nil (encode c)] at hc
      have hrest := (eq_of_encode_append hc).2
      exact hback (List.append_eq_nil_iff.mp hrest.symm).2

/-- The line feed occurs in no other character. -/
theorem eq_newline_of_lf_mem_encode {c : Char} (h : Bytes.lf ∈ encode c) : c = '\n' := by
  have hc := encoded_encode c
  have hlf : Bytes.lf.toNat = 0x0A := rfl
  generalize encode c = bytes at h hc
  cases hc with
  | one hb hsize =>
      rw [List.mem_singleton] at h
      subst h
      exact Char.toNat_inj.mp (by rw [← hb]; rfl)
  | two | three | four =>
      simp only [List.mem_cons, List.not_mem_nil, or_false] at h
      rcases h with rfl | rfl | rfl | rfl <;> omega

/-! ## ASCII -/

theorem isTail_of_ascii {b : UInt8} (h : b < 0x80) : isTail b = false := by
  rw [← Bool.not_eq_true, isTail_iff]
  simp only [UInt8.lt_iff_toNat_lt, UInt8.reduceToNat] at h
  omega

theorem not_ascii_of_mem_encode {c : Char} (h : 0x80 ≤ c.toNat) {b : UInt8} (hb : b ∈ encode c) :
    ¬ b < 0x80 := by
  have hc := encoded_encode c
  simp only [UInt8.lt_iff_toNat_lt, UInt8.reduceToNat]
  generalize encode c = bytes at hb hc
  cases hc with
  | one => omega
  | two | three | four =>
      simp only [List.mem_cons, List.not_mem_nil, or_false] at hb
      rcases hb with rfl | rfl | rfl | rfl <;> omega

theorem read_of_ascii {b : UInt8} (h : b < 0x80) (rest : Bytes) :
    read b rest = (.scalar (Char.ofNat b.toNat), rest) := by
  unfold read
  exact if_pos h

theorem isValid_cons_of_ascii {b : UInt8} (h : b < 0x80) (rest : Bytes) :
    isValid (b :: rest) = isValid rest := by
  rw [isValid, glyphs_cons, read_of_ascii h, List.all_cons, isValid, Bool.true_and]

theorem isValid_append_of_ascii {s : Bytes} (h : ∀ b ∈ s, b < 0x80) (rest : Bytes) :
    isValid (s ++ rest) = isValid rest := by
  induction s with
  | nil => rfl
  | cons b s ih =>
      rw [List.cons_append, isValid_cons_of_ascii (h b List.mem_cons_self),
        ih fun a ha => h a (List.mem_cons_of_mem _ ha)]

/-- Around an ASCII byte a well-formed text falls into two. -/
theorem isValid_append_cons_of_ascii {b : UInt8} (h : b < 0x80) {s rest : Bytes} :
    isValid (s ++ b :: rest) = true ↔ isValid s = true ∧ isValid rest = true := by
  have hhead : ∀ a ∈ (b :: rest).head?, isTail a = false := by
    rintro a ⟨⟩
    exact isTail_of_ascii h
  rw [isValid_append_iff hhead, isValid_cons_of_ascii h]

/-! ## UTF-16 code units -/

theorem unitsFrom_add (count more : Nat) (s : Bytes) :
    unitsFrom (count + more) s = count + unitsFrom more s := by
  fun_induction unitsFrom more s with
  | case1 more => rw [unitsFrom]
  | case2 more b rest glyph left hread ih =>
      rw [← ih, ← Nat.add_assoc, unitsFrom]
      simp only [hread]

@[simp]
theorem units_nil : units [] = 0 := by
  rw [units, unitsFrom]

theorem units_cons (b : UInt8) (rest : Bytes) :
    units (b :: rest) = utf16Width (read b rest).1.shown + units (read b rest).2 := by
  rw [units, unitsFrom]
  simp only [Nat.zero_add]
  exact unitsFrom_add _ 0 _

/-- The length of a text in code units is the sum over its characters. -/
theorem units_eq_sum (s : Bytes) : units s = ((chars s).map utf16Width).sum := by
  induction s using glyphInduction with
  | nil => simp [chars]
  | glyph b rest ih =>
      rw [units_cons, ih, chars, chars, glyphs_cons, List.map_cons, List.map_cons, List.sum_cons]

theorem units_encode_append (c : Char) (rest : Bytes) :
    units (encode c ++ rest) = utf16Width c + units rest := by
  obtain ⟨b, tail, hc⟩ := exists_encode_eq_cons c
  rw [hc, List.cons_append, units_cons, read_encode hc]
  rfl

end Utf8

end DefinitionFiles
