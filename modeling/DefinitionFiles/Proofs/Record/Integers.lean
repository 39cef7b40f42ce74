import DefinitionFiles.Proofs.Numeral.Written
import DefinitionFiles.Proofs.Record.Elements
import DefinitionFiles.Proofs.Record.Filling

/-!
# Integer fields

A field of an integer type is given a written integer exactly if the type has it, and it is never given
another one. A list of written integers is taken as a whole or fails at its first element that the type
does not have.
-/

namespace DefinitionFiles

/-- An integer type, with a sign or without one. The type `uintptr` of addresses is not among them: a
field of that type cannot be filled, whatever its text. -/
inductive IntegerType where
  | signed (bits : Nat) (hbits : 0 < bits)
  | unsigned (bits : Nat)

namespace IntegerType

/-- The type as that of a field. -/
def fieldType : IntegerType → FieldType
  | .signed bits _ => .int bits
  | .unsigned bits => .nat bits

/-- Whether a type has an integer. -/
def Holds : IntegerType → Int → Prop
  | .signed bits _, n => -2 ^ (bits - 1) ≤ n ∧ n < 2 ^ (bits - 1)
  | .unsigned bits, n => 0 ≤ n ∧ n < 2 ^ bits

instance : (t : IntegerType) → (n : Int) → Decidable (t.Holds n)
  | .signed _ _, _ => inferInstanceAs (Decidable (_ ∧ _))
  | .unsigned _, _ => inferInstanceAs (Decidable (_ ∧ _))

/-- What a field of the type holds for an integer. -/
def value : IntegerType → Int → FieldValue
  | .signed _ _, n => .int n
  | .unsigned _, n => .nat n.toNat

/-! ## Literals as values -/

/-- Whether a text is a literal of an integer for a type. A type without a sign takes no sign. -/
def Spells : IntegerType → Int → Bytes → Prop
  | .signed _ _, n, text => Numeral.Signed Numeral.Literal n text
  | .unsigned _, n, text => ∃ value : Nat, Numeral.Literal value text ∧ (value : Int) = n

theorem spells_of_literal (t : IntegerType) {n : Nat} {text : Bytes} (h : Numeral.Literal n text) :
    t.Spells n text := by
  cases t with
  | signed => exact .plain h
  | unsigned => exact ⟨n, h, rfl⟩

theorem Spells.signed {t : IntegerType} {n : Int} {text : Bytes} (h : t.Spells n text) :
    Numeral.Signed Numeral.Literal n text := by
  cases t with
  | signed => exact h
  | unsigned =>
      obtain ⟨value, hvalue, rfl⟩ := h
      exact .plain hvalue

theorem Spells.unique {t : IntegerType} {n m : Int} {text : Bytes} (hn : t.Spells n text)
    (hm : t.Spells m text) : n = m :=
  hn.signed.unique hm.signed

theorem convert_eq_ok_iff_spells (t : IntegerType) {text : Bytes} {new : FieldValue} :
    FieldValue.convert t.fieldType text = .ok new ↔
      ∃ n, t.Spells n text ∧ t.Holds n ∧ new = t.value n := by
  rw [FieldValue.convert_eq_ok_iff]
  cases t with
  | signed bits hbits =>
      constructor
      · rintro ⟨n, hread, rfl⟩
        obtain ⟨hsigned, hrange⟩ := (Numeral.integer_eq_ok_iff hbits).mp hread
        exact ⟨n, hsigned, hrange, rfl⟩
      · rintro ⟨n, hsigned, hrange, rfl⟩
        exact ⟨n, (Numeral.integer_eq_ok_iff hbits).mpr ⟨hsigned, hrange⟩, rfl⟩
  | unsigned bits =>
      have hlimit : ∀ value : Nat,
          value ≤ 1 <<< bits - 1 ↔ (0 : Int) ≤ value ∧ (value : Int) < 2 ^ bits := by
        intro value
        have hpos : 0 < 2 ^ bits := Nat.two_pow_pos bits
        have hcast : (2 : Int) ^ bits = (2 ^ bits : Nat) := by simp
        rw [hcast, Nat.shiftLeft_eq, Nat.one_mul]
        omega
      constructor
      · rintro ⟨value, hread, rfl⟩
        obtain ⟨hliteral, hle⟩ := Numeral.natural_eq_ok_iff.mp hread
        exact ⟨value, ⟨value, hliteral, rfl⟩, (hlimit value).mp hle, rfl⟩
      · rintro ⟨n, ⟨value, hliteral, rfl⟩, hrange, rfl⟩
        exact ⟨value, Numeral.natural_eq_ok_iff.mpr ⟨hliteral, (hlimit value).mpr hrange⟩, rfl⟩

/-! ## Written integers as values -/

theorem convert_of_writes (t : IntegerType) {n : Int} {text : Bytes} (h : Numeral.Writes n text) :
    (t.Holds n → FieldValue.convert t.fieldType text = .ok (t.value n)) ∧
      (¬ t.Holds n → ∃ cause, FieldValue.convert t.fieldType text = .error cause) := by
  constructor
  · intro hholds
    have hspells : t.Spells n text := by
      cases t with
      | signed => exact h.signed
      | unsigned => exact ⟨n.toNat, h.literal hholds.1, Int.toNat_of_nonneg hholds.1⟩
    exact t.convert_eq_ok_iff_spells.mpr ⟨n, hspells, hholds, rfl⟩
  · intro hnot
    cases hconvert : FieldValue.convert t.fieldType text with
    | error cause => exact ⟨cause, rfl⟩
    | ok new =>
        obtain ⟨m, hspells, hholds, -⟩ := t.convert_eq_ok_iff_spells.mp hconvert
        rw [hspells.signed.unique h.signed] at hholds
        exact absurd hholds hnot

/-- A list of integers that the type has is converted to exactly these. -/
theorem convertAll_of_writes (t : IntegerType) {ns : List Int} {words : List Bytes}
    (h : List.Forall₂ Numeral.Writes ns words) (hholds : ∀ n ∈ ns, t.Holds n) (index : Nat) :
    FieldValue.convertAll (FieldValue.convert t.fieldType) index words = .ok (ns.map t.value) := by
  induction h generalizing index with
  | nil => rfl
  | @cons n word ns words hword _ ih =>
      have hfirst := (t.convert_of_writes hword).1 (hholds n List.mem_cons_self)
      rw [FieldValue.convertAll, hfirst]
      simp only [ih (fun m hm => hholds m (List.mem_cons_of_mem _ hm)) (index + 1)]
      rfl

/-- A list fails at its first integer that the type does not have. -/
theorem convertAll_of_writes_error (t : IntegerType) {before after : List Int} {n : Int}
    {words : List Bytes} (h : List.Forall₂ Numeral.Writes (before ++ n :: after) words)
    (hbefore : ∀ m ∈ before, t.Holds m) (hn : ¬ t.Holds n) (index : Nat) :
    ∃ cause, FieldValue.convertAll (FieldValue.convert t.fieldType) index words =
      .error (.element (index + before.length) cause) := by
  induction before generalizing words index with
  | nil =>
      obtain ⟨word, rest, hword, -, rfl⟩ := List.forall₂_cons_left_iff.mp h
      obtain ⟨cause, hcause⟩ := (t.convert_of_writes hword).2 hn
      exact ⟨cause, by rw [FieldValue.convertAll, hcause]; rfl⟩
  | cons m before ih =>
      obtain ⟨word, rest, hword, hrest, rfl⟩ := List.forall₂_cons_left_iff.mp h
      have hfirst := (t.convert_of_writes hword).1 (hbefore m List.mem_cons_self)
      obtain ⟨cause, hcause⟩ :=
        ih hrest (fun m hm => hbefore m (List.mem_cons_of_mem _ hm)) (index + 1)
      refine ⟨cause, ?_⟩
      rw [FieldValue.convertAll, hfirst]
      simp only [hcause, List.length_cons, Nat.add_right_comm index 1, Nat.add_assoc]
      rfl

/-- A written integer can stand in a list. -/
theorem isWord_of_writes {n : Int} {text : Bytes} (h : Numeral.Writes n text) :
    FieldValue.IsWord text ∧ ∀ b ∈ text, Bytes.isVisible b = true := by
  have hbytes : ∀ b : UInt8, Bytes.isDigit b = true ∨ Bytes.isLetter b = true →
      FieldValue.isSeparator b = false ∧ Bytes.isVisible b = true :=
    Bytes.forall_of_fin (by decide +kernel)
  obtain ⟨body, hbody, rfl⟩ := h
  have hplain : ∀ b ∈ body, FieldValue.isSeparator b = false ∧ Bytes.isVisible b = true :=
    fun b hb => hbytes b (hbody.isDigit_or_isLetter hb)
  obtain ⟨b, rest, rfl, -⟩ := hbody.exists_cons
  split
  next =>
    refine ⟨⟨List.cons_ne_nil _ _, ?_⟩, ?_⟩
    · exact List.forall_mem_cons.mpr ⟨rfl, fun b hb => (hplain b hb).1⟩
    · exact List.forall_mem_cons.mpr ⟨rfl, fun b hb => (hplain b hb).2⟩
  next => exact ⟨⟨List.cons_ne_nil _ _, fun b hb => (hplain b hb).1⟩, fun b hb => (hplain b hb).2⟩

end IntegerType

namespace Record

/-! ## A field among others -/

theorem fill_append {entries : List (Bytes × Bytes)} {earlier filled : List (Field × FieldValue)}
    (h : fill entries earlier = (filled, none)) (rest : List (Field × FieldValue)) :
    fill entries (earlier ++ rest) = (filled ++ (fill entries rest).1, (fill entries rest).2) := by
  induction earlier generalizing filled with
  | nil =>
      cases h
      rfl
  | cons entry earlier ih =>
      obtain ⟨field, old⟩ := entry
      rw [fill] at h
      rw [List.cons_append, fill]
      cases hfield : fillField entries field old with
      | error e => simp [hfield] at h
      | ok new =>
          simp only [hfield, Prod.mk.injEq] at h ⊢
          obtain ⟨rfl, hnone⟩ := h
          simp [ih (Prod.ext rfl hnone)]

/-- A field of a record that takes part in filling, what it holds, and the fields around it. Those
before it are filled without an error. -/
structure Place (s : Section) where
  earlier : List (Field × FieldValue)
  filled : List (Field × FieldValue)
  field : Field
  old : FieldValue
  later : List (Field × FieldValue)
  hearlier : Target.read s (.record earlier) = (.record filled, none)
  takesPart : field.isSettable = true ∧ field.tag ≠ utf8 "-"

namespace Place

variable {s : Section}

/-- The record of the field. -/
def target (p : Place s) : Target :=
  .record (p.earlier ++ (p.field, p.old) :: p.later)

/-- Whether the field is given a value, and the fields behind it are filled after that. -/
def IsGiven (p : Place s) (new : FieldValue) : Prop :=
  ∃ rest e?, Target.read s (.record p.later) = (.record rest, e?) ∧
    Target.read s p.target = (.record (p.filled ++ (p.field, new) :: rest), e?)

/-- Whether reading ends at the field with an error. It and the fields behind it are left alone. -/
def FailsWith (p : Place s) (cause : ConversionError) : Prop :=
  Target.read s p.target = (.record (p.filled ++ (p.field, p.old) :: p.later),
    some (.inSection s.header (.entry p.field.key cause)))

theorem fill_earlier (p : Place s) : fill s.entries p.earlier = (p.filled, none) := by
  have h := p.hearlier
  simp only [Target.read, Prod.mk.injEq, Target.record.injEq, Option.map_eq_none_iff] at h
  exact Prod.ext h.1 h.2

theorem read_target (p : Place s) :
    Target.read s p.target =
      (.record (p.filled ++ (fill s.entries ((p.field, p.old) :: p.later)).1),
        (fill s.entries ((p.field, p.old) :: p.later)).2.map (.inSection s.header)) := by
  rw [target, Target.read, fill_append p.fill_earlier]

section Converting

variable {p : Place s} {source : Bytes} (hsource : lookup? s.entries p.field.key = some source)

include hsource

theorem fillField_of_lookup? :
    fillField s.entries p.field p.old =
      (FieldValue.convert p.field.type (Bytes.trim source)).mapError (.entry p.field.key) := by
  rw [fillField, (isFilled_iff p.field).mpr p.takesPart, hsource]
  rfl

theorem isGiven_of_convert {new : FieldValue}
    (h : FieldValue.convert p.field.type (Bytes.trim source) = .ok new) : p.IsGiven new := by
  have hfield := fillField_of_lookup? hsource
  rw [h, Except.mapError] at hfield
  refine ⟨_, _, rfl, ?_⟩
  rw [p.read_target, fill, hfield]

theorem failsWith_of_convert {cause : ConversionError}
    (h : FieldValue.convert p.field.type (Bytes.trim source) = .error cause) :
    p.FailsWith cause := by
  have hfield := fillField_of_lookup? hsource
  rw [h, Except.mapError] at hfield
  rw [FailsWith, p.read_target, fill, hfield]
  rfl

end Converting

end Place

end Record

end DefinitionFiles
