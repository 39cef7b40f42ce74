import DefinitionFiles.Proofs.Record.Enumeration
import DefinitionFiles.Proofs.Text.Cutting
import Mathlib.Data.List.Forall2
import Mathlib.Data.List.Pairwise

/-!
# The effect of filling a record

A record is filled field by field up to the first one that fails. The fields before it hold the
values that the section has for them, or what they held before if it has none; that field and those
behind it are left alone. A value of a list or a box is converted as a whole or not at all.
-/

namespace DefinitionFiles

namespace FieldValue

/-- Whether a text is converted to a value of a type. Every element of a list is converted, and the
content of a box. -/
def Converts : FieldType → Bytes → FieldValue → Prop
  | .text, source, value => value = .text source
  | .flag, source, value => ∃ b, flag? source = some b ∧ value = .flag b
  | .int bits, source, value => ∃ n, Numeral.integer bits source = .ok n ∧ value = .int n
  | .nat bits, source, value =>
      ∃ n, Numeral.natural (1 <<< bits - 1) source = .ok n ∧ value = .nat n
  | .real format, source, value =>
      ∃ bits, Numeral.real format source = .ok bits ∧ value = .real format bits
  | .list element, source, value =>
      ∃ values, List.Forall₂ (Converts element) (elements source) values ∧ value = .list values
  | .box content, source, value => ∃ inner, Converts content source inner ∧ value = .box inner
  | .other _, _, _ => False

theorem map_eq_ok_iff {ε α β : Type} {r : Except ε α} {f : α → β} {b : β} :
    r.map f = .ok b ↔ ∃ a, r = .ok a ∧ b = f a := by
  cases r with
  | error e => simp [Except.map]
  | ok a => simp [Except.map, eq_comm]

theorem mapError_eq_ok_iff {ε ε' α : Type} {r : Except ε α} {f : ε → ε'} {a : α} :
    r.mapError f = .ok a ↔ r = .ok a := by
  cases r <;> simp [Except.mapError]

/-- A list is converted if every element is. -/
theorem convertAll_eq_ok_iff {convert : Bytes → Except ConversionError FieldValue} {index : Nat}
    {sources : List Bytes} {values : List FieldValue} :
    convertAll convert index sources = .ok values ↔
      List.Forall₂ (fun source value => convert source = .ok value) sources values := by
  induction sources generalizing index values with
  | nil => simp [convertAll, eq_comm]
  | cons source rest ih =>
      rw [convertAll, List.forall₂_cons_left_iff]
      cases hsource : convert source with
      | error e => simp
      | ok value =>
          simp only [map_eq_ok_iff, ih, Except.ok.injEq]
          constructor
          · rintro ⟨later, hlater, rfl⟩
            exact ⟨value, later, rfl, hlater, rfl⟩
          · rintro ⟨first, later, rfl, hlater, rfl⟩
            exact ⟨later, hlater, rfl⟩

theorem convert_eq_ok_iff {type : FieldType} {source : Bytes} {value : FieldValue} :
    convert type source = .ok value ↔ Converts type source value := by
  induction type generalizing source value with
  | text => simp [convert, Converts, eq_comm]
  | flag =>
      rw [convert, Converts]
      cases flag? source <;> simp [eq_comm]
  | int bits => rw [convert, Converts, mapError_eq_ok_iff, map_eq_ok_iff]
  | nat bits => rw [convert, Converts, mapError_eq_ok_iff, map_eq_ok_iff]
  | real format => rw [convert, Converts, mapError_eq_ok_iff, map_eq_ok_iff]
  | list element ih =>
      have hsame : (fun source value => convert element source = .ok value) = Converts element := by
        funext source value
        exact propext ih
      rw [convert, Converts, map_eq_ok_iff]
      simp only [convertAll_eq_ok_iff, hsame]
  | box content ih =>
      rw [convert, Converts, map_eq_ok_iff]
      simp only [ih]
  | other name => simp [convert, Converts]

end FieldValue

/-- A tag is a name and options between commas. The name is the key, unless it is empty, and one of
the options can require the entry. -/
theorem Field.exists_tag (field : Field) :
    ∃ name options, field.tag = Bytes.join [0x2C] (name :: options) ∧
      (∀ part ∈ name :: options, 0x2C ∉ part) ∧
      field.key = (if name = [] then field.name else name) ∧
      (field.isRequired = true ↔ utf8 "required" ∈ options) := by
  cases hparts : Bytes.split 0x2C field.tag with
  | nil => exact absurd hparts (Bytes.split_ne_nil _ _)
  | cons name options =>
      refine ⟨name, options, ?_, ?_, ?_, ?_⟩
      · rw [← hparts, Bytes.join_split]
      · intro part hpart
        rw [← hparts] at hpart
        exact Bytes.notMem_of_mem_split hpart
      · rw [Field.key, hparts]
      · rw [Field.isRequired, hparts, List.drop_one, List.tail_cons, List.contains_iff_mem]

namespace Record

/-! ## What a section says about a field -/

/-- Whether a section has a value under the key of a field, up to letter case. -/
def Gives (s : Section) (field : Field) (value : Bytes) : Prop :=
  ∃ key, (key, value) ∈ s.entries ∧ lower key = lower field.key

/-- Whether a field cannot be filled from a section: it takes part in filling, and either its key is
missing and required, or the value of its key cannot be converted to its type. -/
def Fails (s : Section) (field : Field) : Prop :=
  field.isSettable = true ∧ field.tag ≠ utf8 "-" ∧
    ((field.isRequired = true ∧ ∀ value, ¬ Gives s field value) ∨
      ∃ value, Gives s field value ∧ ∀ new, ¬ FieldValue.Converts field.type (Bytes.trim value) new)

/-- What a field is given that does not fail: the converted value of its key, or what it held before
if it takes no part in filling or its key is missing. -/
inductive Fills (s : Section) : Field × FieldValue → Field × FieldValue → Prop where
  | converted {field : Field} {old new : FieldValue} {value : Bytes}
      (hfilled : field.isSettable = true ∧ field.tag ≠ utf8 "-") (hgives : Gives s field value)
      (hnew : FieldValue.Converts field.type (Bytes.trim value) new) :
      Fills s (field, old) (field, new)
  | kept {field : Field} {old : FieldValue}
      (hkept : ¬ (field.isSettable = true ∧ field.tag ≠ utf8 "-") ∨ ∀ value, ¬ Gives s field value) :
      Fills s (field, old) (field, old)

theorem isFilled_iff (field : Field) :
    field.isFilled = true ↔ field.isSettable = true ∧ field.tag ≠ utf8 "-" := by
  have hdash : utf8 "-" = [0x2D] := by decide
  rw [Field.isFilled, Bool.and_eq_true, bne_iff_ne, hdash]

/-- Whether no two keys of a section agree up to letter case. -/
def HasDistinctKeys (s : Section) : Prop :=
  s.entries.Pairwise fun a b => lower a.1 ≠ lower b.1

section Distinct

variable {s : Section} (hkeys : HasDistinctKeys s) {field : Field}

include hkeys

/-- Distinct keys leave at most one value for a field, and that is the one it is given. -/
theorem lookup?_of_gives {value : Bytes} (h : Gives s field value) :
    lookup? s.entries field.key = some value := by
  obtain ⟨key, hmem, hkey⟩ := h
  cases hlookup : lookup? s.entries field.key with
  | none => exact absurd hkey (lookup?_eq_none_iff.mp hlookup _ hmem)
  | some other =>
      obtain ⟨key', hmem', hkey'⟩ := exists_entry_of_lookup? hlookup
      have hsame : (key, value) = (key', other) := by
        by_contra hne
        have : Std.Symm fun a b : Bytes × Bytes => lower a.1 ≠ lower b.1 :=
          ⟨fun _ _ h => h.symm⟩
        exact hkeys.forall hmem hmem' hne (hkey.trans hkey'.symm)
      cases hsame
      rfl

/-! ## One field -/

/-- A field either fails and has an error, or does not fail and is given what it is due. -/
theorem fillField_cases (field : Field) (old : FieldValue) :
    (∃ new, fillField s.entries field old = .ok new ∧ ¬ Fails s field ∧
        Fills s (field, old) (field, new)) ∨
      ∃ cause, fillField s.entries field old = .error cause ∧ Fails s field := by
  unfold fillField
  by_cases hfilled : field.isFilled = true
  · have hpart := (isFilled_iff field).mp hfilled
    rw [hfilled]
    simp only [Bool.not_true, Bool.false_eq_true, ↓reduceIte]
    cases hlookup : lookup? s.entries field.key with
    | none =>
        have hnone : ∀ value, ¬ Gives s field value := by
          rintro value ⟨key, hmem, hkey⟩
          exact lookup?_eq_none_iff.mp hlookup _ hmem hkey
        cases hrequired : field.isRequired with
        | true => exact .inr ⟨_, rfl, hpart.1, hpart.2, .inl ⟨hrequired, hnone⟩⟩
        | false =>
            refine .inl ⟨old, rfl, ?_, .kept (.inr hnone)⟩
            rintro ⟨-, -, ⟨hmust, -⟩ | ⟨value, hgives, -⟩⟩
            · cases hrequired.symm.trans hmust
            · exact hnone value hgives
    | some value =>
        have hgives : Gives s field value := exists_entry_of_lookup? hlookup
        cases hconvert : FieldValue.convert field.type (Bytes.trim value) with
        | error cause =>
            simp only [hconvert]
            refine .inr ⟨_, rfl, hpart.1, hpart.2, .inr ⟨value, hgives, ?_⟩⟩
            intro new hnew
            cases hconvert.symm.trans (FieldValue.convert_eq_ok_iff.mpr hnew)
        | ok new =>
            simp only [hconvert]
            have hnew := FieldValue.convert_eq_ok_iff.mp hconvert
            refine .inl ⟨new, rfl, ?_, .converted hpart hgives hnew⟩
            rintro ⟨-, -, ⟨-, hnone⟩ | ⟨other, hother, hnot⟩⟩
            · exact hnone value hgives
            · cases (lookup?_of_gives hkeys hother).symm.trans (lookup?_of_gives hkeys hgives)
              exact hnot new hnew
  · have hpart : ¬ (field.isSettable = true ∧ field.tag ≠ utf8 "-") :=
      mt (isFilled_iff field).mpr hfilled
    rw [Bool.not_eq_true] at hfilled
    rw [hfilled]
    exact .inl ⟨old, rfl, fun h => hpart ⟨h.1, h.2.1⟩, .kept (.inl hpart)⟩

/-! ## All fields -/

/-- Fields are filled up to the first one that fails. -/
theorem fill_effect (fields : List (Field × FieldValue)) :
    ∃ earlier later filled, fields = earlier ++ later ∧ (∀ f ∈ earlier, ¬ Fails s f.1) ∧
      (∀ f ∈ later.head?, Fails s f.1) ∧ List.Forall₂ (Fills s) earlier filled ∧
      (fill s.entries fields).1 = filled ++ later ∧
      ((fill s.entries fields).2 = none ↔ later = []) := by
  induction fields with
  | nil => exact ⟨[], [], [], rfl, by simp, by simp, .nil, rfl, by simp [fill]⟩
  | cons entry rest ih =>
      obtain ⟨field, old⟩ := entry
      rw [fill]
      rcases fillField_cases hkeys field old with ⟨new, hfill, hnot, hnew⟩ | ⟨cause, hfill, hfails⟩
      · obtain ⟨earlier, later, filled, rfl, hearlier, hlater, hfills, hresult, herror⟩ := ih
        rw [hfill]
        refine ⟨(field, old) :: earlier, later, (field, new) :: filled, rfl, ?_, hlater,
          .cons hnew hfills, ?_, herror⟩
        · intro f hf
          rcases List.mem_cons.mp hf with rfl | hf
          · exact hnot
          · exact hearlier f hf
        · simp only [hresult, List.cons_append]
      · rw [hfill]
        exact ⟨[], (field, old) :: rest, [], rfl, by simp, by simpa using hfails, .nil, rfl, by simp⟩

end Distinct

/-- Reading a section whose keys are distinct up to letter case fills the fields of a record in order
up to the first one that fails. Each of them holds the converted value of its key, or what it held
before if its key is missing or it takes no part in filling. The failing field and those behind it
hold what they held before. There is an error exactly if a field fails. Key and options of a field
are what its tag says. -/
theorem read_effect {s : Section} (hkeys : HasDistinctKeys s) (fields : List (Field × FieldValue)) :
    (∃ earlier later filled, fields = earlier ++ later ∧ (∀ f ∈ earlier, ¬ Fails s f.1) ∧
        (∀ f ∈ later.head?, Fails s f.1) ∧ List.Forall₂ (Fills s) earlier filled ∧
        (Target.read s (.record fields)).1 = .record (filled ++ later)) ∧
      ((Target.read s (.record fields)).2 = none ↔ ∀ f ∈ fields, ¬ Fails s f.1) ∧
      ∀ f ∈ fields, ∃ name options, f.1.tag = Bytes.join [0x2C] (name :: options) ∧
        (∀ part ∈ name :: options, 0x2C ∉ part) ∧
        f.1.key = (if name = [] then f.1.name else name) ∧
        (f.1.isRequired = true ↔ utf8 "required" ∈ options) := by
  obtain ⟨earlier, later, filled, rfl, hearlier, hlater, hfills, hresult, herror⟩ :=
    fill_effect hkeys fields
  refine ⟨?_, ?_, fun f _ => f.1.exists_tag⟩
  · exact ⟨earlier, later, filled, rfl, hearlier, hlater, hfills, congrArg Target.record hresult⟩
  · have hread : (Target.read s (.record (earlier ++ later))).2 = none ↔ later = [] := by
      rw [← herror]
      exact Option.map_eq_none_iff
    rw [hread]
    constructor
    · rintro rfl
      rwa [List.append_nil]
    · intro hnone
      cases later with
      | nil => rfl
      | cons f later => exact absurd (hlater f rfl) (hnone f (by simp))

/-- The second element of a list of boxes is no number: the list keeps the box that it held, and the
field behind it is not reached. -/
theorem read_effect_failing_element :
    let s : Section :=
      { header := utf8 "SWORD", line := 0,
        entries := [(utf8 "NAME", utf8 "blade "), (utf8 "DAMAGE", utf8 "1,x"), (utf8 "ID", utf8 "7")] }
    let name : Field := { name := utf8 "Name", type := .text, tag := utf8 "name,required" }
    let damage : Field := { name := utf8 "Damage", type := .list (.box (.int 8)) }
    let id : Field := { name := utf8 "Id", type := .nat 16 }
    let fields : List (Field × FieldValue) :=
      [(name, .text []), (damage, .list [.box (.int 3)]), (id, .nat 5)]
    HasDistinctKeys s ∧
      Target.read s (.record fields) =
        (.record [(name, .text (utf8 "blade")), (damage, .list [.box (.int 3)]), (id, .nat 5)],
          some (.inSection (utf8 "SWORD")
            (.entry (utf8 "Damage") (.element 1 (.int (utf8 "x") .malformed))))) ∧
      ∃ f ∈ fields, Fails s f.1 := by
  intro s name damage id fields
  have hkeys : HasDistinctKeys s := by
    unfold HasDistinctKeys
    decide +kernel
  have hread : Target.read s (.record fields) =
      (.record [(name, .text (utf8 "blade")), (damage, .list [.box (.int 3)]), (id, .nat 5)],
        some (.inSection (utf8 "SWORD")
          (.entry (utf8 "Damage") (.element 1 (.int (utf8 "x") .malformed))))) := by
    with_unfolding_all rfl
  refine ⟨hkeys, hread, ?_⟩
  have hnone := (read_effect hkeys fields).2.1
  rw [hread] at hnone
  simpa using hnone

end Record

end DefinitionFiles
