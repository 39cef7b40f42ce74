import DefinitionFiles.Outline
import DefinitionFiles.Proofs.Record.Integers

/-!
# Literals in integer fields

A field of an integer type takes literals only, each as the integer it is a literal of. Decimal numerals
without a leading zero are taken as their numbers. Behind a leading zero the digits count as octal ones,
so that the field is given another number or fails. A text that is no plain numeral fails, unless it has
an underscore or the mark of a binary or an octal literal.
-/

namespace DefinitionFiles

namespace Record.Place

open Numeral

variable {s : Section}

/-- Whether a field is treated as one whose key has the given integer: it is given that integer if the
type has it, and fails otherwise. -/
def Takes (p : Place s) (t : IntegerType) (n : Int) : Prop :=
  (t.Holds n → p.IsGiven (t.value n)) ∧ (¬ t.Holds n → ∃ cause, p.FailsWith cause)

section Reading

variable {p : Place s} {source : Bytes} (hsource : lookup? s.entries p.field.key = some source)
  {t : IntegerType} (htype : p.field.type = t.fieldType)

include hsource htype

theorem failsWith_of_no_integer (h : ∀ n, t.Spells n (Bytes.trim source) → ¬ t.Holds n) :
    ∃ cause, p.FailsWith cause := by
  cases hconvert : FieldValue.convert p.field.type (Bytes.trim source) with
  | error cause => exact ⟨cause, failsWith_of_convert hsource hconvert⟩
  | ok new =>
      rw [htype, t.convert_eq_ok_iff_spells] at hconvert
      obtain ⟨n, hspells, hholds, -⟩ := hconvert
      exact absurd hholds (h n hspells)

theorem takes_of_spells {n : Int} (h : t.Spells n (Bytes.trim source)) : p.Takes t n := by
  constructor
  · intro hholds
    apply isGiven_of_convert hsource
    rw [htype, t.convert_eq_ok_iff_spells]
    exact ⟨n, h, hholds, rfl⟩
  · intro hnot
    refine failsWith_of_no_integer hsource htype fun m hm => ?_
    rwa [← h.unique hm]

/-- An integer field takes exactly the literals of its type, and fails with every other text. So a
decimal numeral without a leading zero is taken as its number. With a leading zero it is taken as an
octal numeral, which is another number unless it has one digit behind the zeros, and it fails if there
is an eight or a nine. Every text fails that is neither a decimal nor a hexadecimal numeral behind its
sign, unless it has an underscore or the mark of a binary or an octal literal. -/
theorem read_literals :
    let text := Bytes.trim source
    (∀ n, t.Spells n text → p.Takes t n) ∧
      ((∀ n, ¬ t.Spells n text) → ∃ cause, p.FailsWith cause) ∧
      (text ≠ [] → (∀ b ∈ text, Bytes.isDigit b = true) →
        (text.head? ≠ some 0x30 → p.Takes t (Bytes.valueIn 10 text)) ∧
          (text.head? = some 0x30 → (∀ b ∈ text, b ≤ 0x37) →
            p.Takes t (Bytes.valueIn 8 text) ∧
              (Bytes.valueIn 8 text = Bytes.valueIn 10 text ↔ Bytes.valueIn 10 text < 8)) ∧
          (text.head? = some 0x30 → (∃ b ∈ text, 0x37 < b) → ∃ cause, p.FailsWith cause)) ∧
      (¬ IsPlain (unsignedPart text) → 0x5F ∉ text → ¬ HasRareMark (unsignedPart text) →
        ∃ cause, p.FailsWith cause) := by
  intro text
  refine ⟨fun n => takes_of_spells hsource htype, fun hnone => ?_, fun hne hdigits => ⟨?_, ?_, ?_⟩, ?_⟩
  · exact failsWith_of_no_integer hsource htype fun n hn => absurd hn (hnone n)
  · intro hzero
    have hliteral := literal_of_head?_ne hdigits hne hzero
    exact takes_of_spells hsource htype (t.spells_of_literal hliteral)
  · intro hzero hsmall
    have hliteral := literal_of_head?_eq hdigits hzero hsmall
    exact ⟨takes_of_spells hsource htype (t.spells_of_literal hliteral), valueIn_eight_eq_iff hsmall⟩
  · rintro hzero ⟨b, hb, hlarge⟩
    refine failsWith_of_no_integer hsource htype fun n hn => ?_
    exact absurd hn.signed (not_signed_of_head?_eq hdigits hzero hb hlarge n)
  · intro hplain hunderscore hmark
    refine failsWith_of_no_integer hsource htype fun n hn => ?_
    exact absurd (hn.signed.isPlain hunderscore hmark) hplain

end Reading

/-- Behind a leading zero a number too large for its field in decimal can fit it, and a numeral with an
eight fails. -/
theorem read_literals_leading_zero :
    let s : Section :=
      { header := utf8 "SWORD", line := 0,
        entries := [(utf8 "WEIGHT", utf8 " 0177"), (utf8 "DAMAGE", utf8 "018")] }
    let weight : Field := { name := utf8 "Weight", type := .int 8 }
    let damage : Field := { name := utf8 "Damage", type := .nat 8 }
    let first : Place s :=
      { earlier := [], filled := [], field := weight, old := .int 5, later := [(damage, .nat 0)],
        hearlier := rfl, takesPart := by decide }
    let second : Place s :=
      { earlier := [(weight, .int 5)], filled := [(weight, .int 127)], field := damage,
        old := .nat 0, later := [], hearlier := by with_unfolding_all rfl, takesPart := by decide }
    Bytes.valueIn 10 (utf8 "0177") = 177 ∧ first.IsGiven (.int 127) ∧
      ∃ cause, second.FailsWith cause := by
  intro s weight damage first second
  have hweight : lookup? s.entries first.field.key = some (utf8 " 0177") := by with_unfolding_all rfl
  have hdamage : lookup? s.entries second.field.key = some (utf8 "018") := by with_unfolding_all rfl
  have hfirst : Bytes.trim (utf8 " 0177") = utf8 "0177" := by decide +kernel
  have hsecond : Bytes.trim (utf8 "018") = utf8 "018" := by decide +kernel
  have hvalue : Bytes.valueIn 8 (utf8 "0177") = 127 := by decide
  refine ⟨by decide, ?_, ?_⟩
  · obtain ⟨-, -, hnumeral, -⟩ := read_literals hweight (t := .signed 8 (by decide)) rfl
    rw [hfirst] at hnumeral
    have hoctal := (hnumeral (by decide) (by decide +kernel)).2.1 (by decide) (by decide +kernel)
    rw [hvalue] at hoctal
    exact hoctal.1.1 (by decide)
  · obtain ⟨-, -, hnumeral, -⟩ := read_literals hdamage (t := .unsigned 8) rfl
    rw [hsecond] at hnumeral
    exact (hnumeral (by decide) (by decide +kernel)).2.2 (by decide) ⟨0x38, by decide, by decide⟩

/-- A document can give an integer with a leading zero. It is read as another one. -/
theorem read_octal :
    let s : Section := { header := utf8 "A", line := 0, entries := [(utf8 "ID", utf8 "010")] }
    let field : Field := { name := utf8 "ID", type := .int 64 }
    (Outline.ofText {} (utf8 "[A]\n\x7b\nID=010\n\x7d\n")).sections = [s] ∧
      Bytes.valueIn 10 (utf8 "010") = 10 ∧
      Target.read s (.record [(field, field.type.zero)]) = (.record [(field, .int 8)], none) := by
  intro s field
  refine ⟨by decide +kernel, by decide, by with_unfolding_all rfl⟩

end Record.Place

end DefinitionFiles
