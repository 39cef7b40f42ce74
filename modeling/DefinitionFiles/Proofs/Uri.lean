import DefinitionFiles.Proofs.Path
import DefinitionFiles.Uri

/-!
# File URIs

Percent escapes are undone to the bytes they stand for, so that a path can be read off its escaped
form, and paths with different absolute forms have different file URIs.
-/

namespace DefinitionFiles

theorem Bytes.hexValue?_upperHexDigit {n : Nat} (h : n < 16) :
    Bytes.hexValue? (Bytes.upperHexDigit n) = some n := by
  have hall : ∀ n : Fin 16, Bytes.hexValue? (Bytes.upperHexDigit n) = some n.val := by decide
  exact hall ⟨n, h⟩

namespace Uri

theorem unescape?_free_cons {b : UInt8} (h : b ≠ 0x25) (rest : Bytes) :
    unescape? .free (b :: rest) = (unescape? .free rest).map (b :: ·) := by
  rw [unescape?]
  · simp [h, allowsByte]
  · simp [h]

theorem isPathByte_ne_percent {b : UInt8} (h : isPathByte b = true) : b ≠ 0x25 := by
  rintro rfl
  exact absurd h (by decide)

theorem unescape?_free_percent (b : UInt8) (rest : Bytes) :
    unescape? .free (0x25 :: Bytes.upperHexDigit (b.toNat / 16) ::
      Bytes.upperHexDigit (b.toNat % 16) :: rest) = (unescape? .free rest).map (b :: ·) := by
  have hhigh : b.toNat / 16 < 16 := by
    have := b.toNat_lt
    omega
  have hlow : b.toNat % 16 < 16 := Nat.mod_lt _ (by decide)
  have hb : (16 * (b.toNat / 16) + b.toNat % 16).toUInt8 = b := by
    rw [Nat.div_add_mod]
    exact UInt8.ofNat_toNat
  simp only [unescape?, Bytes.hexValue?_upperHexDigit hhigh, Bytes.hexValue?_upperHexDigit hlow,
    allowsEscape, hb, if_true]

/-- Undoing the escapes of an escaped path gives the path back. -/
theorem unescape?_escape (p : Bytes) : unescape? .free (escape p) = some p := by
  induction p with
  | nil => rfl
  | cons b p ih =>
      have hescape : escape (b :: p) =
          (if isPathByte b then [b] else [0x25, Bytes.upperHexDigit (b.toNat / 16),
            Bytes.upperHexDigit (b.toNat % 16)]) ++ escape p := rfl
      rw [hescape]
      split
      next hpath =>
        rw [List.singleton_append, unescape?_free_cons (isPathByte_ne_percent hpath), ih,
          Option.map_some]
      next =>
        simp only [List.cons_append, List.nil_append]
        rw [unescape?_free_percent, ih, Option.map_some]

theorem escape_injective : Function.Injective escape := by
  intro p q h
  have hunescape := congrArg (unescape? .free) h
  rwa [unescape?_escape, unescape?_escape, Option.some.injEq] at hunescape

/-- Two paths have the same file URI only if they have the same absolute form. -/
theorem ofPath_inj {cwd p q : Bytes} :
    ofPath cwd p = ofPath cwd q ↔ Path.absolute cwd p = Path.absolute cwd q := by
  rw [ofPath, ofPath, List.append_cancel_left_eq, escape_injective.eq_iff]

end Uri

end DefinitionFiles
