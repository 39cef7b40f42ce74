import DefinitionFiles.Json.Reader
import DefinitionFiles.Proofs.Text.Cutting
import Mathlib.Data.List.DropRight

/-!
# What a reader takes of a text

A reader of JSON takes a front of the text and looks at most at one byte behind it, to see whether
a number goes on. So what was read from a front is read from it again, whatever else stands behind
it. Here this is shown for strings, numbers and the other values without parts.
-/

namespace DefinitionFiles.Json

/-! ## Readers that can be repeated -/

/-- Whether a byte may continue a number. -/
def continuesNumber (b : UInt8) : Bool :=
  Bytes.isDigit b || b = 0x2E || b = 0x65 || b = 0x45

/-- Whether one text may stand in place of another behind what was read: it starts in the same way,
or with nothing that could belong to a number. -/
def Replaces (rest' rest : Bytes) : Prop :=
  ∀ b, rest'.head? = some b → rest.head? = some b ∨ continuesNumber b = false

/-- Whether a second reader takes what the first one takes, if it has room for it, whatever stands
behind it. -/
def Repeats {α : Type} (read : Bytes → Option (α × Bytes))
    (again : Nat → Bytes → Option (α × Bytes)) : Prop :=
  ∀ s a rest, read s = some (a, rest) → ∃ front, s = front ++ rest ∧
    ∀ room rest', front.length ≤ room → Replaces rest' rest →
      again room (front ++ rest') = some (a, rest')

theorem replaces_nil (rest : Bytes) : Replaces [] rest := nofun

theorem replaces_cons (b : UInt8) (rest' rest : Bytes) : Replaces (b :: rest') (b :: rest) :=
  fun _ h => .inl h

theorem Replaces.append_left {rest' rest : Bytes} (h : Replaces rest' rest) (front : Bytes) :
    Replaces (front ++ rest') (front ++ rest) := by
  cases front with
  | nil => exact h
  | cons b front => exact replaces_cons b _ _

/-! ## White space -/

theorem skip_eq_self {b : UInt8} (hb : isSpace b = false) (s : Bytes) : skip (b :: s) = b :: s := by
  simp [skip, hb]

theorem skip_skip (s : Bytes) : skip (skip s) = skip s :=
  List.dropWhile_idempotent isSpace s

/-- White space is skipped in the same way whatever follows the first byte behind it. -/
theorem exists_skip_cons {s rest : Bytes} {b : UInt8} (h : skip s = b :: rest) :
    ∃ space, s = space ++ b :: rest ∧ ∀ rest', skip (space ++ b :: rest') = b :: rest' := by
  refine ⟨s.takeWhile isSpace, ?_, ?_⟩
  · rw [← h]
    exact List.takeWhile_append_dropWhile.symm
  · intro rest'
    have hb : isSpace b = false := by
      have hhead := List.head?_dropWhile_not isSpace s
      rw [← skip, h] at hhead
      simpa using hhead
    rw [skip, List.dropWhile_append_of_pos fun a ha => List.mem_takeWhile_imp ha]
    exact skip_eq_self hb _

/-! ## Strings -/

/-- The contents of a string as they are written. -/
inductive Contents : Bytes → Prop where
  | nil : Contents []
  | plain {b : UInt8} {raw : Bytes} (hquote : b ≠ 0x22) (hplain : ¬ (b < 0x20 || b = 0x5C) = true)
      (hraw : Contents raw) : Contents (b :: raw)
  | short {e : UInt8} {raw : Bytes} (he : isShortEscape e = true) (hraw : Contents raw) :
      Contents (0x5C :: e :: raw)
  | unit {a b c d : UInt8} {raw : Bytes}
      (hhex : ([a, b, c, d].all fun x => (Bytes.hexValue? x).isSome) = true) (hraw : Contents raw) :
      Contents (0x5C :: 0x75 :: a :: b :: c :: d :: raw)

theorem stringFrom_plain {b : UInt8} (hquote : b ≠ 0x22) (hplain : ¬ (b < 0x20 || b = 0x5C) = true)
    (acc rest : Bytes) : stringFrom acc (b :: rest) = stringFrom (b :: acc) rest := by
  have hescape : b ≠ 0x5C := by
    rintro rfl
    simp at hplain
  rw [stringFrom.eq_def]
  split
  next heq => cases heq
  next heq =>
    cases heq
    exact absurd rfl hescape
  next heq =>
    cases heq
    exact absurd rfl hescape
  next heq =>
    cases heq
    rw [if_neg hquote, if_neg hplain]

theorem stringFrom_short {e : UInt8} (he : isShortEscape e = true) (acc rest : Bytes) :
    stringFrom acc (0x5C :: e :: rest) = stringFrom (e :: 0x5C :: acc) rest := by
  rw [stringFrom.eq_def]
  split
  next heq => cases heq
  next heq =>
    cases heq
    exact absurd he (by decide)
  next heq =>
    cases heq
    rw [if_pos he]
  next hunit hshort heq =>
    cases heq
    exact (hshort _ _ rfl rfl).elim

theorem Contents.stringFrom_append {raw : Bytes} (h : Contents raw) (acc rest : Bytes) :
    stringFrom acc (raw ++ 0x22 :: rest) = some (acc.reverse ++ raw, rest) := by
  induction h generalizing acc with
  | nil => simp [stringFrom]
  | plain hquote hplain hraw ih =>
      rw [List.cons_append, stringFrom_plain hquote hplain, ih]
      simp
  | short he hraw ih =>
      rw [List.cons_append, List.cons_append, stringFrom_short he, ih]
      simp
  | unit hhex hraw ih =>
      simp only [List.cons_append]
      rw [stringFrom, if_pos hhex, ih]
      simp

theorem exists_contents {acc s raw rest : Bytes} (h : stringFrom acc s = some (raw, rest)) :
    ∃ contents, raw = acc.reverse ++ contents ∧ s = contents ++ 0x22 :: rest ∧
      Contents contents := by
  fun_induction stringFrom acc s with
  | case1 => cases h
  | case2 acc a b c d s hhex ih =>
      obtain ⟨contents, rfl, rfl, hcontents⟩ := ih h
      exact ⟨_, by simp, rfl, .unit hhex hcontents⟩
  | case3 => cases h
  | case4 acc e s hother he ih =>
      obtain ⟨contents, rfl, rfl, hcontents⟩ := ih h
      exact ⟨_, by simp, rfl, .short he hcontents⟩
  | case5 => cases h
  | case6 =>
      cases h
      exact ⟨[], by simp, rfl, .nil⟩
  | case7 => cases h
  | case8 acc b s hunit hshort hquote hplain ih =>
      obtain ⟨contents, rfl, rfl, hcontents⟩ := ih h
      exact ⟨_, by simp, rfl, .plain hquote hplain hcontents⟩

/-- String contents are read up to the first quote that is not escaped. -/
theorem string?_eq_some_iff {s raw rest : Bytes} :
    string? s = some (raw, rest) ↔ s = raw ++ 0x22 :: rest ∧ Contents raw := by
  constructor
  · intro h
    obtain ⟨contents, hraw, hs, hcontents⟩ := exists_contents h
    rw [List.reverse_nil, List.nil_append] at hraw
    subst hraw
    exact ⟨hs, hcontents⟩
  · rintro ⟨rfl, hcontents⟩
    exact hcontents.stringFrom_append [] rest

/-! ## Numbers -/

theorem Replaces.notDigit {rest' rest : Bytes} (h : Replaces rest' rest)
    (hrest : ∀ b, rest.head? = some b → Bytes.isDigit b = false) :
    ∀ b, rest'.head? = some b → Bytes.isDigit b = false := by
  intro b hb
  rcases h b hb with hsame | hother
  · exact hrest b hsame
  · simp only [continuesNumber, Bool.or_eq_false_iff] at hother
    exact hother.1.1.1

theorem Replaces.ne {rest' rest : Bytes} (h : Replaces rest' rest) {c : UInt8}
    (hc : continuesNumber c = true) (hrest : rest.head? ≠ some c) : rest'.head? ≠ some c := by
  intro hhead
  rcases h c hhead with hsame | hother
  · exact hrest hsame
  · rw [hc] at hother
    cases hother

/-- Digits are read up to the first byte that is none. -/
theorem digits?_eq_some_iff {s digits rest : Bytes} :
    digits? s = some (digits, rest) ↔ s = digits ++ rest ∧ digits ≠ [] ∧
      (∀ b ∈ digits, Bytes.isDigit b = true) ∧
      ∀ b, rest.head? = some b → Bytes.isDigit b = false := by
  unfold digits?
  rw [List.span_eq_takeWhile_dropWhile]
  constructor
  · intro h
    split at h
    next => cases h
    next hne heq =>
      cases h
      obtain ⟨rfl, rfl⟩ := Prod.mk.inj heq
      refine ⟨List.takeWhile_append_dropWhile.symm, hne, fun b hb => List.mem_takeWhile_imp hb, ?_⟩
      intro b hb
      have hhead := List.head?_dropWhile_not Bytes.isDigit s
      rw [hb] at hhead
      simpa using hhead
  · rintro ⟨rfl, hne, hdigits, hrest⟩
    have htake : rest.takeWhile Bytes.isDigit = [] ∧ rest.dropWhile Bytes.isDigit = rest := by
      cases rest with
      | nil => simp
      | cons b rest => simp [hrest b rfl]
    rw [List.takeWhile_append_of_pos hdigits, List.dropWhile_append_of_pos hdigits, htake.1,
      htake.2, List.append_nil]
    split
    next heq => exact absurd (Prod.mk.inj heq).1 hne
    next heq => cases heq; rfl

theorem digits?_append {s digits rest rest' : Bytes} (h : digits? s = some (digits, rest))
    (hrest : Replaces rest' rest) : s = digits ++ rest ∧
      digits? (digits ++ rest') = some (digits, rest') := by
  obtain ⟨hs, hne, hdigits, hstop⟩ := digits?_eq_some_iff.mp h
  exact ⟨hs, digits?_eq_some_iff.mpr ⟨rfl, hne, hdigits, hrest.notDigit hstop⟩⟩

theorem whole?_of_head?_ne {s : Bytes} (h : s.head? ≠ some 0x30) : whole? s = digits? s := by
  unfold whole?
  split
  next => exact absurd rfl h
  next => rfl

theorem whole?_append {s whole rest rest' : Bytes} (h : whole? s = some (whole, rest))
    (hrest : Replaces rest' rest) :
    s = whole ++ rest ∧ whole? (whole ++ rest') = some (whole, rest') := by
  unfold whole? at h
  split at h
  next =>
    cases h
    exact ⟨rfl, rfl⟩
  next hzero =>
    obtain ⟨rfl, hagain⟩ := digits?_append h hrest
    obtain ⟨b, digits, rfl⟩ := List.exists_cons_of_ne_nil (digits?_eq_some_iff.mp h).2.1
    refine ⟨rfl, ?_⟩
    rw [whole?_of_head?_ne, hagain]
    intro hhead
    cases hhead
    exact hzero _ rfl

theorem fraction?_of_head?_ne {s : Bytes} (h : s.head? ≠ some 0x2E) :
    fraction? s = some ([], s) := by
  unfold fraction?
  split
  next => exact absurd rfl h
  next => rfl

theorem fraction?_append {s fraction rest rest' : Bytes} (h : fraction? s = some (fraction, rest))
    (hrest : Replaces rest' rest) :
    s = fraction ++ rest ∧ fraction? (fraction ++ rest') = some (fraction, rest') := by
  by_cases hpoint : s.head? = some 0x2E
  · obtain ⟨s, rfl⟩ := List.head?_eq_some_iff.mp hpoint
    obtain ⟨⟨digits, rest⟩, hdigits, heq⟩ := Option.map_eq_some_iff.mp h
    cases heq
    obtain ⟨rfl, hagain⟩ := digits?_append hdigits hrest
    refine ⟨rfl, ?_⟩
    simp [fraction?, hagain]
  · rw [fraction?_of_head?_ne hpoint] at h
    cases h
    exact ⟨rfl, fraction?_of_head?_ne (hrest.ne (by decide) hpoint)⟩

theorem exponentPart?_of_head?_ne {s : Bytes} (hlower : s.head? ≠ some 0x65)
    (hupper : s.head? ≠ some 0x45) : exponentPart? s = some ([], s) := by
  match s with
  | [] => rfl
  | [e] | e :: _ :: _ =>
      have he : ¬ (e = 0x65 || e = 0x45) = true := by simp_all
      rw [exponentPart?, if_neg he]

theorem exponentPart?_cons {e : UInt8} (he : (e = 0x65 || e = 0x45) = true) (sign : UInt8)
    (s : Bytes) :
    exponentPart? (e :: sign :: s) =
      if sign = 0x2B || sign = 0x2D then
        (digits? s).map fun (digits, rest) => (e :: sign :: digits, rest)
      else (digits? (sign :: s)).map fun (digits, rest) => (e :: digits, rest) := by
  rw [exponentPart?, if_pos he]

theorem exponentPart?_cons_append {e sign : UInt8} {s exponent rest rest' : Bytes}
    (he : (e = 0x65 || e = 0x45) = true)
    (h : exponentPart? (e :: sign :: s) = some (exponent, rest)) (hrest : Replaces rest' rest) :
    e :: sign :: s = exponent ++ rest ∧
      exponentPart? (exponent ++ rest') = some (exponent, rest') := by
  rw [exponentPart?_cons he] at h
  by_cases hsign : (sign = 0x2B || sign = 0x2D) = true
  · rw [if_pos hsign] at h
    obtain ⟨⟨digits, rest⟩, hdigits, heq⟩ := Option.map_eq_some_iff.mp h
    cases heq
    obtain ⟨rfl, hagain⟩ := digits?_append hdigits hrest
    refine ⟨rfl, ?_⟩
    rw [List.cons_append, List.cons_append, exponentPart?_cons he, if_pos hsign, hagain]
    rfl
  · rw [if_neg hsign] at h
    obtain ⟨⟨digits, rest⟩, hdigits, heq⟩ := Option.map_eq_some_iff.mp h
    cases heq
    obtain ⟨hs, hagain⟩ := digits?_append hdigits hrest
    obtain ⟨b, digits, rfl⟩ := List.exists_cons_of_ne_nil (digits?_eq_some_iff.mp hdigits).2.1
    obtain ⟨rfl, rfl⟩ := List.cons.inj hs
    refine ⟨rfl, ?_⟩
    rw [List.cons_append, List.cons_append, exponentPart?_cons he, if_neg hsign,
      ← List.cons_append, hagain]
    rfl

theorem exponentPart?_append {s exponent rest rest' : Bytes}
    (h : exponentPart? s = some (exponent, rest)) (hrest : Replaces rest' rest) :
    s = exponent ++ rest ∧ exponentPart? (exponent ++ rest') = some (exponent, rest') := by
  by_cases hmark : s.head? = some 0x65 ∨ s.head? = some 0x45
  · match s with
    | [e] =>
        have he : (e = 0x65 || e = 0x45) = true := by simpa using hmark
        rw [exponentPart?, if_pos he] at h
        cases h
    | e :: sign :: s => exact exponentPart?_cons_append (by simpa using hmark) h hrest
  · obtain ⟨hlower, hupper⟩ := not_or.mp hmark
    rw [exponentPart?_of_head?_ne hlower hupper] at h
    cases h
    refine ⟨rfl, exponentPart?_of_head?_ne ?_ ?_⟩
    · exact hrest.ne (by decide) hlower
    · exact hrest.ne (by decide) hupper

/-- Reads a number without its sign. -/
def magnitude? (s : Bytes) : Option (Bytes × Bytes) := do
  let (whole, s) ← whole? s
  let (fraction, s) ← fraction? s
  let (exponent, s) ← exponentPart? s
  return (whole ++ fraction ++ exponent, s)

theorem number?_cons_minus (s : Bytes) :
    number? (0x2D :: s) = (magnitude? s).map fun (text, rest) => (0x2D :: text, rest) := by
  simp only [number?, magnitude?, Option.bind_eq_bind, Option.map_bind, Function.comp_def]
  rfl

theorem number?_of_head?_ne {s : Bytes} (h : s.head? ≠ some 0x2D) : number? s = magnitude? s := by
  unfold number? magnitude?
  split
  next sign rest heq =>
    split at heq
    next => exact absurd rfl h
    next =>
      cases heq
      rfl

theorem magnitude?_append {s text rest rest' : Bytes} (h : magnitude? s = some (text, rest))
    (hrest : Replaces rest' rest) :
    s = text ++ rest ∧ magnitude? (text ++ rest') = some (text, rest') := by
  simp only [magnitude?, Option.bind_eq_bind, Option.bind_eq_some_iff] at h
  obtain ⟨⟨whole, s₁⟩, hwhole, ⟨fraction, s₂⟩, hfraction, ⟨exponent, s₃⟩, hexponent, heq⟩ := h
  cases heq
  obtain ⟨rfl, hexponent'⟩ := exponentPart?_append hexponent hrest
  obtain ⟨rfl, hfraction'⟩ := fraction?_append hfraction (hrest.append_left exponent)
  obtain ⟨rfl, hwhole'⟩ :=
    whole?_append hwhole ((hrest.append_left exponent).append_left fraction)
  refine ⟨by simp, ?_⟩
  simp [magnitude?, List.append_assoc, hwhole', hfraction', hexponent']

theorem number?_append {s text rest rest' : Bytes} (h : number? s = some (text, rest))
    (hrest : Replaces rest' rest) :
    s = text ++ rest ∧ number? (text ++ rest') = some (text, rest') := by
  by_cases hsign : s.head? = some 0x2D
  · obtain ⟨s, rfl⟩ := List.head?_eq_some_iff.mp hsign
    rw [number?_cons_minus] at h
    obtain ⟨⟨text, rest⟩, hmagnitude, heq⟩ := Option.map_eq_some_iff.mp h
    cases heq
    obtain ⟨rfl, hagain⟩ := magnitude?_append hmagnitude hrest
    refine ⟨rfl, ?_⟩
    rw [List.cons_append, number?_cons_minus, hagain]
    rfl
  · rw [number?_of_head?_ne hsign] at h
    obtain ⟨rfl, hagain⟩ := magnitude?_append h hrest
    refine ⟨rfl, ?_⟩
    -- A number without a sign is not empty, so that its first byte decides again.
    obtain ⟨b, text, rfl⟩ : ∃ b t, text = b :: t := by
      apply List.exists_cons_of_ne_nil
      rintro rfl
      have hnothing := (magnitude?_append h (replaces_nil rest)).2
      cases hnothing
    rw [number?_of_head?_ne (by simpa using hsign), hagain]

/-! ## Values without parts -/

theorem scalar?_eq_number? {b : UInt8} (hstring : b ≠ 0x22) (hnull : b ≠ 0x6E) (htrue : b ≠ 0x74)
    (hfalse : b ≠ 0x66) (s : Bytes) :
    scalar? (b :: s) = (number? (b :: s)).map fun (text, rest) => (.number text, rest) := by
  unfold scalar?
  split
  next heq => exact absurd (List.cons.inj heq).1 hstring
  next heq => exact absurd (List.cons.inj heq).1 hnull
  next heq => exact absurd (List.cons.inj heq).1 htrue
  next heq => exact absurd (List.cons.inj heq).1 hfalse
  next => rfl

theorem repeats_scalar? : Repeats scalar? fun _ => scalar? := by
  intro s j rest h
  unfold scalar? at h
  split at h
  next s =>
    obtain ⟨⟨raw, rest⟩, hraw, heq⟩ := Option.map_eq_some_iff.mp h
    cases heq
    obtain ⟨rfl, hcontents⟩ := string?_eq_some_iff.mp hraw
    refine ⟨0x22 :: (raw ++ [0x22]), by simp, ?_⟩
    intro room rest' _ _
    have hagain : string? (raw ++ 0x22 :: rest') = some (raw, rest') :=
      string?_eq_some_iff.mpr ⟨rfl, hcontents⟩
    simp [scalar?, hagain]
  next s =>
    obtain ⟨rest, hafter, heq⟩ := Option.map_eq_some_iff.mp h
    cases heq
    obtain rfl := Bytes.after?_eq_some_iff.mp hafter
    exact ⟨0x6E :: utf8 "ull", rfl, fun _ rest' _ _ => by simp [scalar?, Bytes.after?_append]⟩
  next s =>
    obtain ⟨rest, hafter, heq⟩ := Option.map_eq_some_iff.mp h
    cases heq
    obtain rfl := Bytes.after?_eq_some_iff.mp hafter
    exact ⟨0x74 :: utf8 "rue", rfl, fun _ rest' _ _ => by simp [scalar?, Bytes.after?_append]⟩
  next s =>
    obtain ⟨rest, hafter, heq⟩ := Option.map_eq_some_iff.mp h
    cases heq
    obtain rfl := Bytes.after?_eq_some_iff.mp hafter
    exact ⟨0x66 :: utf8 "alse", rfl, fun _ rest' _ _ => by simp [scalar?, Bytes.after?_append]⟩
  next hstring hnull htrue hfalse =>
    obtain ⟨⟨text, rest⟩, hnumber, heq⟩ := Option.map_eq_some_iff.mp h
    cases heq
    obtain ⟨b, text, rfl⟩ : ∃ b t, text = b :: t := by
      apply List.exists_cons_of_ne_nil
      rintro rfl
      cases (number?_append hnumber (replaces_nil rest)).2
    obtain ⟨rfl, -⟩ := number?_append hnumber (replaces_nil rest)
    refine ⟨b :: text, rfl, ?_⟩
    intro room rest' _ hrest
    have hagain := (number?_append hnumber hrest).2
    have hfirst : ∀ c, (∀ s, b :: text ++ rest = c :: s → False) → b ≠ c := by
      rintro _ hother rfl
      exact hother _ rfl
    change scalar? (b :: (text ++ rest')) = _
    rw [scalar?_eq_number? (hfirst _ hstring) (hfirst _ hnull) (hfirst _ htrue) (hfirst _ hfalse),
      ← List.cons_append, hagain]
    rfl

end DefinitionFiles.Json
