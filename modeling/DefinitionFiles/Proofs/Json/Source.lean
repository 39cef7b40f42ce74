import DefinitionFiles.Proofs.Json.Scalar

/-!
# The texts of values

An array or object is read from the texts of its parts, each of which can be read again on its own,
with bounds that just suffice for it. In particular the text that is kept of a member of an object
is the text of a value, without white space around it.
-/

namespace DefinitionFiles.Json

/-! ## Arrays and objects -/

section Parts

variable {α : Type}

/-- Reads parts with commas between them up to a closing byte. -/
def partsFrom (closing : UInt8) (part : Bytes → Option (α × Bytes)) :
    (bound : Nat) → (acc : List α) → Bytes → Option (List α × Bytes)
  | 0, _, _ => none
  | bound + 1, acc, s =>
      match part s with
      | none => none
      | some (a, s) =>
          match skip s with
          | [] => none
          | b :: s =>
              if b = 0x2C then partsFrom closing part bound (a :: acc) s
              else if b = closing then some ((a :: acc).reverse, s)
              else none

/-- Reads parts up to a closing byte, if there are any. -/
def parts? (closing : UInt8) (part : Bytes → Option (α × Bytes)) (bound : Nat) (s : Bytes) :
    Option (List α × Bytes) :=
  if (skip s).head? = some closing then some ([], (skip s).tail)
  else partsFrom closing part bound [] (skip s)

theorem itemsFrom_eq (value : Bytes → Option (α × Bytes)) (bound : Nat) (acc : List α)
    (s : Bytes) : itemsFrom value bound acc s = partsFrom 0x5D value bound acc s := by
  induction bound generalizing acc s with
  | zero => rfl
  | succ bound ih =>
      unfold itemsFrom partsFrom
      cases value s with
      | none => rfl
      | some found =>
          obtain ⟨a, s⟩ := found
          simp only
          split
          next heq => simp [heq, ih]
          next heq => simp [heq]
          next hcomma hclosing =>
            cases hskip : skip s with
            | nil => rfl
            | cons b s => simp_all

theorem membersFrom_eq (value : Bytes → Option (α × Bytes)) (bound : Nat) (acc : List (Bytes × α))
    (s : Bytes) : membersFrom value bound acc s = partsFrom 0x7D (member? value) bound acc s := by
  induction bound generalizing acc s with
  | zero => rfl
  | succ bound ih =>
      unfold membersFrom partsFrom
      cases member? value s with
      | none => rfl
      | some found =>
          obtain ⟨a, s⟩ := found
          simp only
          split
          next heq => simp [heq, ih]
          next heq => simp [heq]
          next hcomma hclosing =>
            cases hskip : skip s with
            | nil => rfl
            | cons b s => simp_all

theorem items?_eq (value : Bytes → Option (α × Bytes)) (bound : Nat) (s : Bytes) :
    items? value bound s = parts? 0x5D value bound s := by
  unfold items? parts?
  split
  next heq => simp [heq]
  next hother =>
    rw [if_neg, itemsFrom_eq]
    intro hhead
    obtain ⟨s, hs⟩ := List.head?_eq_some_iff.mp hhead
    exact hother s hs

theorem members?_eq (value : Bytes → Option (α × Bytes)) (bound : Nat) (s : Bytes) :
    members? value bound s = parts? 0x7D (member? value) bound s := by
  unfold members? parts?
  split
  next heq => simp [heq]
  next hother =>
    rw [if_neg, membersFrom_eq]
    intro hhead
    obtain ⟨s, hs⟩ := List.head?_eq_some_iff.mp hhead
    exact hother s hs

variable {part : Bytes → Option (α × Bytes)} {again : Nat → Bytes → Option (α × Bytes)}

/-- A part and the byte that follows it, apart from white space, are read again. -/
theorem Repeats.delimited (hpart : Repeats part again) {s s₁ s₂ : Bytes} {a : α} {b : UInt8}
    (hread : part s = some (a, s₁)) (hskip : skip s₁ = b :: s₂) :
    ∃ front, s = front ++ b :: s₂ ∧ ∀ room rest', front.length ≤ room →
      ∃ s', again room (front ++ b :: rest') = some (a, s') ∧ skip s' = b :: rest' := by
  obtain ⟨front, rfl, hagain⟩ := hpart s a s₁ hread
  obtain ⟨space, rfl, hspace⟩ := exists_skip_cons hskip
  refine ⟨front ++ space, by simp, ?_⟩
  intro room rest' hroom
  refine ⟨space ++ b :: rest', ?_, hspace rest'⟩
  have hfront : front.length ≤ room := by
    simp only [List.length_append] at hroom
    omega
  rw [List.append_assoc]
  exact hagain room _ hfront ((replaces_cons b rest' s₂).append_left space)

/-- Parts are read again if each of them is. Every one is followed by a comma or the closing byte,
so that there are no more of them than bytes. -/
theorem Repeats.partsFrom (hpart : Repeats part again) {closing : UInt8} {bound : Nat}
    {acc parts : List α} {s rest : Bytes}
    (h : Json.partsFrom closing part bound acc s = some (parts, rest)) :
    ∃ front, s = front ++ rest ∧ ∀ room count rest', front.length ≤ room → front.length ≤ count →
      Json.partsFrom closing (again room) count acc (front ++ rest') = some (parts, rest') := by
  induction bound generalizing acc s with
  | zero => cases h
  | succ bound ih =>
      unfold Json.partsFrom at h
      cases hread : part s with
      | none => simp [hread] at h
      | some found =>
          obtain ⟨a, s₁⟩ := found
          simp only [hread] at h
          cases hskip : skip s₁ with
          | nil => simp [hskip] at h
          | cons b s₂ =>
              simp only [hskip] at h
              obtain ⟨front, rfl, hagain⟩ := hpart.delimited hread hskip
              by_cases hcomma : b = 0x2C
              · rw [if_pos hcomma] at h
                obtain ⟨front₂, rfl, hlater⟩ := ih h
                refine ⟨front ++ b :: front₂, by simp, ?_⟩
                intro room count rest' hroom hcount
                simp only [List.length_append, List.length_cons] at hroom hcount
                obtain ⟨count, rfl⟩ : ∃ n, count = n + 1 := ⟨count - 1, by omega⟩
                obtain ⟨s', hfirst, hskip'⟩ := hagain room (front₂ ++ rest') (by omega)
                have hrest := hlater room count rest' (by omega) (by omega)
                rw [List.append_assoc, List.cons_append, Json.partsFrom]
                simp only [hfirst, hskip', if_pos hcomma, hrest]
              · rw [if_neg hcomma] at h
                by_cases hclosing : b = closing
                · rw [if_pos hclosing] at h
                  cases h
                  refine ⟨front ++ [b], by simp, ?_⟩
                  intro room count rest' hroom hcount
                  simp only [List.length_append, List.length_singleton] at hroom hcount
                  obtain ⟨count, rfl⟩ : ∃ n, count = n + 1 := ⟨count - 1, by omega⟩
                  obtain ⟨s', hfirst, hskip'⟩ := hagain room rest' (by omega)
                  rw [List.append_assoc, List.singleton_append, Json.partsFrom]
                  simp only [hfirst, hskip', if_neg hcomma, if_pos hclosing]
                · rw [if_neg hclosing] at h
                  cases h

theorem Repeats.parts? (hpart : Repeats part again) (closing : UInt8) (bound : Nat) :
    Repeats (Json.parts? closing part bound) fun room => Json.parts? closing (again room) room := by
  intro s parts rest h
  unfold Json.parts? at h
  by_cases hclosing : (skip s).head? = some closing
  · rw [if_pos hclosing] at h
    obtain ⟨s₁, hs⟩ := List.head?_eq_some_iff.mp hclosing
    obtain ⟨space, rfl, hspace⟩ := exists_skip_cons hs
    rw [hs] at h
    cases h
    refine ⟨space ++ [closing], by simp, ?_⟩
    intro room rest' _ _
    simp [Json.parts?, hspace]
  · rw [if_neg hclosing] at h
    obtain ⟨front, hs, hagain⟩ := hpart.partsFrom h
    obtain ⟨b, front, rfl⟩ : ∃ b t, front = b :: t := by
      apply List.exists_cons_of_ne_nil
      rintro rfl
      cases hagain 0 0 [] (Nat.le_refl _) (Nat.le_refl _)
    obtain ⟨space, rfl, hspace⟩ := exists_skip_cons hs
    rw [hs] at hclosing
    refine ⟨space ++ b :: front, by simp, ?_⟩
    intro room rest' hroom _
    have hfront : (b :: front).length ≤ room := by
      simp only [List.length_append] at hroom
      omega
    have hparts := hagain room room rest' hfront hfront
    have hskip := hspace (front ++ rest')
    rw [List.append_assoc, List.cons_append]
    simp only [Json.parts?, hskip]
    rw [if_neg (by simpa using hclosing)]
    exact hparts

theorem Repeats.opened (hread : Repeats part again) {s s₁ rest : Bytes} {a : α} {b : UInt8}
    (hskip : skip s = b :: s₁) (h : part s₁ = some (a, rest)) :
    ∃ front, s = front ++ rest ∧ ∀ room rest', front.length ≤ room → Replaces rest' rest →
      ∃ s', skip (front ++ rest') = b :: s' ∧ again room s' = some (a, rest') := by
  obtain ⟨front, rfl, hagain⟩ := hread s₁ a rest h
  obtain ⟨space, rfl, hspace⟩ := exists_skip_cons hskip
  refine ⟨space ++ b :: front, by simp, ?_⟩
  intro room rest' hroom hrest
  have hfront : front.length ≤ room := by
    simp only [List.length_append, List.length_cons] at hroom
    omega
  refine ⟨front ++ rest', ?_, hagain room rest' hfront hrest⟩
  simpa using hspace (front ++ rest')

theorem member?_eq_some_iff {s rest name : Bytes} {a : α} :
    Json.member? part s = some ((name, a), rest) ↔ ∃ s₁ s₂ s₃, skip s = 0x22 :: s₁ ∧
      string? s₁ = some (name, s₂) ∧ skip s₂ = 0x3A :: s₃ ∧ part s₃ = some (a, rest) := by
  unfold Json.member?
  constructor
  · intro h
    split at h
    next s₁ hquote =>
      simp only [Option.bind_eq_bind, Option.bind_eq_some_iff] at h
      obtain ⟨⟨name', s₂⟩, hname, h⟩ := h
      split at h
      next s₃ hcolon =>
        obtain ⟨⟨a', rest'⟩, hread, heq⟩ := Option.bind_eq_some_iff.mp h
        cases heq
        exact ⟨s₁, s₂, s₃, hquote, hname, hcolon, hread⟩
      next => cases h
    next => cases h
  · rintro ⟨s₁, s₂, s₃, hquote, hname, hcolon, hread⟩
    simp [hquote, hname, hcolon, hread]

theorem Repeats.member? (hvalue : Repeats part again) :
    Repeats (Json.member? part) fun room => Json.member? (again room) := by
  rintro s ⟨name, a⟩ rest h
  obtain ⟨s₁, s₂, s₃, hquote, hname, hcolon, hread⟩ := member?_eq_some_iff.mp h
  obtain ⟨front, rfl, hagain⟩ := hvalue s₃ a rest hread
  obtain ⟨space₂, rfl, hspace₂⟩ := exists_skip_cons hcolon
  obtain ⟨rfl, hcontents⟩ := string?_eq_some_iff.mp hname
  obtain ⟨space₁, rfl, hspace₁⟩ := exists_skip_cons hquote
  refine ⟨space₁ ++ 0x22 :: (name ++ 0x22 :: (space₂ ++ 0x3A :: front)), by simp, ?_⟩
  intro room rest' hroom hrest
  have hfront : front.length ≤ room := by
    simp only [List.length_append, List.length_cons] at hroom
    omega
  refine member?_eq_some_iff.mpr ⟨name ++ 0x22 :: (space₂ ++ 0x3A :: (front ++ rest')),
    space₂ ++ 0x3A :: (front ++ rest'), front ++ rest', ?_, ?_, hspace₂ _,
    hagain room rest' hfront hrest⟩
  · simpa using hspace₁ (name ++ 0x22 :: (space₂ ++ 0x3A :: (front ++ rest')))
  · exact string?_eq_some_iff.mpr ⟨rfl, hcontents⟩

end Parts

/-! ## Values -/

theorem scalar?_cons_bracket (s : Bytes) : scalar? (0x5B :: s) = none := rfl

theorem scalar?_cons_brace (s : Bytes) : scalar? (0x7B :: s) = none := rfl

theorem value?_skip (bound depth : Nat) (s : Bytes) :
    value? bound depth (skip s) = value? bound depth s := by
  cases depth <;> simp only [value?, skip_skip]

theorem value?_of_scalar {b : UInt8} {s t : Bytes} (h : skip s = b :: t) (hbracket : b ≠ 0x5B)
    (hbrace : b ≠ 0x7B) (bound depth : Nat) : value? bound depth s = scalar? (b :: t) := by
  cases depth with
  | zero => rw [value?, h]
  | succ depth =>
      rw [value?, h]
      split
      next heq => exact absurd (List.cons.inj heq).1 hbracket
      next heq => exact absurd (List.cons.inj heq).1 hbrace
      next => rfl

theorem exists_value?_of_scalar? {s rest : Bytes} {j : Json}
    (h : scalar? (skip s) = some (j, rest)) :
    ∃ front, s = front ++ rest ∧ ∀ bound depth rest', Replaces rest' rest →
      value? bound depth (front ++ rest') = some (j, rest') := by
  obtain ⟨front, hs, hagain⟩ := repeats_scalar? _ j rest h
  obtain ⟨b, front, rfl⟩ : ∃ b t, front = b :: t := by
    apply List.exists_cons_of_ne_nil
    rintro rfl
    cases hagain 0 [] (Nat.le_refl _) (replaces_nil rest)
  have hbracket : b ≠ 0x5B := by
    rintro rfl
    rw [hs, List.cons_append, scalar?_cons_bracket] at h
    cases h
  have hbrace : b ≠ 0x7B := by
    rintro rfl
    rw [hs, List.cons_append, scalar?_cons_brace] at h
    cases h
  obtain ⟨space, rfl, hspace⟩ := exists_skip_cons hs
  refine ⟨space ++ b :: front, by simp, ?_⟩
  intro bound depth rest' hrest
  rw [List.append_assoc, List.cons_append,
    value?_of_scalar (hspace (front ++ rest')) hbracket hbrace]
  exact hagain _ rest' (Nat.le_refl _) hrest

/-- A value is read again with any bounds that are not below those of its own text. -/
theorem repeats_value? {depth depth' : Nat} (hdepth : depth ≤ depth') (bound : Nat) :
    Repeats (value? bound depth) fun room => value? room depth' := by
  induction depth generalizing depth' with
  | zero =>
      intro s j rest h
      obtain ⟨front, rfl, hagain⟩ := exists_value?_of_scalar? h
      exact ⟨front, rfl, fun room rest' _ hrest => hagain room depth' rest' hrest⟩
  | succ depth ih =>
      obtain ⟨depth', rfl⟩ : ∃ n, depth' = n + 1 := ⟨depth' - 1, by omega⟩
      have hparts := ih (Nat.le_of_succ_le_succ hdepth)
      intro s j rest h
      rw [value?] at h
      split at h
      next s₁ hskip =>
        obtain ⟨⟨items, rest⟩, hitems, heq⟩ := Option.map_eq_some_iff.mp h
        cases heq
        rw [items?_eq] at hitems
        obtain ⟨front, rfl, hagain⟩ := (hparts.parts? 0x5D bound).opened hskip hitems
        refine ⟨front, rfl, ?_⟩
        intro room rest' hroom hrest
        obtain ⟨s', hskip', hitems'⟩ := hagain room rest' hroom hrest
        simp only [value?, hskip', items?_eq, hitems', Option.map_some]
      next s₁ hskip =>
        obtain ⟨⟨members, rest⟩, hmembers, heq⟩ := Option.map_eq_some_iff.mp h
        cases heq
        rw [members?_eq] at hmembers
        obtain ⟨front, rfl, hagain⟩ := (hparts.member?.parts? 0x7D bound).opened hskip hmembers
        refine ⟨front, rfl, ?_⟩
        intro room rest' hroom hrest
        obtain ⟨s', hskip', hmembers'⟩ := hagain room rest' hroom hrest
        simp only [value?, hskip', members?_eq, hmembers', Option.map_some]
      next =>
        obtain ⟨front, rfl, hagain⟩ := exists_value?_of_scalar? h
        exact ⟨front, rfl, fun room rest' _ hrest => hagain room _ rest' hrest⟩

/-! ## The texts of members -/

/-- Whether a text is that of a value, with nothing around it. -/
def IsSource (text : Bytes) : Prop :=
  ∃ j, parse? text = some j ∧ (j = .null → text = utf8 "null")

theorem eq_null_of_scalar? {s rest : Bytes} (h : scalar? s = some (.null, rest)) :
    s = utf8 "null" ++ rest := by
  unfold scalar? at h
  split at h
  case h_2 s =>
    obtain ⟨rest', hafter, heq⟩ := Option.map_eq_some_iff.mp h
    cases heq
    rw [Bytes.after?_eq_some_iff.mp hafter]
    rfl
  all_goals
    obtain ⟨_, _, heq⟩ := Option.map_eq_some_iff.mp h
    cases heq

theorem eq_null_of_value? {bound depth : Nat} {s rest : Bytes}
    (h : value? bound depth s = some (.null, rest)) : skip s = utf8 "null" ++ rest := by
  cases depth with
  | zero => exact eq_null_of_scalar? h
  | succ depth =>
      rw [value?] at h
      split at h
      case h_3 => exact eq_null_of_scalar? h
      all_goals
        obtain ⟨_, _, heq⟩ := Option.map_eq_some_iff.mp h
        cases heq

theorem isSource_of_source? {bound depth : Nat} {s text rest : Bytes} (hdepth : depth ≤ maxDepth)
    (h : source? bound depth s = some (text, rest)) : IsSource text := by
  obtain ⟨⟨j, rest⟩, hvalue, heq⟩ := Option.map_eq_some_iff.mp h
  obtain ⟨front, hs, hagain⟩ := repeats_value? hdepth bound _ _ _ hvalue
  have htext : text = front := by
    cases heq
    simp [hs]
  subst htext
  refine ⟨j, ?_, ?_⟩
  · have hwhole : value? text.length maxDepth text = some (j, []) := by
      simpa using hagain text.length [] (Nat.le_refl _) (replaces_nil rest)
    rw [parse?, hwhole]
    rfl
  · rintro rfl
    have hnull := eq_null_of_value? hvalue
    rw [skip_skip, hs] at hnull
    exact List.append_cancel_right hnull

theorem exists_of_mem_partsFrom {α : Type} {part : Bytes → Option (α × Bytes)} {closing : UInt8}
    {bound : Nat} {acc parts : List α} {s rest : Bytes}
    (h : partsFrom closing part bound acc s = some (parts, rest)) {a : α} (ha : a ∈ parts) :
    a ∈ acc ∨ ∃ s rest, part s = some (a, rest) := by
  induction bound generalizing acc s with
  | zero => cases h
  | succ bound ih =>
      unfold partsFrom at h
      cases hread : part s with
      | none => simp [hread] at h
      | some found =>
          obtain ⟨a', s₁⟩ := found
          simp only [hread] at h
          have hfirst : a ∈ a' :: acc → a ∈ acc ∨ ∃ s rest, part s = some (a, rest) := by
            intro hmem
            rcases List.mem_cons.mp hmem with rfl | hacc
            · exact .inr ⟨s, s₁, hread⟩
            · exact .inl hacc
          repeat' split at h
          · cases h
          · exact (ih h).elim hfirst .inr
          · cases h
            exact hfirst (List.mem_reverse.mp ha)
          · cases h

theorem exists_of_mem_parts? {α : Type} {part : Bytes → Option (α × Bytes)} {closing : UInt8}
    {bound : Nat} {parts : List α} {s rest : Bytes}
    (h : parts? closing part bound s = some (parts, rest)) {a : α} (ha : a ∈ parts) :
    ∃ s rest, part s = some (a, rest) := by
  unfold parts? at h
  split at h
  · cases h
    cases ha
  · exact (exists_of_mem_partsFrom h ha).resolve_left (List.not_mem_nil)

theorem complete_eq_some_iff {α : Type} {read? : Option (α × Bytes)} {a : α} :
    complete read? = some a ↔ ∃ rest, read? = some (a, rest) ∧ skip rest = [] := by
  cases read? with
  | none => simp [complete]
  | some found =>
      obtain ⟨a', rest⟩ := found
      by_cases hrest : skip rest = [] <;> simp [complete, hrest]

/-- The text of a member of an object is the text of a value. -/
theorem isSource_of_sources? {text : Bytes} {sources : List (Bytes × Bytes)}
    (h : sources? text = some sources) : ∀ p ∈ sources, IsSource p.2 := by
  rintro ⟨name, source⟩ hmem
  unfold sources? at h
  split at h
  next s _ =>
    obtain ⟨rest, hmembers, -⟩ := complete_eq_some_iff.mp h
    rw [members?_eq] at hmembers
    obtain ⟨s', rest', hmember⟩ := exists_of_mem_parts? hmembers hmem
    obtain ⟨_, _, s₃, -, -, -, hsource⟩ := member?_eq_some_iff.mp hmember
    exact isSource_of_source? (Nat.sub_le _ _) hsource
  next => cases h

/-! ## Two readers of the same parts -/

section Parts

variable {α β : Type} {part : Bytes → Option (α × Bytes)} {other : Bytes → Option (β × Bytes)}

/-- A reader that takes the same fronts as another one finds the same parts. -/
theorem exists_partsFrom (h : ∀ s a rest, part s = some (a, rest) → ∃ b, other s = some (b, rest))
    {closing : UInt8} {bound : Nat} {acc parts : List α} {s rest : Bytes}
    (hparts : partsFrom closing part bound acc s = some (parts, rest)) (acc' : List β) :
    ∃ parts', partsFrom closing other bound acc' s = some (parts', rest) := by
  induction bound generalizing acc acc' s with
  | zero => cases hparts
  | succ bound ih =>
      unfold partsFrom at hparts ⊢
      cases hread : part s with
      | none => simp [hread] at hparts
      | some found =>
          obtain ⟨a, s₁⟩ := found
          obtain ⟨b, hother⟩ := h s a s₁ hread
          simp only [hread, hother] at hparts ⊢
          cases hskip : skip s₁ with
          | nil => simp [hskip] at hparts
          | cons c s₂ =>
              simp only [hskip] at hparts ⊢
              split at hparts
              next hcomma =>
                rw [if_pos hcomma]
                exact ih hparts (b :: acc')
              next hcomma =>
                rw [if_neg hcomma]
                split at hparts
                next hclosing =>
                  cases hparts
                  exact ⟨_, if_pos hclosing⟩
                next => cases hparts

theorem exists_members? (h : ∀ s a rest, part s = some (a, rest) → ∃ b, other s = some (b, rest))
    {bound : Nat} {members : List (Bytes × α)} {s rest : Bytes}
    (hmembers : members? part bound s = some (members, rest)) :
    ∃ members', members? other bound s = some (members', rest) := by
  have hmember : ∀ s a rest, Json.member? part s = some (a, rest) →
      ∃ b, Json.member? other s = some (b, rest) := by
    rintro s ⟨name, a⟩ rest hread
    obtain ⟨s₁, s₂, s₃, hquote, hname, hcolon, hvalue⟩ := member?_eq_some_iff.mp hread
    obtain ⟨b, hother⟩ := h s₃ a rest hvalue
    exact ⟨(name, b), member?_eq_some_iff.mpr ⟨s₁, s₂, s₃, hquote, hname, hcolon, hother⟩⟩
  rw [members?_eq, parts?] at hmembers ⊢
  split at hmembers
  next hclosing =>
    cases hmembers
    exact ⟨[], if_pos hclosing⟩
  next hclosing =>
    rw [if_neg hclosing]
    exact exists_partsFrom hmember hmembers []

end Parts

/-- A text that falls apart into the texts of members is that of a value. -/
theorem exists_parse?_of_sources? {text : Bytes} {sources : List (Bytes × Bytes)}
    (h : sources? text = some sources) : ∃ j, parse? text = some j := by
  unfold sources? at h
  split at h
  next s hskip =>
    obtain ⟨rest, hmembers, hrest⟩ := complete_eq_some_iff.mp h
    have hsource : ∀ s a rest, source? text.length (maxDepth - 1) s = some (a, rest) →
        ∃ j, value? text.length (maxDepth - 1) s = some (j, rest) := by
      intro s a rest hread
      obtain ⟨⟨j, rest⟩, hvalue, heq⟩ := Option.map_eq_some_iff.mp hread
      cases heq
      exact ⟨j, by rwa [value?_skip] at hvalue⟩
    obtain ⟨members, hread⟩ := exists_members? hsource hmembers
    refine ⟨.object members, complete_eq_some_iff.mpr ⟨rest, ?_, hrest⟩⟩
    rw [show maxDepth = maxDepth - 1 + 1 by rfl, value?, hskip]
    simp only [hread, Option.map_some]
  next => cases h

end DefinitionFiles.Json
