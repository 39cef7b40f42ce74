import DefinitionFiles.Proofs.Json.Contents
import DefinitionFiles.Proofs.Json.Source
import Mathlib.Data.List.Forall2

/-!
# Reading what was written

A value that was read is well-formed: its numbers and strings are such as can stand in a text, and
its containers nest no deeper than the reader allows. The other way round, such a value is read
from its own text, apart from markup in its strings, which is escaped there and stands for the same
text. A value that nests deeper is not read from its text at all.
-/

namespace DefinitionFiles.Json

/-! ## Values -/

mutual

/-- How deep the containers of a value nest. -/
def height : Json → Nat
  | .array items => itemsHeight items + 1
  | .object members => membersHeight members + 1
  | _ => 0

def itemsHeight : List Json → Nat
  | [] => 0
  | item :: rest => max (height item) (itemsHeight rest)

def membersHeight : List (Bytes × Json) → Nat
  | [] => 0
  | (_, value) :: rest => max (height value) (membersHeight rest)

end

mutual

/-- A value with the same change made to all its strings and names. -/
def mapStrings (f : Bytes → Bytes) : Json → Json
  | .null => .null
  | .bool b => .bool b
  | .number text => .number text
  | .string raw => .string (f raw)
  | .array items => .array (mapItems f items)
  | .object members => .object (mapMembers f members)

def mapItems (f : Bytes → Bytes) : List Json → List Json
  | [] => []
  | item :: rest => mapStrings f item :: mapItems f rest

def mapMembers (f : Bytes → Bytes) : List (Bytes × Json) → List (Bytes × Json)
  | [] => []
  | (name, value) :: rest => (f name, mapStrings f value) :: mapMembers f rest

end

/-- A value as it is written: its markup is escaped. -/
def guarded (j : Json) : Json :=
  j.mapStrings guardMarkup

/-- What a value denotes: its strings and names are the texts they stand for. Numbers, the order of
members and repeated members are kept. -/
def meaning (j : Json) : Json :=
  j.mapStrings unescape

theorem itemsHeight_le_iff {items : List Json} {n : Nat} :
    itemsHeight items ≤ n ↔ ∀ item ∈ items, item.height ≤ n := by
  induction items with
  | nil => simp [itemsHeight]
  | cons item items ih => rw [itemsHeight, Nat.max_le, ih, List.forall_mem_cons]

theorem membersHeight_le_iff {members : List (Bytes × Json)} {n : Nat} :
    membersHeight members ≤ n ↔ ∀ member ∈ members, member.2.height ≤ n := by
  induction members with
  | nil => simp [membersHeight]
  | cons member members ih => rw [membersHeight, Nat.max_le, ih, List.forall_mem_cons]

mutual

theorem height_mapStrings (f : Bytes → Bytes) : ∀ j : Json, (j.mapStrings f).height = j.height
  | .null | .bool _ | .number _ | .string _ => rfl
  | .array items => congrArg Nat.succ (itemsHeight_mapItems f items)
  | .object members => congrArg Nat.succ (membersHeight_mapMembers f members)

theorem itemsHeight_mapItems (f : Bytes → Bytes) :
    ∀ items : List Json, itemsHeight (mapItems f items) = itemsHeight items
  | [] => rfl
  | item :: rest => congrArg₂ max (height_mapStrings f item) (itemsHeight_mapItems f rest)

theorem membersHeight_mapMembers (f : Bytes → Bytes) :
    ∀ members : List (Bytes × Json), membersHeight (mapMembers f members) = membersHeight members
  | [] => rfl
  | (_, value) :: rest =>
      congrArg₂ max (height_mapStrings f value) (membersHeight_mapMembers f rest)

end

theorem mapItems_eq (f : Bytes → Bytes) (items : List Json) :
    mapItems f items = items.map (mapStrings f) := by
  induction items with
  | nil => rfl
  | cons item items ih => rw [mapItems, ih, List.map_cons]

theorem mapMembers_eq (f : Bytes → Bytes) (members : List (Bytes × Json)) :
    mapMembers f members = members.map fun member => (f member.1, member.2.mapStrings f) := by
  induction members with
  | nil => rfl
  | cons member members ih => rw [mapMembers, ih, List.map_cons]

theorem writeItems_eq (l : Layout) (depth : Nat) (items : List Json) :
    writeItems l depth items = items.map (write l depth) := by
  induction items with
  | nil => rfl
  | cons item items ih => rw [writeItems, ih, List.map_cons]

theorem writeMembers_eq (l : Layout) (depth : Nat) (members : List (Bytes × Json)) :
    writeMembers l depth members =
      members.map fun member => quote member.1 ++ l.colon ++ member.2.write l depth := by
  induction members with
  | nil => rfl
  | cons member members ih => rw [writeMembers, ih, List.map_cons]

/-- The values that can be written as JSON. -/
inductive WellFormed : Json → Prop where
  | null : WellFormed .null
  | bool (b : Bool) : WellFormed (.bool b)
  | number {text : Bytes} (htext : scalar? text = some (.number text, [])) :
      WellFormed (.number text)
  | string {raw : Bytes} (hraw : Contents raw) : WellFormed (.string raw)
  | array {items : List Json} (hitems : ∀ item ∈ items, WellFormed item) :
      WellFormed (.array items)
  | object {members : List (Bytes × Json)} (hnames : ∀ member ∈ members, Contents member.1)
      (hvalues : ∀ member ∈ members, WellFormed member.2) : WellFormed (.object members)

/-- Escaping markup keeps what a value denotes. -/
theorem WellFormed.meaning_guarded {j : Json} (h : WellFormed j) :
    j.guarded.meaning = j.meaning := by
  unfold guarded meaning
  induction h with
  | null | bool | number => rfl
  | string hraw => simp only [mapStrings, hraw.guardMarkup.2]
  | array hitems ih =>
      simp only [mapStrings, mapItems_eq, List.map_map]
      congr 1
      exact List.map_congr_left ih
  | object hnames hvalues ih =>
      simp only [mapStrings, mapMembers_eq, List.map_map]
      congr 1
      refine List.map_congr_left fun member hmember => ?_
      exact Prod.ext (hnames member hmember).guardMarkup.2 (ih member hmember)

/-! ## What was read -/

theorem wellFormed_of_scalar? {s rest : Bytes} {j : Json} (h : scalar? s = some (j, rest)) :
    WellFormed j ∧ j.height = 0 := by
  obtain ⟨front, hs, hagain⟩ := repeats_scalar? s j rest h
  unfold scalar? at h
  split at h
  next =>
    obtain ⟨⟨raw, rest⟩, hraw, heq⟩ := Option.map_eq_some_iff.mp h
    cases heq
    exact ⟨.string (string?_eq_some_iff.mp hraw).2, rfl⟩
  next =>
    obtain ⟨_, -, heq⟩ := Option.map_eq_some_iff.mp h
    cases heq
    exact ⟨.null, rfl⟩
  next =>
    obtain ⟨_, -, heq⟩ := Option.map_eq_some_iff.mp h
    cases heq
    exact ⟨.bool true, rfl⟩
  next =>
    obtain ⟨_, -, heq⟩ := Option.map_eq_some_iff.mp h
    cases heq
    exact ⟨.bool false, rfl⟩
  next =>
    obtain ⟨⟨text, rest⟩, hnumber, heq⟩ := Option.map_eq_some_iff.mp h
    cases heq
    have htext := (number?_append hnumber (replaces_nil rest)).1
    obtain rfl : front = text := List.append_cancel_right (hs.symm.trans htext)
    have halone := hagain front.length [] (Nat.le_refl _) (replaces_nil rest)
    exact ⟨.number (by simpa using halone), rfl⟩

theorem wellFormed_of_member? {part : Bytes → Option (Json × Bytes)} {s rest : Bytes}
    {member : Bytes × Json} (h : member? part s = some (member, rest)) :
    Contents member.1 ∧ ∃ s', part s' = some (member.2, rest) := by
  obtain ⟨s₁, s₂, s₃, -, hname, -, hvalue⟩ := member?_eq_some_iff.mp h
  exact ⟨(string?_eq_some_iff.mp hname).2, s₃, hvalue⟩

/-- A value that is read is well-formed and nests no deeper than allowed. -/
theorem wellFormed_of_value? {bound depth : Nat} {s rest : Bytes} {j : Json}
    (h : value? bound depth s = some (j, rest)) : WellFormed j ∧ j.height ≤ depth := by
  induction depth generalizing s rest j with
  | zero => exact (wellFormed_of_scalar? h).imp_right Nat.le_of_eq
  | succ depth ih =>
      rw [value?] at h
      split at h
      next =>
        obtain ⟨⟨items, rest⟩, hitems, heq⟩ := Option.map_eq_some_iff.mp h
        cases heq
        rw [items?_eq] at hitems
        have hitem : ∀ item ∈ items, WellFormed item ∧ item.height ≤ depth := by
          intro item hmem
          obtain ⟨s, rest, hread⟩ := exists_of_mem_parts? hitems hmem
          exact ih hread
        refine ⟨.array fun item hmem => (hitem item hmem).1, ?_⟩
        exact Nat.succ_le_succ (itemsHeight_le_iff.mpr fun item hmem => (hitem item hmem).2)
      next =>
        obtain ⟨⟨members, rest⟩, hmembers, heq⟩ := Option.map_eq_some_iff.mp h
        cases heq
        rw [members?_eq] at hmembers
        have hmember : ∀ member ∈ members,
            Contents member.1 ∧ WellFormed member.2 ∧ member.2.height ≤ depth := by
          intro member hmem
          obtain ⟨s, rest, hread⟩ := exists_of_mem_parts? hmembers hmem
          obtain ⟨hname, s', hvalue⟩ := wellFormed_of_member? hread
          exact ⟨hname, ih hvalue⟩
        refine ⟨.object (fun member hmem => (hmember member hmem).1)
          fun member hmem => (hmember member hmem).2.1, ?_⟩
        exact Nat.succ_le_succ
          (membersHeight_le_iff.mpr fun member hmem => (hmember member hmem).2.2)
      next =>
        obtain ⟨hj, hheight⟩ := wellFormed_of_scalar? h
        exact ⟨hj, hheight ▸ Nat.zero_le _⟩

theorem wellFormed_of_parse? {text : Bytes} {j : Json} (h : parse? text = some j) :
    WellFormed j := by
  obtain ⟨rest, hread, -⟩ := complete_eq_some_iff.mp h
  exact (wellFormed_of_value? hread).1

/-! ## Written parts -/

section Parts

variable {α : Type}

/-- Whether a reader takes a text as a part, wherever it ends, and the text is seen to be one by its
first byte. -/
structure IsPart (closing : UInt8) (part : Bytes → Option (α × Bytes)) (text : Bytes) (a : α) :
    Prop where
  reads : ∀ rest, Replaces rest [] → part (text ++ rest) = some (a, rest)
  head : ∃ b s, text = b :: s ∧ isSpace b = false ∧ b ≠ closing

/-- Whether a byte closes an array or an object. -/
def IsClosing (b : UInt8) : Prop :=
  b = 0x5D ∨ b = 0x7D

variable {closing : UInt8} {part : Bytes → Option (α × Bytes)}

theorem IsClosing.delimits (h : IsClosing closing) :
    isSpace closing = false ∧ continuesNumber closing = false ∧ closing ≠ 0x2C := by
  rcases h with rfl | rfl <;> decide

theorem replaces_of_not_continues {b : UInt8} (h : continuesNumber b = false) (rest : Bytes) :
    Replaces (b :: rest) [] := by
  rintro a ⟨⟩
  exact .inr h

theorem IsPart.skip_append {text : Bytes} {a : α} (h : IsPart closing part text a) (rest : Bytes) :
    skip (text ++ rest) = text ++ rest := by
  obtain ⟨b, s, rfl, hspace, -⟩ := h.head
  exact skip_eq_self hspace _

theorem partsFrom_join (hclosing : IsClosing closing) {text : Bytes} {texts : List Bytes} {a : α}
    {parts : List α} (hpart : IsPart closing part text a)
    (hparts : List.Forall₂ (IsPart closing part) texts parts) {bound : Nat}
    (hbound : texts.length < bound) (acc : List α) (rest : Bytes) :
    partsFrom closing part bound acc (Bytes.join [0x2C] (text :: texts) ++ closing :: rest) =
      some (acc.reverse ++ a :: parts, rest) := by
  obtain ⟨hspace, hnumber, hcomma⟩ := hclosing.delimits
  induction hparts generalizing text a bound acc with
  | nil =>
      obtain ⟨bound, rfl⟩ : ∃ n, bound = n + 1 := ⟨bound - 1, by omega⟩
      have hread := hpart.reads (closing :: rest) (replaces_of_not_continues hnumber rest)
      have hjoin : Bytes.join [0x2C] [text] = text := by simp [Bytes.join]
      rw [hjoin, partsFrom]
      simp [hread, skip_eq_self hspace, hcomma]
  | @cons next a' texts parts hnext hrest ih =>
      obtain ⟨bound, rfl⟩ : ∃ n, bound = n + 1 := ⟨bound - 1, by omega⟩
      have hlater := ih hnext (Nat.lt_of_succ_lt_succ hbound) (a :: acc)
      have hread := hpart.reads (0x2C :: (Bytes.join [0x2C] (next :: texts) ++ closing :: rest))
        (replaces_of_not_continues (by decide) _)
      have hskip : skip (0x2C :: (Bytes.join [0x2C] (next :: texts) ++ closing :: rest)) =
          0x2C :: (Bytes.join [0x2C] (next :: texts) ++ closing :: rest) :=
        skip_eq_self (by decide) _
      rw [Bytes.join_cons text (List.cons_ne_nil _ _), List.append_assoc, List.cons_append,
        partsFrom]
      simp only [hread, hskip, if_true, hlater]
      simp

theorem parts?_join (hclosing : IsClosing closing) {texts : List Bytes} {parts : List α}
    (h : List.Forall₂ (IsPart closing part) texts parts) {bound : Nat}
    (hbound : texts.length ≤ bound) (rest : Bytes) :
    parts? closing part bound (Bytes.join [0x2C] texts ++ closing :: rest) =
      some (parts, rest) := by
  cases h with
  | nil =>
      have hskip : skip (closing :: rest) = closing :: rest :=
        skip_eq_self hclosing.delimits.1 rest
      simp [Bytes.join, parts?, hskip]
  | @cons text a texts parts hpart hparts =>
      have hread := partsFrom_join hclosing hpart hparts (Nat.lt_of_succ_le hbound) [] rest
      obtain ⟨more, hjoin⟩ : ∃ more, Bytes.join [0x2C] (text :: texts) = text ++ more := by
        cases texts with
        | nil => exact ⟨[], by simp [Bytes.join]⟩
        | cons next texts => exact ⟨_, Bytes.join_cons text (List.cons_ne_nil next texts)⟩
      rw [hjoin, List.append_assoc] at hread ⊢
      rw [parts?, hpart.skip_append, if_neg, hread]
      · rfl
      · obtain ⟨b, s, rfl, -, hother⟩ := hpart.head
        simpa using hother

theorem length_le_join (texts : List Bytes) :
    texts.length ≤ (Bytes.join [0x2C] texts).length + 1 ∧
      ∀ text ∈ texts, text.length ≤ (Bytes.join [0x2C] texts).length := by
  induction texts with
  | nil => simp
  | cons text texts ih =>
      cases texts with
      | nil => simp [Bytes.join]
      | cons next texts =>
          obtain ⟨hcount, hlength⟩ := ih
          rw [Bytes.join_cons text (List.cons_ne_nil _ _)]
          simp only [List.length_append, List.length_cons] at hcount ⊢
          refine ⟨by omega, ?_⟩
          intro other hother
          rcases List.mem_cons.mp hother with rfl | hlater
          · omega
          · have hother := hlength other hlater
            omega

theorem IsPart.member {text name : Bytes} {a : α} (hname : Contents name)
    (h : IsPart closing part text a) :
    IsPart 0x7D (member? part) (quote name ++ 0x3A :: text) (guardMarkup name, a) := by
  refine ⟨fun rest hrest => ?_, ?_⟩
  · apply member?_eq_some_iff.mpr
    refine ⟨guardMarkup name ++ 0x22 :: 0x3A :: (text ++ rest), 0x3A :: (text ++ rest),
      text ++ rest, ?_, ?_, ?_, h.reads rest hrest⟩
    · simpa [quote] using skip_eq_self (b := 0x22) (by decide) _
    · exact string?_eq_some_iff.mpr ⟨rfl, hname.guardMarkup.1⟩
    · exact skip_eq_self (by decide) _
  · exact ⟨0x22, _, rfl, by decide, by decide⟩

end Parts

/-! ## Written values -/

theorem enclose_compact (depth : Nat) (opening closing : UInt8) (parts : List Bytes) :
    Layout.compact.enclose depth opening closing parts =
      opening :: (Bytes.join [0x2C] parts ++ [closing]) := by
  unfold Layout.enclose
  split
  next hnone => simp [hnone, Bytes.join]
  next => simp [Layout.compact]

theorem write_array (depth : Nat) (items : List Json) :
    (array items).write .compact depth =
      0x5B :: (Bytes.join [0x2C] (items.map (write .compact (depth + 1))) ++ [0x5D]) := by
  rw [write, writeItems_eq, enclose_compact]

/-- The text of a member. -/
def writeMember (depth : Nat) (member : Bytes × Json) : Bytes :=
  quote member.1 ++ 0x3A :: member.2.write .compact depth

theorem write_object (depth : Nat) (members : List (Bytes × Json)) :
    (object members).write .compact depth =
      0x7B :: (Bytes.join [0x2C] (members.map (writeMember (depth + 1))) ++ [0x7D]) := by
  have hmember : ∀ member : Bytes × Json,
      quote member.1 ++ Layout.compact.colon ++ member.2.write .compact (depth + 1) =
        writeMember (depth + 1) member := by
    simp [Layout.compact, writeMember]
  rw [write, writeMembers_eq, enclose_compact, List.map_congr_left fun member _ => hmember member]

/-- The written items of an array are read in order. -/
theorem items?_join {α : Type} {part : Bytes → Option (α × Bytes)} {value : Json → α}
    {items : List Json} {level bound : Nat}
    (hitems : ∀ item ∈ items, (item.write .compact level).length ≤ bound →
      IsPart 0x5D part (item.write .compact level) (value item))
    (hbound : (Bytes.join [0x2C] (items.map (write .compact level))).length < bound)
    (rest : Bytes) :
    items? part bound (Bytes.join [0x2C] (items.map (write .compact level)) ++ 0x5D :: rest) =
      some (items.map value, rest) := by
  obtain ⟨hcount, hlength⟩ := length_le_join (items.map (write .compact level))
  rw [items?_eq]
  apply parts?_join (.inl rfl) _ (by omega)
  rw [List.forall₂_map_left_iff, List.forall₂_map_right_iff, List.forall₂_same]
  intro item hmem
  have hshort := hlength _ (List.mem_map_of_mem hmem)
  exact hitems item hmem (by omega)

/-- The written members of an object are read in order. -/
theorem members?_join {α : Type} {part : Bytes → Option (α × Bytes)} {value : Json → α}
    {members : List (Bytes × Json)} {level bound : Nat}
    (hnames : ∀ member ∈ members, Contents member.1)
    (hvalues : ∀ member ∈ members, (member.2.write .compact level).length ≤ bound →
      IsPart 0x7D part (member.2.write .compact level) (value member.2))
    (hbound : (Bytes.join [0x2C] (members.map (writeMember level))).length < bound)
    (rest : Bytes) :
    members? part bound (Bytes.join [0x2C] (members.map (writeMember level)) ++ 0x7D :: rest) =
      some (members.map fun member => (guardMarkup member.1, value member.2), rest) := by
  obtain ⟨hcount, hlength⟩ := length_le_join (members.map (writeMember level))
  rw [members?_eq]
  apply parts?_join (.inr rfl) _ (by omega)
  rw [List.forall₂_map_left_iff, List.forall₂_map_right_iff, List.forall₂_same]
  intro member hmem
  have hshort := hlength _ (List.mem_map_of_mem hmem)
  simp only [writeMember, List.length_append, List.length_cons] at hshort
  exact (hvalues member hmem (by omega)).member (hnames member hmem)

theorem head_of_scalar? {s : Bytes} {found : Json × Bytes} (h : scalar? s = some found) :
    ∃ b t, s = b :: t ∧ isSpace b = false ∧ b ≠ 0x5D ∧ b ≠ 0x7D := by
  cases s with
  | nil => cases h
  | cons b t =>
      refine ⟨b, t, rfl, ?_, ?_, ?_⟩
      · rw [← Bool.not_eq_true]
        intro hspace
        simp only [isSpace, Bool.or_eq_true, decide_eq_true_eq] at hspace
        rcases hspace with ((rfl | rfl) | rfl) | rfl <;> cases h
      · rintro rfl
        cases h
      · rintro rfl
        cases h

theorem isPart_of_scalar? {text : Bytes} {j : Json} (h : scalar? text = some (j, []))
    {closing : UInt8} (hclosing : IsClosing closing) (bound depth : Nat) :
    IsPart closing (value? bound depth) text j := by
  obtain ⟨b, t, htext, hspace, hbracket, hbrace⟩ := head_of_scalar? h
  have hskip : skip text = text := by
    rw [htext]
    exact skip_eq_self hspace t
  obtain ⟨front, hfront, hagain⟩ := exists_value?_of_scalar? (hskip.symm ▸ h)
  rw [List.append_nil] at hfront
  subst hfront
  refine ⟨hagain bound depth, b, t, htext, hspace, ?_⟩
  rcases hclosing with rfl | rfl
  · exact hbracket
  · exact hbrace

/-- A container is a part if it is read behind its opening byte. -/
theorem isPart_of_opened {opening closing : UInt8} (hclosing : IsClosing closing)
    (hopening : opening = 0x5B ∨ opening = 0x7B) {part : Bytes → Option (Json × Bytes)}
    {text : Bytes} {j : Json}
    (h : ∀ rest, skip (opening :: (text ++ rest)) = opening :: (text ++ rest) →
      part (opening :: (text ++ rest)) = some (j, rest)) :
    IsPart closing part (opening :: text) j := by
  have hspace : isSpace opening = false := by rcases hopening with rfl | rfl <;> decide
  refine ⟨fun rest _ => h rest (skip_eq_self hspace _), opening, text, rfl, hspace, ?_⟩
  rcases hopening with rfl | rfl <;> rcases hclosing with rfl | rfl <;> decide

/-- A well-formed value is read from its text, if the reader goes deep enough. -/
theorem WellFormed.isPart {j : Json} (h : WellFormed j) {closing : UInt8}
    (hclosing : IsClosing closing) {bound depth level : Nat} (hdepth : j.height ≤ depth)
    (hbound : (j.write .compact level).length ≤ bound) :
    IsPart closing (value? bound depth) (j.write .compact level) j.guarded := by
  -- The parts of a container are followed by its own closing byte, not by the one around it.
  induction h generalizing closing depth level with
  | null => exact isPart_of_scalar? rfl hclosing bound depth
  | bool b => cases b <;> exact isPart_of_scalar? rfl hclosing bound depth
  | number htext => exact isPart_of_scalar? htext hclosing bound depth
  | @string raw hraw =>
      have hread : string? (guardMarkup raw ++ [0x22]) = some (guardMarkup raw, []) :=
        string?_eq_some_iff.mpr ⟨rfl, hraw.guardMarkup.1⟩
      apply isPart_of_scalar? _ hclosing
      simp [write, quote, scalar?, hread, guarded, mapStrings]
  | @array items hitems ih =>
      obtain ⟨depth, rfl⟩ := Nat.exists_eq_add_of_le' (Nat.le_of_add_left_le hdepth)
      have hdepths := itemsHeight_le_iff.mp (Nat.le_of_succ_le_succ hdepth)
      rw [write_array] at hbound ⊢
      simp only [List.length_cons, List.length_append, List.length_nil] at hbound
      apply isPart_of_opened hclosing (.inl rfl)
      intro rest hskip
      have hroom : (Bytes.join [0x2C] (items.map (write .compact (level + 1)))).length < bound := by
        omega
      have hread :=
        items?_join (fun item hmem => ih item hmem (.inl rfl) (hdepths item hmem)) hroom rest
      rw [List.append_assoc, List.singleton_append] at hskip ⊢
      simp only [value?, hskip, hread, Option.map_some, guarded, mapStrings, mapItems_eq]
      rfl
  | @object members hnames hvalues ih =>
      obtain ⟨depth, rfl⟩ := Nat.exists_eq_add_of_le' (Nat.le_of_add_left_le hdepth)
      have hdepths := membersHeight_le_iff.mp (Nat.le_of_succ_le_succ hdepth)
      rw [write_object] at hbound ⊢
      simp only [List.length_cons, List.length_append, List.length_nil] at hbound
      apply isPart_of_opened hclosing (.inr rfl)
      intro rest hskip
      have hroom : (Bytes.join [0x2C] (members.map (writeMember (level + 1)))).length < bound := by
        omega
      have hread := members?_join hnames
        (fun member hmem => ih member hmem (.inr rfl) (hdepths member hmem)) hroom rest
      rw [List.append_assoc, List.singleton_append] at hskip ⊢
      simp only [value?, hskip, hread, Option.map_some, guarded, mapStrings, mapMembers_eq]

/-- A well-formed value that does not nest too deep is read from its text. -/
theorem WellFormed.parse?_write {j : Json} (h : WellFormed j) (hheight : j.height ≤ maxDepth)
    (level : Nat) : parse? (j.write .compact level) = some j.guarded := by
  have hpart : IsPart 0x5D (value? (j.write .compact level).length maxDepth)
      (j.write .compact level) j.guarded :=
    h.isPart (.inl rfl) hheight (Nat.le_refl _)
  have hread := hpart.reads [] (replaces_nil [])
  rw [List.append_nil] at hread
  rw [parse?, hread]
  rfl

/-! ## The texts of written members -/

/-- The text of a part is what is read of it. -/
theorem IsPart.source? {closing : UInt8} {bound depth : Nat} {text : Bytes} {j : Json}
    (h : IsPart closing (value? bound depth) text j) :
    IsPart closing (source? bound depth) text text := by
  refine ⟨fun rest hrest => ?_, h.head⟩
  simp [Json.source?, h.skip_append, h.reads rest hrest]

/-- An object that does not nest too deep falls apart into the texts of its members. -/
theorem sources?_render {members : List (Bytes × Json)} (h : WellFormed (.object members))
    (hheight : (object members).height ≤ maxDepth) :
    sources? (render (.object members)) =
      some (members.map fun member => (guardMarkup member.1, member.2.write .compact 1)) := by
  cases h with
  | object hnames hvalues =>
      have hdepths := membersHeight_le_iff.mp (Nat.le_sub_of_add_le hheight)
      have htext : render (.object members) =
          0x7B :: (Bytes.join [0x2C] (members.map (writeMember 1)) ++ [0x7D]) :=
        write_object 0 members
      have hskip : skip (render (.object members)) =
          0x7B :: (Bytes.join [0x2C] (members.map (writeMember 1)) ++ [0x7D]) := by
        rw [htext]
        exact skip_eq_self (by decide) _
      have hread : members? (Json.source? (render (.object members)).length (maxDepth - 1))
          (render (.object members)).length
          (Bytes.join [0x2C] (members.map (writeMember 1)) ++ [0x7D]) =
            some (members.map fun member => (guardMarkup member.1, member.2.write .compact 1),
              []) := by
        apply members?_join hnames
        · intro member hmem hlength
          exact ((hvalues member hmem).isPart (.inr rfl) (hdepths member hmem) hlength).source?
        · simp only [htext, List.length_cons, List.length_append]
          omega
      simp only [sources?, hskip, hread]
      rfl

/-! ## Values that nest too deep -/

/-- A well-formed value that nests too deep is not read from its text. -/
theorem WellFormed.parse?_write_eq_none {j : Json} (h : WellFormed j)
    (hheight : maxDepth < j.height) (level : Nat) : parse? (j.write .compact level) = none := by
  rw [Option.eq_none_iff_forall_ne_some]
  intro j' hread
  obtain ⟨rest, hvalue, -⟩ := complete_eq_some_iff.mp hread
  -- A reader that goes deep enough would read the same, but it reads the deep value.
  obtain ⟨front, htext, hagain⟩ := repeats_value? (Nat.le_of_lt hheight) _ _ _ _ hvalue
  have hpart : IsPart 0x5D (value? (j.write .compact level).length j.height)
      (j.write .compact level) j.guarded :=
    h.isPart (.inl rfl) (Nat.le_refl _) (Nat.le_refl _)
  have hdeep := hpart.reads [] (replaces_nil [])
  have hshort : front.length ≤ (j.write .compact level).length := by
    rw [htext, List.length_append]
    omega
  have hsame : value? (j.write .compact level).length j.height (front ++ rest) = some (j', rest) :=
    hagain _ rest hshort fun b hb => .inl hb
  rw [List.append_nil] at hdeep
  rw [← htext, hdeep] at hsame
  cases hsame
  have hallowed := (wellFormed_of_value? hvalue).2
  rw [guarded, height_mapStrings] at hallowed
  omega

end DefinitionFiles.Json
