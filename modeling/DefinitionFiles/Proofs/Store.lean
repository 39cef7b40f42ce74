import DefinitionFiles.Store
import Mathlib.Data.List.DropRight

/-!
# What a store keeps

Recording a definition extends the history of its own document and leaves every other one alone.
Cutting a history each time it grows has the same effect as cutting it once.
-/

namespace DefinitionFiles.Store

/-- Only a positive limit cuts a history. -/
theorem newest_toNat (limit : Int) (history : List Definition) :
    newest limit.toNat history = if 0 < limit then history.rtake limit.toNat else history := by
  unfold newest
  split
  next hzero => rw [if_neg (by omega)]
  next hpos => rw [if_pos (by omega), List.rtake]

@[simp]
theorem newest_nil (limit : Nat) : newest limit [] = [] := by
  simp [newest]

/-- What is cut off a history is not needed when it grows. -/
theorem newest_newest_append (limit : Nat) (history : List Definition) (d : Definition) :
    newest limit (newest limit history ++ [d]) = newest limit (history ++ [d]) := by
  unfold newest
  split
  next => rfl
  next hlimit =>
    have hcut : history.length - limit ≤ history.length := Nat.sub_le _ _
    rw [← List.drop_append_of_le_length hcut, List.drop_drop]
    congr 1
    simp only [List.length_drop, List.length_append, List.length_singleton]
    omega

@[simp]
theorem getLast?_newest (limit : Nat) (history : List Definition) :
    (newest limit history).getLast? = history.getLast? := by
  unfold newest
  split
  next => rfl
  next hlimit =>
    rw [List.getLast?_drop]
    split
    next hle => rw [List.eq_nil_of_length_eq_zero (l := history) (by omega)]; rfl
    next => rfl

theorem lookup_setHistory (uri u : Bytes) (ds : List Definition)
    (histories : List (Bytes × List Definition)) :
    (setHistory uri ds histories).lookup u =
      if uri = u then some ds else histories.lookup u := by
  induction histories with
  | nil => grind [setHistory]
  | cons entry rest ih =>
      obtain ⟨v, es⟩ := entry
      rw [setHistory]
      grind

/-- Recording a definition extends the history of its document. -/
theorem history_append (s : Store) (d : Definition) (uri : Bytes) :
    (s.append d).history uri =
      if d.uri = uri then newest s.limit (s.history uri ++ [d]) else s.history uri := by
  rw [history, append, lookup_setHistory]
  split
  next h => rw [h]; rfl
  next => rfl

/-! ## Stores with the same histories -/

/-- Whether two stores keep equally much and have the same history of every document. The documents
may have become known in different orders. -/
structure SameHistories (s t : Store) : Prop where
  limit : s.limit = t.limit
  history : ∀ uri, s.history uri = t.history uri

namespace SameHistories

variable {s t : Store}

theorem append (h : SameHistories s t) (d : Definition) :
    SameHistories (s.append d) (t.append d) := by
  refine ⟨h.limit, ?_⟩
  intro uri
  rw [history_append, history_append, h.limit, h.history]

theorem append_comm (h : SameHistories s t) {a b : Definition} (hne : a.uri ≠ b.uri) :
    SameHistories ((s.append a).append b) ((t.append b).append a) := by
  refine ⟨h.limit, ?_⟩
  intro uri
  rw [history_append, history_append, history_append, history_append, h.history]
  by_cases ha : a.uri = uri
  · have hb : b.uri ≠ uri := fun hb => hne (ha.trans hb.symm)
    rw [if_neg hb, if_pos ha, if_pos ha, if_neg hb, h.limit]
    rfl
  · rw [if_neg ha, if_neg ha, ← h.limit]
    rfl

theorem foldl_append (h : SameHistories s t) (definitions : List Definition) :
    SameHistories (definitions.foldl Store.append s) (definitions.foldl Store.append t) := by
  induction definitions generalizing s t with
  | nil => exact h
  | cons d rest ih => exact ih (h.append d)

/-- Definitions of different documents can be recorded in any order. -/
theorem foldl_append_of_perm (h : SameHistories s t) {first second : List Definition}
    (hperm : first.Perm second) (hnodup : (first.map Definition.uri).Nodup) :
    SameHistories (first.foldl Store.append s) (second.foldl Store.append t) := by
  induction hperm generalizing s t with
  | nil => exact h
  | cons d _ ih => exact ih (h.append d) (List.nodup_cons.mp hnodup).2
  | swap a b rest =>
      have hne : b.uri ≠ a.uri := by
        intro heq
        apply (List.nodup_cons.mp hnodup).1
        rw [heq]
        exact List.mem_cons_self
      exact (h.append_comm hne).foldl_append rest
  | trans hfirst _ ihfirst ihsecond =>
      have hmiddle := (hfirst.map Definition.uri).nodup_iff.mp hnodup
      have hleft := ihfirst h hnodup
      have hright := ihsecond (s := t) (t := t) ⟨rfl, fun _ => rfl⟩ hmiddle
      exact ⟨hleft.limit.trans hright.limit,
        fun uri => (hleft.history uri).trans (hright.history uri)⟩

end SameHistories

end DefinitionFiles.Store
