import DefinitionFiles.Proofs.Store
import DefinitionFiles.Proofs.Text.Ordering
import Mathlib.Data.List.Induction

/-!
# A store is a cut log

What was ever done to a store is a list of operations. For each document it leaves a log, the
definitions recorded since the document was last forgotten, and every answer of the store can be
read off these logs: the store keeps their newest ends, and knows the documents whose log is not
empty.
-/

namespace DefinitionFiles.Store

/-- What can be done to a store. -/
inductive Operation where
  | append (d : Definition)
  | forget (uri : Bytes)

namespace Operation

/-- The document an operation is about. -/
def uri : Operation → Bytes
  | .append d => d.uri
  | .forget uri => uri

def isForget : Operation → Bool
  | .append _ => false
  | .forget _ => true

def definition? : Operation → Option Definition
  | .append d => some d
  | .forget _ => none

end Operation

def perform (s : Store) : Operation → Store
  | .append d => s.append d
  | .forget uri => s.forget uri

def performAll (s : Store) (operations : List Operation) : Store :=
  operations.foldl perform s

/-- The log of a document: the definitions recorded for it since it was last forgotten. -/
def log (uri : Bytes) (operations : List Operation) : List Definition :=
  ((operations.filter fun o => o.uri = uri).rtakeWhile fun o => !o.isForget).filterMap
    Operation.definition?

theorem log_concat_of_ne {uri : Bytes} {o : Operation} (h : o.uri ≠ uri)
    (operations : List Operation) : log uri (operations ++ [o]) = log uri operations := by
  simp [log, h]

theorem log_append (operations : List Operation) (d : Definition) :
    log d.uri (operations ++ [.append d]) = log d.uri operations ++ [d] := by
  simp [log, Operation.uri, Operation.isForget, Operation.definition?]

theorem log_forget (operations : List Operation) (uri : Bytes) :
    log uri (operations ++ [.forget uri]) = [] := by
  simp [log, Operation.uri, Operation.isForget]

/-! ## The documents a store knows -/

theorem keys_setHistory (uri : Bytes) (ds : List Definition)
    (histories : List (Bytes × List Definition)) :
    (setHistory uri ds histories).map Prod.fst =
      if uri ∈ histories.map Prod.fst then histories.map Prod.fst
      else histories.map Prod.fst ++ [uri] := by
  induction histories with
  | nil => simp [setHistory]
  | cons entry rest ih =>
      obtain ⟨u, es⟩ := entry
      rw [setHistory]
      by_cases hu : u = uri
      · simp [hu]
      · have hmem : uri ∈ u :: rest.map Prod.fst ↔ uri ∈ rest.map Prod.fst := by
          simp [Ne.symm hu]
        rw [if_neg hu, List.map_cons, ih, List.map_cons]
        by_cases hrest : uri ∈ rest.map Prod.fst
        · rw [if_pos hrest, if_pos (hmem.mpr hrest)]
        · rw [if_neg hrest, if_neg (mt hmem.mp hrest), List.cons_append]

theorem lookup_filter_ne (uri u : Bytes) (histories : List (Bytes × List Definition)) :
    (histories.filter fun (v, _) => v != uri).lookup u =
      if uri = u then none else histories.lookup u := by
  induction histories with
  | nil => simp
  | cons entry rest ih =>
      obtain ⟨v, es⟩ := entry
      rw [List.filter_cons]
      grind

theorem history_forget (s : Store) (uri u : Bytes) :
    (s.forget uri).history u = if uri = u then [] else s.history u := by
  rw [history, forget, lookup_filter_ne]
  split
  next => rfl
  next => rfl

/-! ## The log of every document -/

/-- What a store has to do with the operations that led to it. -/
structure Follows (s : Store) (limit : Nat) (operations : List Operation) : Prop where
  limit_eq : s.limit = limit
  nodup : (s.histories.map Prod.fst).Nodup
  known : ∀ uri, uri ∈ s.histories.map Prod.fst ↔ log uri operations ≠ []
  history : ∀ uri, s.history uri = newest limit (log uri operations)

namespace Follows

variable {s : Store} {limit : Nat} {operations : List Operation}

theorem append (h : s.Follows limit operations) (d : Definition) :
    (s.append d).Follows limit (operations ++ [.append d]) where
  limit_eq := h.limit_eq
  nodup := by
    rw [Store.append, keys_setHistory]
    split
    next => exact h.nodup
    next hnew =>
      refine List.nodup_append.mpr ⟨h.nodup, by simp, ?_⟩
      intro u hu v hv huv
      exact hnew (List.mem_singleton.mp hv ▸ huv ▸ hu)
  known := by
    intro uri
    rw [Store.append, keys_setHistory]
    by_cases huri : d.uri = uri
    · subst huri
      rw [log_append]
      split <;> simp_all
    · rw [log_concat_of_ne (o := .append d) huri, ← h.known]
      split
      next => rfl
      next => simp [Ne.symm huri]
  history := by
    intro uri
    rw [history_append, h.history uri, h.limit_eq]
    by_cases huri : d.uri = uri
    · subst huri
      rw [if_pos rfl, log_append, newest_newest_append]
    · rw [if_neg huri, log_concat_of_ne (o := .append d) huri]

theorem forget (h : s.Follows limit operations) (uri : Bytes) :
    (s.forget uri).Follows limit (operations ++ [.forget uri]) where
  limit_eq := h.limit_eq
  nodup := h.nodup.sublist (List.filter_sublist.map Prod.fst)
  known := by
    intro u
    have hkept : u ∈ (s.forget uri).histories.map Prod.fst ↔
        u ∈ s.histories.map Prod.fst ∧ u ≠ uri := by
      simp only [Store.forget, List.mem_map, List.mem_filter, bne_iff_ne]
      constructor
      · rintro ⟨entry, ⟨hentry, hne⟩, rfl⟩
        exact ⟨⟨entry, hentry, rfl⟩, hne⟩
      · rintro ⟨⟨entry, hentry, rfl⟩, hne⟩
        exact ⟨entry, ⟨hentry, hne⟩, rfl⟩
    rw [hkept, h.known]
    by_cases hu : uri = u
    · subst hu
      simp [log_forget]
    · rw [log_concat_of_ne (o := .forget uri) hu]
      exact and_iff_left (Ne.symm hu)
  history := by
    intro u
    rw [history_forget, h.history u]
    by_cases hu : uri = u
    · subst hu
      rw [if_pos rfl, log_forget, newest_nil]
    · rw [if_neg hu, log_concat_of_ne (o := .forget uri) hu]

end Follows

theorem follows_performAll (limit : Int) (operations : List Operation) :
    ((withLimit limit).performAll operations).Follows limit.toNat operations := by
  induction operations using List.reverseRecOn with
  | nil =>
      refine ⟨rfl, List.nodup_nil, fun uri => ?_, fun uri => ?_⟩
      · simp [performAll, withLimit, log]
      · simp [performAll, withLimit, log, Store.history]
  | append_singleton operations o ih =>
      rw [performAll, List.foldl_concat]
      cases o with
      | append d => exact ih.append d
      | forget uri => exact ih.forget uri

/-- The answers of a store, read off the logs of its documents. -/
structure Reflects (s : Store) (limit : Int) (logOf : Bytes → List Definition) : Prop where
  history : ∀ uri, s.history uri =
    if 0 < limit then (logOf uri).rtake limit.toNat else logOf uri
  latest? : ∀ uri, s.latest? uri = (logOf uri).getLast?
  latest?_eq_none : ∀ uri, s.latest? uri = none ↔ logOf uri = []
  ascending : s.uris.Pairwise (· < ·)
  mem_uris : ∀ uri, uri ∈ s.uris ↔ logOf uri ≠ []
  size : s.size = s.uris.length

theorem Follows.reflects {s : Store} {limit : Int} {operations : List Operation}
    (h : s.Follows limit.toNat operations) : s.Reflects limit (log · operations) := by
  have hlatest : ∀ uri, s.latest? uri = (log uri operations).getLast? := by
    intro uri
    rw [latest?, h.history, getLast?_newest]
  refine ⟨?_, hlatest, ?_, Bytes.pairwise_lt_sort h.nodup, ?_, ?_⟩
  · intro uri
    rw [h.history, newest_toNat]
  · intro uri
    rw [hlatest, List.getLast?_eq_none_iff]
  · intro uri
    rw [uris, Bytes.mem_sort, h.known]
  · rw [size, uris, Bytes.length_sort, List.length_map]

/-- Whatever is done to a new store, its answers are those of the logs, and an operation changes no
answer about another document than its own. -/
theorem reflects_performAll (limit : Int) (operations : List Operation) :
    ((withLimit limit).performAll operations).Reflects limit (log · operations) ∧
      ∀ (o : Operation) (uri : Bytes), o.uri ≠ uri →
        let s := (withLimit limit).performAll operations
        (s.perform o).history uri = s.history uri ∧
          (s.perform o).latest? uri = s.latest? uri ∧
          (uri ∈ (s.perform o).uris ↔ uri ∈ s.uris) := by
  have hfollows := follows_performAll limit operations
  refine ⟨hfollows.reflects, ?_⟩
  intro o uri huri s
  have hnext : (s.perform o).Follows limit.toNat (operations ++ [o]) := by
    have hrun := follows_performAll limit (operations ++ [o])
    rwa [performAll, List.foldl_concat] at hrun
  have hlog := log_concat_of_ne huri operations
  refine ⟨?_, ?_, ?_⟩
  · rw [hnext.reflects.history, hfollows.reflects.history, hlog]
  · rw [hnext.reflects.latest?, hfollows.reflects.latest?, hlog]
  · rw [hnext.reflects.mem_uris, hfollows.reflects.mem_uris, hlog]

/-- Under a limit of one, forgetting one document leaves the newest definition of another. -/
theorem reflects_performAll_forgotten :
    let definition (name uri : Bytes) : Definition := ⟨name, uri, Category.none, []⟩
    let s := (withLimit 1).performAll [.append (definition [1] [0x61]),
      .append (definition [2] [0x62]), .append (definition [3] [0x61])]
    (Operation.forget [0x62]).uri ≠ [0x61] ∧
      (s.perform (.forget [0x62])).history [0x61] = [definition [3] [0x61]] := by
  intro definition s
  have huri : (Operation.forget [0x62]).uri ≠ [0x61] := by decide
  refine ⟨huri, ?_⟩
  rw [((reflects_performAll 1 _).2 (.forget [0x62]) [0x61] huri).1]
  decide

end DefinitionFiles.Store
