import DefinitionFiles.Rpc.Message
import DefinitionFiles.Proofs.Json.Source

/-!
# Identifiers of messages

The identifier of a message is the text of a value, so that it can go back to the peer as JSON. A
message expects no answer exactly if that value is absent or null.
-/

namespace DefinitionFiles.Rpc.Message

theorem id_of_member {m next : Message} {name source : Bytes}
    (h : m.member name source = some next) : next.id = m.id ∨ next.id = source := by
  unfold member at h
  split at h
  · obtain ⟨_, _, rfl⟩ := Option.map_eq_some_iff.mp h
    exact .inl rfl
  · split at h
    · cases h
      exact .inr rfl
    · split at h
      · obtain ⟨_, _, rfl⟩ := Option.map_eq_some_iff.mp h
        exact .inl rfl
      · split at h
        · cases h
          exact .inl rfl
        · cases h
          exact .inl rfl

/-- The identifier is the text of one of the members, unless none sets it. -/
theorem id_of_members {m last : Message} {sources : List (Bytes × Bytes)}
    (h : members m sources = some last) :
    last.id = m.id ∨ ∃ name, (name, last.id) ∈ sources := by
  induction sources generalizing m with
  | nil =>
      cases h
      exact .inl rfl
  | cons p sources ih =>
      obtain ⟨name, source⟩ := p
      obtain ⟨next, hnext, hlast⟩ := Option.bind_eq_some_iff.mp h
      rcases ih hlast with hid | ⟨name', hmem⟩
      · rw [hid]
        exact (id_of_member hnext).imp_right fun heq => ⟨name, by simp [heq]⟩
      · exact .inr ⟨name', List.mem_cons_of_mem _ hmem⟩

theorem isSource_id {body : Bytes} {m : Message} (h : parse? body = some m) (hm : m.id ≠ []) :
    Json.IsSource m.id := by
  unfold parse? at h
  split at h
  next sources hsources =>
    rcases id_of_members h with hid | ⟨name, hmem⟩
    · exact absurd hid hm
    · exact Json.isSource_of_sources? hsources _ hmem
  next =>
    split at h
    · cases h
      exact absurd rfl hm
    · cases h

/-- A message that expects an answer has an identifier other than null. -/
theorem exists_identifier {body : Bytes} {m : Message} (h : parse? body = some m)
    (hm : m.isNotification = false) : ∃ id, Json.parse? m.id = some id ∧ id ≠ .null := by
  simp only [isNotification, Bool.or_eq_false_iff, decide_eq_false_iff_not] at hm
  obtain ⟨id, hid, hnull⟩ := isSource_id h hm.1
  exact ⟨id, hid, fun heq => hm.2 (hnull heq)⟩

end DefinitionFiles.Rpc.Message
