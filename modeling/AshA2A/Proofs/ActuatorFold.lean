import AshA2A.Proofs.ActuatorClaims
import Mathlib.Data.List.Induction

/-! The records and the owners of nonces that a journal folds to. -/

namespace AshA2A.Actuator

open Sa2aCrypto Concurrency AppendLog Store

namespace Folded

/-! ## One event -/

theorem own_eq_some {owners : Owners} {instanceId owner : String} {nonces : List (String × String)}
    {nonce : String × String} :
    own owners instanceId nonces nonce = some owner ↔
      nonce ∈ nonces ∧ instanceId = owner ∨ nonce ∉ nonces ∧ owners nonce = some owner := by
  induction nonces generalizing owners with
  | nil => simp [own]
  | cons first rest ih =>
    have step : own owners instanceId (first :: rest) =
        own (Function.update owners first (some instanceId)) instanceId rest := rfl
    rw [step, ih]
    by_cases same : nonce = first
    · subst same
      by_cases member : nonce ∈ rest <;> simp [member]
    · simp [same]

theorem own_bound {owners : Owners} {instanceId : String} {nonces : List (String × String)}
    {nonce : String × String} (bound : nonce ∈ nonces ∨ owners nonce ≠ none) :
    own owners instanceId nonces nonce ≠ none := by
  by_cases member : nonce ∈ nonces
  · rw [own_eq_some.mpr (.inl ⟨member, rfl⟩)]
    exact Option.some_ne_none _
  · obtain ⟨owner, given⟩ := Option.ne_none_iff_exists'.mp (bound.resolve_left member)
    rw [own_eq_some.mpr (.inr ⟨member, given⟩)]
    exact Option.some_ne_none _

variable {folded after : Folded} {event : Json}

/-- What the fold makes of an event: a claim, or a change of the record of its instance. -/
theorem apply_cases (applied : folded.apply event = some after) :
    ∃ instanceId kind record, event.string? "instance_id" = some instanceId ∧ event.string? "t" = some kind ∧
      after.records = folded.records.insert instanceId record ∧
      ((∃ carried, kind = "executing" ∧ record.state = .executing ∧ nonces event = some carried ∧
          after.owners = own folded.owners instanceId carried) ∨
        kind ≠ "executing" ∧ folded.records.lookup instanceId ≠ none ∧ after.owners = folded.owners ∧
          record.state ≠ .executing ∧ (kind = "unknown_outcome" → record.state = .unknownOutcome)) := by
  simp only [apply, Option.bind_eq_bind, Option.bind_eq_some_iff] at applied
  obtain ⟨instanceId, named, kind, given, applied⟩ := applied
  have changes : ∀ change : Record → Record, folded.update instanceId change = some after →
      kind ≠ "executing" → (∀ record, (change record).state ≠ .executing) →
      (kind = "unknown_outcome" → ∀ record, (change record).state = .unknownOutcome) →
      ∃ record, after.records = folded.records.insert instanceId record ∧ kind ≠ "executing" ∧
        folded.records.lookup instanceId ≠ none ∧ after.owners = folded.owners ∧
        record.state ≠ .executing ∧ (kind = "unknown_outcome" → record.state = .unknownOutcome) := by
    intro change updated other stopped unknown
    obtain ⟨record, known, rfl⟩ := Option.map_eq_some_iff.mp updated
    exact ⟨change record, rfl, other, by simp [known], rfl, stopped record, fun same => unknown same record⟩
  split at applied
  · simp only [Option.bind_eq_some_iff, pure, Option.some.injEq] at applied
    obtain ⟨generation, _, digest, _, carried, nonces, rfl⟩ := applied
    exact ⟨instanceId, _, _, named, given, rfl, .inl ⟨carried, rfl, rfl, nonces, rfl⟩⟩
  · obtain ⟨record, inserted, facts⟩ := changes _ applied (by decide) (fun _ => by simp)
      (fun same => absurd same (by decide))
    exact ⟨instanceId, _, record, named, given, inserted, .inr facts⟩
  · obtain ⟨record, inserted, facts⟩ := changes _ applied (by decide) (fun _ => by simp) (fun _ _ => rfl)
    exact ⟨instanceId, _, record, named, given, inserted, .inr facts⟩
  · obtain ⟨record, inserted, facts⟩ :=
      changes _ applied (by decide) (fun _ => by dsimp only; split <;> simp)
        (fun same => absurd same (by decide))
    exact ⟨instanceId, _, record, named, given, inserted, .inr facts⟩
  · cases applied

/-! ## Whole journals -/

variable {events : List Json}

theorem fold_snoc : fold (events ++ [event]) = (fold events).bind fun folded => folded.apply event := by
  simp only [fold, List.foldlM_append]
  cases List.foldlM apply {} events with
  | none => rfl
  | some folded => simp [List.foldlM]

/-- Every claim has left a record. -/
theorem fold_claimed {instanceId : String} (folds : fold events = some folded)
    (claimed : Claimed events instanceId) : folded.records.lookup instanceId ≠ none := by
  induction events using List.reverseRecOn generalizing folded with
  | nil => obtain ⟨_, member, _⟩ := claimed; cases member
  | append_singleton events event ih =>
    rw [fold_snoc, Option.bind_eq_some_iff] at folds
    obtain ⟨before, earlier, applied⟩ := folds
    obtain ⟨named, kind, record, isNamed, isKind, records, _⟩ := apply_cases applied
    rw [records]
    by_cases same : instanceId = named
    · simp [same]
    · rw [AList.lookup_insert_ne same]
      refine ih earlier ?_
      obtain ⟨claim, member, claims, ofInstance⟩ := claimed
      obtain member | member := List.mem_append.mp member
      · exact ⟨claim, member, claims, ofInstance⟩
      · rw [List.mem_singleton.mp member, isNamed, Option.some.injEq] at ofInstance
        exact absurd ofInstance.symm same

theorem fold_recorded {instanceId : String} (folds : fold events = some folded)
    (recorded : folded.records.lookup instanceId ≠ none) : Claimed events instanceId := by
  induction events using List.reverseRecOn generalizing folded with
  | nil => cases folds; exact absurd rfl recorded
  | append_singleton events event ih =>
    rw [fold_snoc, Option.bind_eq_some_iff] at folds
    obtain ⟨before, earlier, applied⟩ := folds
    obtain ⟨named, kind, record, isNamed, isKind, records, outcome⟩ := apply_cases applied
    by_cases same : instanceId = named
    · subst same
      obtain ⟨_, rfl, _⟩ | ⟨_, known, _⟩ := outcome
      · exact ⟨event, by simp, isKind, isNamed⟩
      · exact (ih earlier known).append event
    · rw [records, AList.lookup_insert_ne same] at recorded
      exact (ih earlier recorded).append event

theorem fold_owners {nonce : String × String} {owner : String} (folds : fold events = some folded)
    (given : folded.owners nonce = some owner) : Owned events nonce owner := by
  induction events using List.reverseRecOn generalizing folded with
  | nil => cases folds; cases given
  | append_singleton events event ih =>
    rw [fold_snoc, Option.bind_eq_some_iff] at folds
    obtain ⟨before, earlier, applied⟩ := folds
    obtain ⟨named, kind, record, isNamed, isKind, _, outcome⟩ := apply_cases applied
    obtain ⟨carried, rfl, _, nonces, owners⟩ | ⟨_, _, owners, _⟩ := outcome
    · rw [owners, own_eq_some] at given
      obtain ⟨member, rfl⟩ | ⟨_, given⟩ := given
      · exact ⟨event, by simp, isKind, isNamed, carried, nonces, member⟩
      · exact (ih earlier given).append event
    · rw [owners] at given
      exact (ih earlier given).append event

theorem fold_owned {nonce : String × String} {owner : String} (folds : fold events = some folded)
    (owned : Owned events nonce owner) : folded.owners nonce ≠ none := by
  induction events using List.reverseRecOn generalizing folded with
  | nil => obtain ⟨_, member, _⟩ := owned; cases member
  | append_singleton events event ih =>
    rw [fold_snoc, Option.bind_eq_some_iff] at folds
    obtain ⟨before, earlier, applied⟩ := folds
    obtain ⟨named, kind, record, isNamed, isKind, _, outcome⟩ := apply_cases applied
    obtain ⟨claim, member, claims, ofInstance, nonces, carries, carried⟩ := owned
    obtain member | member := List.mem_append.mp member
    · have known := ih earlier ⟨claim, member, claims, ofInstance, nonces, carries, carried⟩
      obtain ⟨_, _, _, _, owners⟩ | ⟨_, _, owners, _⟩ := outcome
      · rw [owners]
        exact own_bound (.inr known)
      · rw [owners]
        exact known
    · rw [List.mem_singleton.mp member] at claims carries
      obtain ⟨_, _, _, same, owners⟩ | ⟨other, _⟩ := outcome
      · rw [carries, Option.some.injEq] at same
        subst same
        rw [owners]
        exact own_bound (.inl carried)
      · rw [isKind, Option.some.injEq] at claims
        exact absurd claims other

/-- Where no nonce is claimed twice, the fold knows the owner of every claimed one. -/
theorem fold_owners_iff {nonce : String × String} {owner : String} (folds : fold events = some folded)
    (consistent : Consistent events) : folded.owners nonce = some owner ↔ Owned events nonce owner := by
  refine ⟨fold_owners folds, fun owned => ?_⟩
  obtain ⟨other, given⟩ := Option.ne_none_iff_exists'.mp (fold_owned folds owned)
  rw [given, consistent nonce other owner (fold_owners folds given) owned]

end Folded

/-! ## Records -/

theorem lookup_insert {records : Records} {instanceId : String} {record : Record} :
    (records.insert instanceId record).lookup = Function.update records.lookup instanceId (some record) := by
  funext other
  by_cases same : other = instanceId
  · subst same
    simp
  · simp [AList.lookup_insert_ne same, Function.update_of_ne same]

/-! ## Restarts -/

/-- What the boot makes of the record that an instance folds to. -/
def Record.restarted (record : Record) : Record :=
  if record.state = .executing then { record with state := .unknownOutcome } else record

theorem Record.restarted_executing {record : Record} (executing : record.state = .executing) :
    record.restarted = { record with state := .unknownOutcome } := by simp [restarted, executing]

theorem Record.restarted_other {record : Record} (other : record.state ≠ .executing) :
    record.restarted = record := by simp [restarted, other]

theorem Record.restarted_state (record : Record) : record.restarted.state ≠ .executing := by
  by_cases executing : record.state = .executing
  · simp [restarted_executing executing]
  · rwa [restarted_other executing]

namespace Store

def Unresolved (records : String → Option Record) (instanceId : String) : Prop :=
  (records instanceId).map Record.state = some .unknownOutcome

end Store

end AshA2A.Actuator
