import AshA2A.ReceiptStore.Memory

/-! What each call of the in-memory store changes, and what its answer says about the
state it was served in. -/

namespace AshA2A.ReceiptStore.Memory

variable {state : Memory} {receipt : Receipt} {commandId : Identity .command}

theorem fetch_eq_some_iff : state.fetch commandId = some receipt ↔
    ∃ entry, state.claims commandId = some entry ∧ entry.receipt = some receipt := by
  simp [fetch, Option.bind_eq_some_iff]

theorem putClaim_fetch {claim : Claim} : (state.putClaim commandId claim).fetch commandId = claim.receipt := by
  simp [fetch, putClaim]

theorem putClaim_fetch_of_ne {claim : Claim} {other : Identity .command} (different : other ≠ commandId) :
    (state.putClaim commandId claim).fetch other = state.fetch other := by
  simp [fetch, putClaim, Function.update_of_ne different]

section

variable (state) (command : Command) (opts : ClaimOpts) (fresh : Identity .execution) (now : Nat)

/-- A claim is only ever made where no receipt is stored. -/
theorem freshClaim_fetch (unstored : state.fetch command.commandId = none) (other : Identity .command) :
    (state.freshClaim command opts fresh now).2.fetch other = state.fetch other := by
  by_cases same : other = command.commandId
  · subst same
    rw [unstored]
    exact putClaim_fetch
  · exact putClaim_fetch_of_ne same

/-- A claim call that is answered at once changes no stored receipt; one that goes on to look
at the journal has found a claim without a receipt, and has changed nothing. -/
theorem claim_cases :
    (∃ reply after, state.claim command opts fresh now = .answered reply after ∧
      ∀ other, after.fetch other = state.fetch other) ∨
    (state.claim command opts fresh now = .checking command.commandId ∧
      state.fetch command.commandId = none) := by
  unfold claim
  cases found : state.claims command.commandId with
  | none => exact .inl ⟨_, _, rfl, freshClaim_fetch _ _ _ _ _ (by simp [fetch, found])⟩
  | some entry =>
    dsimp only
    split
    · cases stored : entry.receipt with
      | some receipt => exact .inl ⟨_, _, rfl, fun _ => rfl⟩
      | none =>
        dsimp only
        split
        · exact .inr ⟨rfl, by simp [fetch, found, stored]⟩
        · exact .inl ⟨_, _, rfl, fun _ => rfl⟩
    · exact .inl ⟨_, _, rfl, fun _ => rfl⟩

end

theorem commit_cases (state : Memory) (receipt : Receipt) :
    ((state.commit receipt).1 = .ok ∧ ∃ entry, state.claims receipt.commandId = some entry ∧
      entry.fingerprint = receipt.fingerprint ∧ entry.executionId = receipt.executionId ∧
      (state.commit receipt).2 = state.putClaim receipt.commandId { entry with receipt := some receipt }) ∨
    ((state.commit receipt).1 ≠ .ok ∧ (state.commit receipt).2 = state) := by
  unfold commit
  cases found : state.claims receipt.commandId with
  | none => exact .inr ⟨by simp, rfl⟩
  | some entry =>
    dsimp only
    split
    next fingerprint =>
      split
      next execution => exact .inl ⟨rfl, entry, rfl, fingerprint, execution, rfl⟩
      next => exact .inr ⟨by simp, rfl⟩
    next => exact .inr ⟨by simp, rfl⟩

/-- All that any call does to the claims: a new claim without a receipt, where there was none
or where the server has looked at the journal, or a receipt for the execution that holds
the claim. -/
theorem serve_claims (state : Memory) (fresh : Identity .execution) (now : Nat) (call : MemoryCall) :
    (state.serve fresh now call).2.claims = state.claims ∨
    (∃ command entry, (state.claims command.commandId = none ∨
        ∃ opts, call = .claimChecked command opts false) ∧ entry.receipt = none ∧
      (state.serve fresh now call).2.claims =
        Function.update state.claims command.commandId (some entry)) ∨
    (∃ receipt entry, call = .commit receipt ∧ state.claims receipt.commandId = some entry ∧
      entry.executionId = receipt.executionId ∧
      (state.serve fresh now call).2.claims =
        Function.update state.claims receipt.commandId (some { entry with receipt := some receipt })) := by
  cases call with
  | claim command opts =>
    simp only [serve, claim]
    cases found : state.claims command.commandId with
    | none => exact .inr (.inl ⟨command, _, .inl found, rfl, rfl⟩)
    | some entry =>
      dsimp only
      refine .inl ?_
      split
      · split
        · rfl
        · split <;> rfl
      · rfl
  | claimChecked command opts anchored =>
    cases anchored with
    | true => exact .inl rfl
    | false => exact .inr (.inl ⟨command, _, .inr ⟨opts, rfl⟩, rfl, rfl⟩)
  | commit receipt =>
    rcases commit_cases state receipt with ⟨_, entry, found, _, execution, stored⟩ | ⟨_, same⟩
    · exact .inr (.inr ⟨receipt, entry, rfl, found, execution, by simp [serve, stored, putClaim]⟩)
    · exact .inl (by simp [serve, same])
  | claimActuation actuation commandId leaseMs =>
    refine .inl ?_
    simp only [serve, claimActuation]
    split
    · rfl
    · split
      · split
        · rfl
        · split
          · rfl
          · rfl
          · rfl
          · split <;> rfl
      · rfl
  | claimActuationChecked actuation commandId anchored => cases anchored <;> exact .inl rfl
  | commitActuation actuation receipt =>
    refine .inl ?_
    simp only [serve, commitActuation]
    split <;> rfl
  | releaseActuation actuation =>
    refine .inl ?_
    simp only [serve, releaseActuation]
    split <;> rfl
  | fetch _ | confirmClaim _ _ => exact .inl rfl

/-- A run that is told to execute holds a claim under the identifier made for it. -/
theorem claim_execute {command : Command} {leaseMs now : Nat} {fresh executionId : Identity .execution}
    (told : (state.serve fresh now (.claim command ⟨leaseMs, none⟩)).1 = .done (.execute executionId)) :
    executionId = fresh := by
  simp only [serve, claim] at told
  cases found : state.claims command.commandId with
  | none =>
    simp only [found, freshClaim, Handled.progress] at told
    cases told
    rfl
  | some entry =>
    simp only [found] at told
    split at told
    · split at told
      · cases told
      · split at told <;> cases told
    · cases told

theorem claim_checking {command : Command} {opts : ClaimOpts} {now : Nat} {fresh : Identity .execution}
    (told : (state.serve fresh now (.claim command opts)).1 = .checking commandId) :
    commandId = command.commandId ∧ state.fetch command.commandId = none := by
  rcases claim_cases state command opts fresh now with ⟨_, _, answered, _⟩ | ⟨checking, unstored⟩
  · simp [serve, answered, Handled.progress] at told
  · simp only [serve, checking, Handled.progress, Progress.checking.injEq] at told
    exact ⟨told.symm, unstored⟩

theorem claim_replay {command : Command} {opts : ClaimOpts} {now : Nat} {fresh : Identity .execution}
    (told : (state.serve fresh now (.claim command opts)).1 = .done (.replay receipt)) :
    ∃ stored, state.fetch command.commandId = some stored ∧ receipt = stored.replay := by
  simp only [serve, claim] at told
  cases found : state.claims command.commandId with
  | none => simp [found, freshClaim, Handled.progress] at told
  | some entry =>
    simp only [found] at told
    split at told
    · cases stored : entry.receipt with
      | some receipt =>
        simp only [stored, Handled.progress] at told
        cases told
        exact ⟨receipt, by simp [fetch, found, stored], rfl⟩
      | none =>
        simp only [stored] at told
        split at told <;> cases told
    · cases told

end AshA2A.ReceiptStore.Memory
