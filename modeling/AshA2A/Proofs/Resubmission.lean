import AshA2A.ReceiptStore.Memory

/-! A command whose claimant crashed is claimed again under its own id, but the new claim stamps the
very entry that the effect's lease reads: the effect stays in flight until the lease has elapsed
once more. -/

namespace AshA2A.ReceiptStore.Memory

variable {state : Memory} {command : Command} {actuation : Actuation} {claimedAt : Option Nat} {opts : ClaimOpts}
  {fresh : Identity .execution} {claiming acting : Sight}

/-- An abandoned claim is taken over, under a new stamp. -/
theorem claimSeen_abandoned (held : state.InFlight command actuation claimedAt)
    (abandoned : ClaimLease.abandoned claimedAt opts.leaseMs claiming = true) :
    state.claimSeen command opts fresh claiming =
      (.execute (opts.executionId.getD fresh), state.putClaim command.commandId
        ⟨command.fingerprint, opts.executionId.getD fresh, none, some claiming.stamp⟩) := by
  obtain ⟨executionId, primary⟩ := held.primary
  simp only [ClaimLease.abandoned, Bool.and_eq_true, Bool.not_eq_true'] at abandoned
  simp [claimSeen, claim, primary, abandoned.1, claimChecked, abandoned.2, freshClaim]

/-- The claim of the effect asks the lease of its recorded claimant. -/
theorem claimActuationSeen_inFlight (held : state.InFlight command actuation claimedAt) (leaseMs : Nat) :
    (state.claimActuationSeen actuation command.commandId leaseMs acting).1 =
      if ClaimLease.abandoned claimedAt leaseMs acting then .proceed else .inFlight := by
  obtain ⟨executionId, primary⟩ := held.primary
  have verdict : ActuationClaimLease.decide (state.claims command.commandId) = .lease claimedAt := by
    simp [primary, ActuationClaimLease.decide]
  by_cases elapsed : leaseElapsed acting.now leaseMs claimedAt = true
  · have checking : state.claimActuation actuation command.commandId leaseMs acting.now =
        .checking command.commandId := by
      simp [claimActuation, held.effect, verdict, elapsed]
    cases anchored : acting.anchored with
    | true => simp [claimActuationSeen, checking, claimActuationChecked, ClaimLease.abandoned, anchored]
    | false => simp [claimActuationSeen, checking, claimActuationChecked, ClaimLease.abandoned, anchored, elapsed]
  · simp [claimActuationSeen, claimActuation, held.effect, verdict, elapsed, ClaimLease.abandoned]

theorem claimSeen_keeps (held : state.InFlight command actuation claimedAt)
    (abandoned : ClaimLease.abandoned claimedAt opts.leaseMs claiming = true) :
    (state.claimSeen command opts fresh claiming).2.InFlight command actuation (some claiming.stamp) := by
  rw [claimSeen_abandoned held abandoned]
  exact ⟨⟨opts.executionId.getD fresh, by simp [putClaim]⟩, held.effect⟩

/-- The answers of both calls. -/
theorem resubmit_replies (held : state.InFlight command actuation claimedAt)
    (abandoned : ClaimLease.abandoned claimedAt opts.leaseMs claiming = true) :
    (state.resubmit command actuation opts fresh claiming acting).1 = .execute (opts.executionId.getD fresh) ∧
      (state.resubmit command actuation opts fresh claiming acting).2.1 =
        some (if ClaimLease.abandoned (some claiming.stamp) opts.leaseMs acting then .proceed else .inFlight) := by
  have taken : state.claimSeen command opts fresh claiming = _ := claimSeen_abandoned held abandoned
  have kept : (state.claimSeen command opts fresh claiming).2.InFlight command actuation (some claiming.stamp) :=
    claimSeen_keeps held abandoned
  have effect : ((state.claimSeen command opts fresh claiming).2.claimActuationSeen actuation command.commandId
      opts.leaseMs acting).1 = _ := claimActuationSeen_inFlight kept opts.leaseMs
  rw [taken] at effect
  simp only [resubmit, taken, effect, and_self]

/-- The command is told to execute and its effect to proceed. -/
def Resumed (replies : ClaimReply × Option ActuationReply × Memory) : Prop :=
  (∃ executionId, replies.1 = .execute executionId) ∧ replies.2.1 = some .proceed

/-- A command that was abandoned resumes its effect exactly when, at the second call, the lease has
elapsed again since the first one and there still is no anchor. -/
theorem resumed_iff (held : state.InFlight command actuation claimedAt)
    (abandoned : ClaimLease.abandoned claimedAt opts.leaseMs claiming = true) :
    Resumed (state.resubmit command actuation opts fresh claiming acting) ↔
      claiming.stamp + opts.leaseMs ≤ acting.now ∧ acting.anchored = false := by
  obtain ⟨executed, effect⟩ := @resubmit_replies state command actuation claimedAt opts fresh claiming acting held
    abandoned
  have elapsed : ClaimLease.abandoned (some claiming.stamp) opts.leaseMs acting = true ↔
      claiming.stamp + opts.leaseMs ≤ acting.now ∧ acting.anchored = false := by
    simp [ClaimLease.abandoned, leaseElapsed]
  rw [Resumed, executed, effect, ← elapsed]
  by_cases again : ClaimLease.abandoned (some claiming.stamp) opts.leaseMs acting = true
  · simp [again]
  · simp [again]

def crashed : Command :=
  { commandId := ⟨"c"⟩, agentId := ⟨"agent"⟩, principalId := ⟨"principal"⟩, capabilityId := "skill", input := .integer 0
    submittedAt := 0, fingerprint := "f" }

def unfinished : Actuation := ⟨⟨"a"⟩, ⟨"i"⟩, "a", "0", false⟩

/-- Both claims were made at time 0, and nothing came of them. -/
def abandonedState : Memory :=
  ((({} : Memory).serve ⟨"e"⟩ 0 (.claim crashed ⟨300000, none⟩)).2.serve ⟨"-"⟩ 0
    (.claimActuation unfinished crashed.commandId 300000)).2

theorem abandonedState_inFlight : abandonedState.InFlight crashed unfinished (some 0) :=
  ⟨⟨⟨"e"⟩, by decide⟩, by decide⟩

/-- A lease of no time has always elapsed. -/
theorem resumed_at_once : Resumed (abandonedState.resubmit crashed unfinished ⟨0, none⟩ ⟨"e2"⟩
    ⟨7, false, 7⟩ ⟨7, false, 7⟩) ↔ 7 + 0 ≤ 7 ∧ false = false :=
  resumed_iff abandonedState_inFlight (by decide)

/-- Five minutes later the command is claimed again, and its effect is refused as in flight. -/
theorem abandoned_not_resumed : ¬ ∀ state, Reachable state → ∀ command actuation claimedAt opts fresh claiming acting,
    state.InFlight command actuation claimedAt →
    ClaimLease.abandoned claimedAt opts.leaseMs claiming = true →
    claiming.now ≤ claiming.stamp → claiming.stamp ≤ acting.now → acting.anchored = false →
    Resumed (state.resubmit command actuation opts fresh claiming acting) := by
  intro resumes
  have reached : Reachable abandonedState := (Reachable.started.served _ _ _).served _ _ _
  have resumed := resumes abandonedState reached crashed unfinished (some 0) ⟨300000, none⟩ ⟨"e2"⟩
    ⟨300000, false, 300000⟩ ⟨300001, false, 300001⟩ abandonedState_inFlight (by decide) (by decide) (by decide) rfl
  exact absurd resumed.2 (by decide)

end AshA2A.ReceiptStore.Memory
