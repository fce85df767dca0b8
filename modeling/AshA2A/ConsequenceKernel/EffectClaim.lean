import AshA2A.PreparedEffectStore

/-! The claims on effects, apart from those on prepared records: an effect is claimed once, and
its claim stays. -/

namespace AshA2A.ConsequenceKernel

inductive ClaimState where
  | claimed | doing | completed | failed | unknownOutcome
  | reconciledCompleted | reconciledNotApplied | reconciledUnknown
  deriving Repr, DecidableEq

structure EffectClaim where
  claimId : String
  requestId : String
  effectId : String
  preparedDigest : String
  subjectDigest : String
  owner : String
  state : ClaimState
  issuedAtMs : Int
  mac : String
  deriving Repr, DecidableEq

structure ClaimReceipt where
  claimId : String
  effectId : String
  preparedDigest : String
  event : ClaimState
  previous : String
  chainDigest : String
  deriving Repr, DecidableEq

inductive Code where
  | preparedDigestMissing
  | prepared (code : PreparedEffectStore.Error)
  /-- What the authority answered, or that its answer is none. -/
  | authority (reason : Term)
  | authorityInvalid (answer : Term)
  | consequenceUnclassified
  | independentEffectClaimStoreRequired | independentEffectClaimRequired
  | effectClaimKeyInvalid | effectClaimExactSubjectMismatch | preparedDigestMismatch
  | effectClaimAuthenticationFailed
  | effectClaimDuplicate | effectAlreadyClaimed | effectClaimTransitionRefused | effectClaimNotFound
  | reconciliationRequiresUnknownOutcome
  | releaseAfterApplyForbidden (source : String)
  /-- From the canonical form of a term, or from the keys. -/
  | outside (reason : Term)
  deriving Repr, DecidableEq

def ClaimTransition.allowed : ClaimState → List ClaimState
  | .claimed => [.doing]
  | .doing => [.completed, .failed, .unknownOutcome]
  | .unknownOutcome => [.reconciledCompleted, .reconciledNotApplied, .reconciledUnknown]
  | _ => []

def ClaimTransition.admit (source target : ClaimState) : Bool := target ∈ ClaimTransition.allowed source

namespace EffectClaimStore

inductive Call where
  | put (claim : EffectClaim)
  | fetch (id : String)
  | fetchEffect (id : String)
  | transition (id : String) (source target : ClaimState)
  | appendReceipt (id : String) (receipt : ClaimReceipt)
  | receipts (id : String)
  deriving Repr, DecidableEq

inductive Answer where
  | ok
  | found (claim : EffectClaim)
  | receipts (receipts : List ClaimReceipt)
  | notFound
  | error (code : Code)
  deriving Repr, DecidableEq

/-- The in-memory store. -/
structure State where
  claims : String → Option EffectClaim := fun _ => none
  effects : String → Option String := fun _ => none
  receipts : String → List ClaimReceipt := fun _ => []

namespace Memory

def put (state : State) (claim : EffectClaim) : Answer × State :=
  if (state.claims claim.claimId).isSome then (.error .effectClaimDuplicate, state)
  else if (state.effects claim.effectId).isSome then (.error .effectAlreadyClaimed, state)
  else
    (.ok, { state with
      claims := Function.update state.claims claim.claimId (some claim)
      effects := Function.update state.effects claim.effectId (some claim.claimId)
      receipts := Function.update state.receipts claim.claimId [] })

def found : Option EffectClaim → Answer
  | some claim => .found claim
  | none => .notFound

def transition (state : State) (id : String) (source target : ClaimState) : Answer × State :=
  match state.claims id with
  | some claim =>
    if claim.state = source ∧ ClaimTransition.admit source target then
      (.ok, { state with claims := Function.update state.claims id (some { claim with state := target }) })
    else (.error .effectClaimTransitionRefused, state)
  | none => (.error .effectClaimTransitionRefused, state)

def appendReceipt (state : State) (id : String) (receipt : ClaimReceipt) : Answer × State :=
  if (state.claims id).isSome then
    (.ok, { state with receipts := Function.update state.receipts id (state.receipts id ++ [receipt]) })
  else (.error .effectClaimNotFound, state)

def handle (state : State) : Call → Answer × State
  | .put claim => put state claim
  | .fetch id => (found (state.claims id), state)
  | .fetchEffect id => (found ((state.effects id).bind state.claims), state)
  | .transition id source target => transition state id source target
  | .appendReceipt id receipt => appendReceipt state id receipt
  | .receipts id => (if (state.claims id).isSome then .receipts (state.receipts id) else .notFound, state)

variable {state : State} {call : Call}

/-- A claim is accepted for an effect that nobody has claimed. -/
theorem put_ok {claim : EffectClaim} (accepted : (put state claim).1 = .ok) :
    state.effects claim.effectId = none ∧ (put state claim).2.effects =
      Function.update state.effects claim.effectId (some claim.claimId) := by
  unfold put at accepted ⊢
  split at accepted
  case isTrue => cases accepted
  case isFalse fresh =>
    split at accepted
    case isTrue => cases accepted
    case isFalse free =>
      rw [if_neg fresh, if_neg free]
      exact ⟨by simpa using free, rfl⟩

/-- Whatever is asked of the store, an effect that is claimed stays claimed. -/
theorem handle_claimed {effectId : String} (claimed : (state.effects effectId).isSome) :
    ((handle state call).2.effects effectId).isSome := by
  cases call with
  | put claim =>
    simp only [handle]
    unfold put
    split
    · exact claimed
    · split
      · exact claimed
      · by_cases same : effectId = claim.effectId
        · simp [same]
        · simpa [Function.update_of_ne same] using claimed
  | fetch id => exact claimed
  | fetchEffect id => exact claimed
  | transition id source target =>
    simp only [handle]
    unfold transition
    split
    · split <;> exact claimed
    · exact claimed
  | appendReceipt id receipt =>
    simp only [handle]
    unfold appendReceipt
    split <;> exact claimed
  | receipts id => exact claimed

end Memory
end EffectClaimStore
end AshA2A.ConsequenceKernel
