import AshA2A.ConsequenceKernel.Surroundings
import AshA2A.Protocol.Agent.Runtime

/-! The claim on the effect: authenticated, bound to the prepared record, and moved with the run. -/

namespace AshA2A.ConsequenceKernel
open Concurrency

/-- A step that is refused, or an exception that ends the caller. -/
inductive Stop where
  | refused (code : Code)
  | crashed
  deriving Repr, DecidableEq

abbrev Stage (α : Type) : Type := ExceptT Stop (Program Op Reply) α

def ask (op : Op) : Stage (Reply op) := ExceptT.lift (Program.ask op)

def refuse {α : Type} (code : Code) : Stage α := throw (.refused code)

def guard (code : Code) (holds : Bool) : Stage Unit := if holds then pure () else refuse code

/-- Canonical texts, their digests and the keyed ones. -/
structure Host where
  identity : (requestId effectId preparedDigest subjectDigest : String) → Except Term String
  body : EffectClaim → Except Term String
  mac : String → String → String
  chain : ClaimReceipt → Except Term String
  inspect : Term → String

def lift {α : Type} : Except Term α → Stage α
  | .ok value => pure value
  | .error reason => refuse (.outside reason)

def claimsOk (call : EffectClaimStore.Call) : Stage Unit := do
  match (← ask (.claims call) : EffectClaimStore.Answer) with
  | .ok => pure ()
  | .error code => refuse code
  | _ => throw .crashed

variable (host : Host)

namespace ClaimAuthenticator

def keyed (key : String) : Bool := 16 ≤ key.utf8ByteSize

def ownerString : Term → String
  | .binary owner => owner
  | owner => host.inspect owner

def issue (p : Prepared) (owner : Term) (key : String) : Stage EffectClaim := do
  guard .effectClaimKeyInvalid (keyed key)
  let id ← lift (host.identity p.requestId p.effectId p.preparedDigest p.subjectDigest)
  let now ← ask .now
  let claim : EffectClaim := {
    claimId := id, requestId := p.requestId, effectId := p.effectId, preparedDigest := p.preparedDigest
    subjectDigest := p.subjectDigest, owner := ownerString host owner, state := .claimed, issuedAtMs := now, mac := "" }
  let body ← lift (host.body claim)
  pure { claim with mac := host.mac key body }

def verify (claim : EffectClaim) (key : String) : Stage Unit :=
  match host.body claim with
  | .ok body => guard .effectClaimAuthenticationFailed (keyed key && claim.mac == host.mac key body)
  | .error _ => refuse .effectClaimAuthenticationFailed

end ClaimAuthenticator

namespace ClaimProtocol

/-- What a claim is found by. -/
structure Context where
  claimId : String
  key : String
  deriving Repr, DecidableEq

structure Options where
  owner : Term
  principal : Term
  /-- The records are sealed. -/
  keyProvider : Bool := false
  claimStore : Bool := true
  claimKey : Option String := none
  deriving Repr, DecidableEq

def config (opts : Options) : Stage String :=
  match opts.claimKey with
  | some key =>
    if opts.claimStore && ClaimAuthenticator.keyed key then pure key
    else refuse .independentEffectClaimStoreRequired
  | none => refuse .independentEffectClaimStoreRequired

def append (claim : EffectClaim) (event : ClaimState) : Stage Unit := do
  let previous : String :=
    match (← ask (.claims (.receipts claim.claimId)) : EffectClaimStore.Answer) with
    | .receipts receipts => (receipts.getLast?.map (·.chainDigest)).getD "sha256:root"
    | _ => "sha256:root"
  let receipt : ClaimReceipt := ⟨claim.claimId, claim.effectId, claim.preparedDigest, event, previous, ""⟩
  let digest ← lift (host.chain receipt)
  claimsOk (.appendReceipt claim.claimId { receipt with chainDigest := digest })

def claim (p : Prepared) (opts : Options) : Stage Context := do
  let key ← config opts
  let claim ← ClaimAuthenticator.issue host p opts.owner key
  guard .effectClaimExactSubjectMismatch
    (claim.preparedDigest == p.preparedDigest && claim.subjectDigest == p.subjectDigest)
  guard .independentEffectClaimRequired (p.requestId != claim.claimId)
  guard .preparedDigestMismatch (p.preparedDigest == claim.preparedDigest && p.requestId != claim.claimId)
  claimsOk (.put claim)
  ClaimAuthenticator.verify host claim key
  append host claim .claimed
  pure ⟨claim.claimId, key⟩

def fetch (id : String) : Stage EffectClaim := do
  match (← ask (.claims (.fetch id)) : EffectClaimStore.Answer) with
  | .found claim => pure claim
  | .error code => refuse code
  | _ => refuse .effectClaimNotFound

def fetchVerified (context : Context) : Stage EffectClaim := do
  let claim ← fetch context.claimId
  ClaimAuthenticator.verify host claim context.key
  pure claim

/-- The claim moves on, and its receipt says so. No store loses a claim in between. -/
def advance (claim : EffectClaim) (source target : ClaimState) : Stage Unit := do
  claimsOk (.transition claim.claimId source target)
  let claim ← fetch claim.claimId
  append host claim target

def beginDo (context : Context) : Stage Unit := do
  let claim ← fetchVerified host context
  advance host claim .claimed .doing

def recordOutcome (context : Context) (succeeded : Bool) : Stage Unit := do
  let claim ← fetchVerified host context
  advance host claim .doing (if succeeded then .completed else .unknownOutcome)

inductive Observation where
  | applied | notApplied | other
  deriving Repr, DecidableEq

def resolve : Observation → ClaimState
  | .applied => .reconciledCompleted
  | .notApplied => .reconciledNotApplied
  | .other => .reconciledUnknown

def recover (context : Context) (observation : Observation) : Stage ClaimState := do
  let claim ← fetchVerified host context
  guard .reconciliationRequiresUnknownOutcome (claim.state = .unknownOutcome)
  advance host claim .unknownOutcome (resolve observation)
  pure (resolve observation)

end ClaimProtocol
end AshA2A.ConsequenceKernel
