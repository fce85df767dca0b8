import AshA2A.Actuator.Effect

/-! The sixteen checks before an effect is performed. -/

namespace AshA2A.Actuator

open Sa2aCrypto

structure Revocation where
  refreshedAt : Int
  epoch : Nat
  revoked : List String
  deriving Repr, DecidableEq

/-- The actuator's own view of the world. The clock is read anew by every check that asks
for it: `clock n` is what check `n` reads. -/
structure Context where
  registry : Registry
  audience : String
  policyEpoch : Nat
  revocation : Option Revocation := none
  allowedSubjects : List String := []
  /-- `none` allows all. -/
  allowedCapabilities : Option (List String) := none
  quorum : List (String × Term) := []
  quorumDefault : Term
  generations : List (String × Nat) := []
  generationDefault : Nat := 1
  skew : Int := 30
  maxTtl : Int := 900
  maxRevocationStaleness : Int := 300
  requiredProfile : Profile := .classical
  allowedAlgs : Option (List String) := none
  clock : Nat → Int

namespace Context

/-- What no number of custodians reaches: the gate stays closed. -/
def unsatisfiable : Nat := 1000000

def quorumFor (context : Context) (consequenceClass : String) : Nat :=
  match (context.quorum.lookup consequenceClass).getD context.quorumDefault with
  | .integer (.ofNat (count + 1)) => count + 1
  | _ => unsatisfiable

end Context

inductive RecordState where
  | executing | completed | unknownOutcome | reconciledNotPerformed
  deriving Repr, DecidableEq

structure Record where
  instanceId : String
  state : RecordState
  generation : Nat
  effectDigest : String
  ledgerSeq : Option Nat := none
  ledgerHash : Option String := none
  deriving Repr, DecidableEq

namespace Fence

structure Request where
  effect : Effect
  bytes : Bytes
  cert : Certificate

/-- What the store's durable state says about the request. -/
structure View where
  record : Option Record
  nonceOwner : String × String → Option String

def protocolVersion : Nat := 1

def parse (library : Json.Library) (effectBytes certBytes : Bytes) : Except String Request := do
  let effect ← Effect.decode library effectBytes
  let cert ← Certificate.decode library certBytes
  pure ⟨effect, effectBytes, cert⟩

/-- A check that passes or refuses under one code. -/
def require (condition : Bool) (code : String) : Except String Unit :=
  if condition then .ok () else .error code

variable (host : Host) (context : Context) (request : Request) (view : View)

def check01ProtocolVersion : Except String Unit :=
  require (request.effect.v = protocolVersion ∧ request.cert.v = protocolVersion)
    "unsupported_protocol_version"

def check02EffectDigest : Except String Unit :=
  require (host.digest request.bytes = request.cert.effectDigest) "effect_digest_mismatch"

def check03Principal : Except String Unit :=
  require (request.effect.principal = request.cert.principal ∧ request.effect.principal ≠ "")
    "principal_mismatch"

def check04Subject : Except String Unit :=
  require (request.effect.subject ∈ context.allowedSubjects) "subject_not_allowed"

def check05Capability : Except String Unit :=
  require ((Effector.fetch request.effect.effectType).any fun effector =>
      request.effect.capability = effector.capability ∧
        context.allowedCapabilities.all (request.effect.capability ∈ ·))
    "capability_mismatch"

def check06ConsequenceClass : Except String Unit :=
  require ((Effector.fetch request.effect.effectType).any fun effector =>
    effector.consequenceClass = request.effect.consequenceClass) "consequence_class_mismatch"

/-- Eight to 128 characters of a fixed alphabet. -/
def check07EffectInstance : Except String Unit :=
  let name := request.effect.effectInstanceId.toList
  require (8 ≤ name.length ∧ name.length ≤ 128 ∧ name.all fun char =>
    char ∈ "ABCDEFGHIJKLMNOPQRSTUVWXYZabcdefghijklmnopqrstuvwxyz0123456789_.:-".toList)
    "bad_effect_instance"

def check08ResourceBounds : Except String Unit :=
  require ((Effector.fetch request.effect.effectType).any fun effector =>
    request.effect.maxBytes ≤ effector.maxBytes ∧
      effector.size request.effect.params ≤ request.effect.maxBytes) "resource_bounds_exceeded"

def check09PolicyEpoch : Except String Unit :=
  require (request.effect.policyEpoch = context.policyEpoch ∧
    request.cert.policyEpoch = context.policyEpoch) "policy_epoch_stale"

/-- Verification is asked at a time inside the window of the certificate. -/
def clamped (read : Nat) : Int :=
  min (max (context.clock read) request.cert.notBefore) (request.cert.expires - 1)

def verifyOne (read : Nat) (signature : Signature) : Except String Standing :=
  match request.cert.signedMessage signature host.library with
  | .error _ => .error "malformed_message"
  | .ok bytes => verifyEnvelope host (request.cert.envelope signature host bytes) bytes context.registry
    { now := clamped context request read
      audience := some context.audience
      requiredProfile := context.requiredProfile
      allowedAlgs := context.allowedAlgs }

def verifyAll (read : Nat) : List (Except String Standing) :=
  request.cert.signatures.map (verifyOne host context request read)

def firstError : List (Except String Standing) → Except String Unit
  | [] => .ok ()
  | .ok _ :: rest => firstError rest
  | .error code :: _ => .error code

def check10Signatures : Except String Unit := firstError (verifyAll host context request 10)

def custodians (standings : List (Except String Standing)) : List String :=
  (standings.filterMap fun standing => standing.toOption.map (·.custodianId)).dedup

def check11Quorum : Except String Unit :=
  require (context.quorumFor request.effect.consequenceClass ≤
    (custodians (verifyAll host context request 11)).length) "quorum_not_met"

def check12ValidityWindow : Except String Unit :=
  let now := context.clock 12
  if request.cert.expires ≤ request.cert.notBefore then .error "malformed_window"
  else if context.maxTtl < (request.cert.expires : Int) - request.cert.notBefore then .error "ttl_too_long"
  else if now + context.skew < request.cert.notBefore then .error "not_yet_valid"
  else if request.cert.expires ≤ now then .error "expired"
  else .ok ()

def check13Revocation : Except String Unit :=
  let now := context.clock 13
  match context.revocation with
  | none => .error "revocation_view_missing"
  | some revocation =>
    if context.maxRevocationStaleness < now - revocation.refreshedAt then .error "revocation_view_stale"
    else if now + context.skew < revocation.refreshedAt then .error "revocation_view_stale"
    else if request.cert.revocationEpoch < revocation.epoch then .error "revocation_epoch_stale"
    else if request.cert.signatures.any fun signature => signature.kid ∈ revocation.revoked then
      .error "key_revoked"
    else .ok ()

/-- Some nonce of the certificate is bound to another instance. -/
def foreign : Bool :=
  request.cert.signatures.any fun signature =>
    (view.nonceOwner (signature.kid, signature.nonce)).any (· ≠ request.effect.effectInstanceId)

def check14ClaimOwnership : Except String Unit :=
  if foreign request view then .error "nonce_replayed"
  else match view.record.map Record.state with
    | some .executing => .error "claim_held"
    | some .unknownOutcome => .error "unknown_outcome"
    | some .reconciledNotPerformed => .error "claim_closed"
    | some .completed | none => .ok ()

def check15NotCompleted : Except String Unit :=
  require (view.record.map Record.state ≠ some .completed) "effect_already_completed"

def expectedGeneration : Nat :=
  match view.record with
  | some record => record.generation
  | none => (context.generations.lookup request.effect.effectInstanceId).getD context.generationDefault

def check16Generation : Except String Unit :=
  require (request.cert.generation = expectedGeneration context request view) "generation_stale"

/-- In order; the first refusal counts, under the number of its check. -/
def checks : List (Nat × Except String Unit) :=
  [(1, check01ProtocolVersion request), (2, check02EffectDigest host request), (3, check03Principal request),
    (4, check04Subject context request), (5, check05Capability context request),
    (6, check06ConsequenceClass request), (7, check07EffectInstance request),
    (8, check08ResourceBounds request), (9, check09PolicyEpoch context request),
    (10, check10Signatures host context request), (11, check11Quorum host context request),
    (12, check12ValidityWindow context request), (13, check13Revocation context request),
    (14, check14ClaimOwnership request view), (15, check15NotCompleted view),
    (16, check16Generation context request view)]

def firstRefusal : List (Nat × Except String Unit) → Except (Nat × String) Unit
  | [] => .ok ()
  | (_, .ok ()) :: rest => firstRefusal rest
  | (number, .error code) :: _ => .error (number, code)

def run : Except (Nat × String) Unit := firstRefusal (checks host context request view)

end Fence

end AshA2A.Actuator
