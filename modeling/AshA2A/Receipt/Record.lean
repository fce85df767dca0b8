import AshA2A.Command

/-! The receipt as it is stored: what was attempted, what was observed, and the binding
that ties the two together. -/

namespace AshA2A

/-- The codes of error replies that the code itself names. -/
inductive Code where
  | receiptAnchorUnavailable | killSwitchTripped | authorityRequired | authorityMismatch
  | consequenceUnclassified | capabilityReleaseRefused | capabilityNotFound | actionNotFound
  | commandConflict | actuationConflict | actuationInFlight | actuationStoreUnavailable
  | authorityExpired | authorityRevoked | authorityConstraintMismatch
  | authorityRevalidationUnavailable | killSwitchUnavailable
  | dispatchTimeout | dispatchLost
  | other (name : String)
  deriving Repr, DecidableEq

/-- The body of an error reply: a map with a code, or any other term without one. -/
structure Fault where
  code : Option Code
  detail : Term
  reason : Term := .nil
  deriving Repr, DecidableEq

/-- What a dispatcher returns. -/
inductive Reply where
  | reply (value : Term)
  | inputRequired (value : Term)
  | stream (enumerable : Term)
  | error (fault : Fault)
  | other (term : Term)
  deriving Repr, DecidableEq

/-- The reply of a receipt that has observed none. -/
abbrev Reply.nil : Reply := .other .nil

namespace Receipt

inductive Status where
  | pending | completed | inputRequired | streamOpened | failed | unknown
  | postconditionContradicted | compensated
  deriving Repr, DecidableEq

inductive TerminalStatus where
  | executed | refused | failed | reconciled | compensated | unknownOutcome
  deriving Repr, DecidableEq

inductive Standing where
  | observed | durable
  deriving Repr, DecidableEq

inductive Outcome where
  | pending | observed | deduplicated | reconciled | compensated
  deriving Repr, DecidableEq

structure AuthorityGrant where
  tokenId : String
  subject : String
  capabilityId : String
  source : String
  issuedAt : Nat
  expiresAt : Option Nat
  constraints : TermMap
  evidenceDigest : String
  deriving Repr, DecidableEq

inductive Progress.State where
  | notRequired | pending | reconciled | compensated | unknownOutcome
  deriving Repr, DecidableEq

/-- The receipt's own `reconciliation` map. -/
structure Progress where
  state : Progress.State
  attempts : Nat
  reconciledAt : Option Nat := none
  compensatedAt : Option Nat := none
  detail : Option Term := none
  reason : Option Code := none
  deriving Repr, DecidableEq

inductive Observation.Status where
  | verified | contradicted | unverified
  deriving Repr, DecidableEq

/-- What an independent reader saw of the intended effect. -/
structure Observation where
  status : Observation.Status
  reason : Option String
  postconditionId : Option String
  verifier : Option String
  independent : Option Bool
  evidence : Term
  deriving Repr, DecidableEq

inductive ResolvedAs where
  | executed | notExecuted
  deriving Repr, DecidableEq

/-- `metadata.reconciliation`, written when a probe resolved the outcome. -/
structure Resolution where
  resolvedAs : ResolvedAs
  priorStatus : Status
  evidence : Term
  reconciledAt : Nat
  deriving Repr, DecidableEq

/-- `metadata.compensation`, written when the consequence was undone. -/
structure Compensation where
  receiptId : Identity .runtime
  commandId : Identity .command
  priorStatus : Status
  compensatedAt : Nat
  deriving Repr, DecidableEq

structure Metadata where
  outcome : Option Outcome := none
  candidateDigest : Option Term := none
  workOrderDigest : Option Term := none
  spg : Option SpgIdentity := none
  postcondition : Option Observation := none
  deduplicatedFromReceiptId : Option String := none
  deduplicatedFromCommandId : Option String := none
  reconciliation : Option Resolution := none
  compensation : Option Compensation := none
  deriving Repr, DecidableEq

/-- The stages at which a link can be written; `other` is any atom that is none of them. -/
inductive Stage where
  | prepared | final | postcondition | deduplicated | reconciled | compensated | unknownOutcome
  | other (name : String)
  deriving Repr, DecidableEq

/-- The names of the bound fields; `other` is any atom that is none of them. -/
inductive Field where
  | receiptIdentity | actor | semanticSubject | capabilityAction | inputDigest | planDigest
  | projectionDigest | authorityGrant | idempotencyIdentity | intendedEffect | resultIdentity
  | other (name : String)
  deriving Repr, DecidableEq

@[ext] structure Link where
  stage : Stage
  predecessor : Option String
  digest : String
  deriving Repr, DecidableEq

/-- The binding as it arrives with a receipt: nothing about it is taken for granted. -/
structure Binding where
  version : Nat
  algorithm : String
  keyed : Bool
  keyId : Option String
  fields : List (Field × String)
  links : List Link
  deriving Repr, DecidableEq

end Receipt

open Receipt in
structure Receipt where
  receiptId : Identity .runtime
  commandId : Identity .command
  executionId : Identity .execution
  taskId : Option (Identity .task)
  agentId : Identity .agent
  principalId : Identity .principal
  capabilityId : String
  semanticSubject : Option SemanticSubject
  fingerprint : String
  consequence : Consequence
  status : Status
  standing : Standing
  reply : Reply
  recordedAt : Nat
  actuationId : Identity .actuation
  idempotencyKey : Identity .idempotency
  actor : Identity .principal
  authorityGrant : Option AuthorityGrant
  intendedEffect : TermMap
  inputDigest : String
  planDigest : Option Term
  projectionDigest : Option String
  logicalClock : Nat
  terminalStatus : Option TerminalStatus
  evidenceClass : Term
  binding : Option Binding := none
  reconciliation : Progress
  replayed : Bool := false
  metadata : Metadata
  deriving Repr, DecidableEq

end AshA2A
