import AshA2A.Crypto
import AshA2A.Receipt.Binding

/-! The identity of an effect, how receipts come about and how they change. -/

namespace AshA2A

structure Actuation where
  actuationId : Identity .actuation
  idempotencyKey : Identity .idempotency
  effectDigest : String
  inputDigest : String
  externalToken : Bool
  deriving Repr, DecidableEq

namespace Actuation

/-- Only a non-empty binary is a token. -/
def binary : Term → Option String
  | .binary text => if text = "" then none else some text
  | _ => none

def token (map : TermMap) (name : String) : Option String :=
  (map.get? (.atom name)).bind binary <|> (map.get? (.binary name)).bind binary

def externalToken? (command : Command) (idempotencyKey : Option String) : Option String :=
  idempotencyKey <|> token command.metadata "idempotency_key" <|>
    command.authority.bind fun authority => token authority.constraints "external_idempotency_token"

/-- The command id and the agent id are deliberately absent from the effect. -/
def identity (crypto : Crypto) (command : Command) (idempotencyKey : Option String := none) :
    Actuation :=
  let inputDigest := crypto.digest (.term command.input)
  let external := externalToken? command idempotencyKey
  let effectDigest := crypto.digest
    (.effect command.capabilityId command.principalId.external command.semanticSubject inputDigest external)
  { actuationId := ⟨effectDigest⟩
    idempotencyKey := ⟨external.getD effectDigest⟩
    effectDigest := effectDigest
    inputDigest := inputDigest
    externalToken := external.isSome }

end Actuation

/-! ## Receipts -/

/-- What the host is configured with, and what it computes digests with. -/
structure Host where
  crypto : Crypto
  key : Option Key
  evidenceClass : Term
  outboxKey : Option Key := none

/-- What the runtime hands out: a fresh identifier, the wall clock, and an integer that
grows with every call on the node. -/
structure Stamp where
  uuid : String
  now : Nat
  clock : Nat
  deriving Repr, DecidableEq

open Receipt

/-- Codes of refusals raised before the consequence boundary. -/
def preDoRefusalCodes : List Code :=
  [.receiptAnchorUnavailable, .killSwitchTripped, .authorityRequired, .authorityMismatch,
    .consequenceUnclassified, .capabilityReleaseRefused, .capabilityNotFound, .actionNotFound,
    .commandConflict, .actuationConflict, .actuationInFlight, .actuationStoreUnavailable]

namespace Reply

def terminalStatus : Reply → TerminalStatus
  | .error fault =>
    match fault.code with
    | some code => if code ∈ preDoRefusalCodes then .refused else .failed
    | none => .failed
  | .reply _ | .inputRequired _ | .stream _ => .executed
  | .other _ => .unknownOutcome

def status : Reply → Status
  | .reply _ => .completed
  | .inputRequired _ => .inputRequired
  | .stream _ => .streamOpened
  | .error _ => .failed
  | .other _ => .unknown

def summarize : Reply → Reply
  | .stream _ => .stream (.atom "enumerable")
  | observed => observed

theorem status_ne_pending (reply : Reply) : reply.status ≠ .pending := by
  cases reply <;> simp [status]

end Reply

def Consequence.term : Consequence → Term
  | .observe => .atom "observe"
  | .change => .atom "change"
  | .externalDo => .atom "external_do"
  | .unknown => .atom "unknown"

/-- A receipt of which no outcome has been observed. -/
abbrev Anchor := { receipt : Receipt // receipt.status = .pending }

namespace Receipt

structure Opts where
  actuation : Option Actuation := none
  planDigest : Option Term := none
  evidenceClass : Option Term := none
  intendedEffect : TermMap := []
  target : Term := .nil
  chainPredecessor : Option String := none

def authorityGrantOf (crypto : Crypto) (authority : Authority) : AuthorityGrant where
  tokenId := authority.tokenId.external
  subject := authority.subject.external
  capabilityId := authority.capabilityId
  source := authority.source
  issuedAt := authority.issuedAt
  expiresAt := authority.expiresAt
  constraints := authority.constraints
  evidenceDigest := crypto.digest (.term authority.evidence)

def preparedMetadata (command : Command) : Metadata where
  outcome := some .pending
  candidateDigest := command.candidateDigest
  workOrderDigest := command.workOrderDigest
  spg := command.spgIdentity

def intendedEffectOf (command : Command) (consequence : Consequence) (opts : Opts) : TermMap :=
  TermMap.merge
    [(.atom "capability_id", .binary command.capabilityId), (.atom "consequence", consequence.term),
      (.atom "target", opts.target)]
    opts.intendedEffect

def planDigestOf (command : Command) (opts : Opts) : Option Term :=
  opts.planDigest.bind Term.truthy <|>
    command.metadata.first [.atom "plan_digest", .binary "plan_digest"]

def reconciliationState : Consequence → Progress.State
  | .change | .externalDo => .pending
  | _ => .notRequired

/-- The receipt anchored before the consequence boundary. -/
def pending (host : Host) (command : Command) (executionId : Identity .execution)
    (consequence : Consequence) (opts : Opts) (stamp : Stamp) : Anchor :=
  let actuation := opts.actuation.getD (Actuation.identity host.crypto command)
  let receipt : Receipt := {
    receiptId := ⟨stamp.uuid⟩
    commandId := command.commandId
    executionId := executionId
    taskId := command.taskId
    agentId := command.agentId
    principalId := command.principalId
    capabilityId := command.capabilityId
    semanticSubject := command.semanticSubject
    fingerprint := command.fingerprint
    consequence := consequence
    status := .pending
    standing := .observed
    reply := .nil
    recordedAt := stamp.now
    actuationId := actuation.actuationId
    idempotencyKey := actuation.idempotencyKey
    actor := command.principalId
    authorityGrant := command.authority.map (authorityGrantOf host.crypto)
    intendedEffect := intendedEffectOf command consequence opts
    inputDigest := actuation.inputDigest
    planDigest := planDigestOf command opts
    projectionDigest := command.semanticSubject.map (·.projectionDigest)
    logicalClock := stamp.clock
    terminalStatus := none
    evidenceClass := opts.evidenceClass.getD host.evidenceClass
    reconciliation := ⟨reconciliationState consequence, 0, none, none, none, none⟩
    metadata := preparedMetadata command }
  ⟨bind host.crypto host.key opts.chainPredecessor receipt, rfl⟩

/-- Only a pending receipt can be finalized: the type of `anchor` is the source's guard. -/
def finalize (host : Host) (anchor : Anchor) (reply : Reply) (stamp : Stamp) : Receipt :=
  transition host.crypto host.key anchor.1
    { anchor.1 with
      status := reply.status
      terminalStatus := some reply.terminalStatus
      reply := reply.summarize
      recordedAt := stamp.now
      logicalClock := stamp.clock
      metadata := { anchor.1.metadata with outcome := some .observed } }
    .final

def fromReply (host : Host) (command : Command) (executionId : Identity .execution)
    (consequence : Consequence) (reply : Reply) (opts : Opts) (stamp later : Stamp) : Receipt :=
  finalize host (pending host command executionId consequence opts stamp) reply later

def replay (receipt : Receipt) : Receipt := { receipt with replayed := true }

/-- A drained receipt keeps its status: where evidence lives does not change what it says. -/
def reconcile (host : Host) (receipt : Receipt) (detail : Term) (now : Nat) : Receipt :=
  transition host.crypto host.key receipt
    { receipt with
      terminalStatus := some .reconciled
      reconciliation := { receipt.reconciliation with
        state := .reconciled
        attempts := receipt.reconciliation.attempts + 1
        reconciledAt := some now
        detail := some detail } }
    .reconciled

def compensate (host : Host) (receipt : Receipt) (detail : Term) (now : Nat) : Receipt :=
  transition host.crypto host.key receipt
    { receipt with
      terminalStatus := some .compensated
      reconciliation := { receipt.reconciliation with
        state := .compensated
        compensatedAt := some now
        detail := some detail } }
    .compensated

/-- The status stays pending: neither execution nor its absence is asserted. -/
def markUnknownOutcome (host : Host) (receipt : Receipt) (reason : Option Code) : Receipt :=
  transition host.crypto host.key receipt
    { receipt with
      terminalStatus := some .unknownOutcome
      reconciliation := { receipt.reconciliation with
        state := .unknownOutcome
        reason := reason } }
    .unknownOutcome

end Receipt

end AshA2A
