import AshA2A.Receipt

/-! What a receipt store keeps and what it answers. -/

namespace AshA2A.ReceiptStore

/-- The claim of one command id. -/
structure Claim where
  fingerprint : String
  executionId : Identity .execution
  receipt : Option Receipt := none
  claimedAt : Option Nat
  deriving Repr, DecidableEq

/-- The claim of one effect, by the command that is to perform it. -/
structure ActuationClaim where
  idempotencyKey : Identity .idempotency
  commandId : Identity .command
  receipt : Option Receipt := none
  deriving Repr, DecidableEq

structure ClaimOpts where
  leaseMs : Nat
  /-- Only the outbox names the execution under which a lost claim is made again. -/
  executionId : Option (Identity .execution) := none
  deriving Repr, DecidableEq

inductive ClaimReply where
  | execute (executionId : Identity .execution)
  | replay (receipt : Receipt)
  | inFlight
  | commandConflict
  deriving Repr, DecidableEq

inductive CommitReply where
  | ok | staleExecution | unclaimedCommand
  deriving Repr, DecidableEq

inductive ConfirmReply where
  | ok | staleExecution
  deriving Repr, DecidableEq

inductive ActuationReply where
  | proceed
  | duplicate (receipt : Receipt)
  | inFlight
  | conflict
  deriving Repr, DecidableEq

inductive ActuationCommitReply where
  | ok | unclaimedActuation | conflict
  deriving Repr, DecidableEq

/-- A claim made before the field existed counts as elapsed. -/
def leaseElapsed (now leaseMs : Nat) : Option Nat → Bool
  | none => true
  | some claimedAt => claimedAt + leaseMs ≤ now

namespace ActuationClaimLease

/-- What the primary claim of the claimant says about its effect. -/
inductive Verdict where
  | reclaim
  | duplicate (receipt : Receipt)
  | inFlight
  /-- The claim is in flight: whether it was abandoned is up to the lease and the anchor. -/
  | lease (claimedAt : Option Nat)
  deriving Repr, DecidableEq

def decide : Option Claim → Verdict
  | none => .inFlight
  | some claim =>
    match claim.receipt with
    | none => .lease claim.claimedAt
    | some receipt =>
      if receipt.status = .pending then .inFlight
      else if receipt.terminalStatus = some .refused then .reclaim
      else .duplicate receipt

end ActuationClaimLease

end AshA2A.ReceiptStore
