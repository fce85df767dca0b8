import AshA2A.ReceiptOutbox

/-! The store as the command bus sees it, and the in-memory store behind it. -/

namespace AshA2A

open Concurrency ReceiptStore

/-- The behaviour of a receipt store. `none` stands for a call that exits or raises. A store
keeps to its own backing: none of its calls reaches a gate or a dispatcher. -/
structure Store where
  claim : Command → ClaimOpts → Bus (Option ClaimReply)
  commit : Receipt → Bus (Option CommitReply)
  fetch : Identity .command → Bus (Option (Option Receipt))
  confirmClaim : Identity .command → Identity .execution → Bus (Option ConfirmReply)
  claimActuation : Actuation → Command → Nat → Bus (Option ActuationReply)
  commitActuation : Actuation → Receipt → Bus (Option ActuationCommitReply)
  releaseActuation : Actuation → Bus (Option Unit)
  durable : Bool
  claim_uses : ∀ command opts, (claim command opts).Uses Op.ofStore
  commit_uses : ∀ receipt, (commit receipt).Uses Op.ofStore
  fetch_uses : ∀ commandId, (fetch commandId).Uses Op.ofStore
  confirmClaim_uses : ∀ commandId executionId, (confirmClaim commandId executionId).Uses Op.ofStore
  claimActuation_uses : ∀ actuation command leaseMs,
    (claimActuation actuation command leaseMs).Uses Op.ofStore
  commitActuation_uses : ∀ actuation receipt, (commitActuation actuation receipt).Uses Op.ofStore
  releaseActuation_uses : ∀ actuation, (releaseActuation actuation).Uses Op.ofStore

namespace ReceiptStore.Memory

def claimCall (host : Host) (command : Command) (opts : ClaimOpts) : Bus (Option ClaimReply) :=
  Bus.memory (.claim command opts) >>= fun
    | none => pure none
    | some (.done reply) => pure (some reply)
    | some (.checking commandId) => ReceiptOutbox.anchoredCommand host commandId >>= fun anchored =>
      Bus.memory (.claimChecked command opts anchored)

def claimActuationCall (host : Host) (actuation : Actuation) (command : Command) (leaseMs : Nat) :
    Bus (Option ActuationReply) :=
  Bus.memory (.claimActuation actuation command.commandId leaseMs) >>= fun
    | none => pure none
    | some (.done reply) => pure (some reply)
    | some (.checking claimant) => ReceiptOutbox.anchoredCommand host claimant >>= fun anchored =>
      Bus.memory (.claimActuationChecked actuation command.commandId anchored)

theorem claimCall_uses (host : Host) (command : Command) (opts : ClaimOpts) :
    (claimCall host command opts).Uses Op.ofStore := by
  apply (Program.uses_ask trivial).bind
  intro reply
  cases reply with
  | none => exact Program.uses_pure _
  | some progress =>
    cases progress with
    | done reply => exact Program.uses_pure _
    | checking commandId =>
      exact (ReceiptOutbox.anchoredCommand_uses host commandId).bind fun _ => Program.uses_ask trivial

theorem claimActuationCall_uses (host : Host) (actuation : Actuation) (command : Command)
    (leaseMs : Nat) : (claimActuationCall host actuation command leaseMs).Uses Op.ofStore := by
  apply (Program.uses_ask trivial).bind
  intro reply
  cases reply with
  | none => exact Program.uses_pure _
  | some progress =>
    cases progress with
    | done reply => exact Program.uses_pure _
    | checking claimant =>
      exact (ReceiptOutbox.anchoredCommand_uses host claimant).bind fun _ => Program.uses_ask trivial

end ReceiptStore.Memory

def memoryStore (host : Host) : Store where
  claim := Memory.claimCall host
  commit receipt := Bus.memory (.commit receipt)
  fetch commandId := Bus.memory (.fetch commandId)
  confirmClaim commandId executionId := Bus.memory (.confirmClaim commandId executionId)
  claimActuation := Memory.claimActuationCall host
  commitActuation actuation receipt := Bus.memory (.commitActuation actuation receipt)
  releaseActuation actuation := Bus.memory (.releaseActuation actuation)
  durable := false
  claim_uses := Memory.claimCall_uses host
  commit_uses _ := Program.uses_ask trivial
  fetch_uses _ := Program.uses_ask trivial
  confirmClaim_uses _ _ := Program.uses_ask trivial
  claimActuation_uses := Memory.claimActuationCall_uses host
  commitActuation_uses _ _ := Program.uses_ask trivial
  releaseActuation_uses _ := Program.uses_ask trivial

end AshA2A
