import AshA2A.ReceiptStore.Client

/-! Draining the journal into the primary store. -/

namespace AshA2A.ReceiptOutbox

open Concurrency ReceiptStore

inductive DrainReply where
  | committed | alreadyPresent | pending
  deriving Repr, DecidableEq

/-- A finalized entry replaces its own anchor that an earlier drain has committed. -/
def supersedes (entry stored : Receipt) : Bool :=
  entry.receiptId = stored.receiptId ∧ stored.status = .pending ∧ entry.status ≠ .pending

/-- A pending anchor stays as it is: no outcome has been observed for it. -/
def markReconciled (host : Host) (receipt : Receipt) : Bus Receipt :=
  if receipt.status = .pending then pure receipt
  else do
    let stamp ← Bus.stamp
    pure (receipt.reconcile host
      (.map (.cons (.tuple (.cons (.atom "source") (.cons (.atom "receipt_outbox") .empty))) .empty))
      stamp.now)

def removeAnd (host : Host) (reply : DrainReply) (receipt : Receipt) : Bus DrainReply := do
  let _ ← Bus.file (.remove (legacyPath receipt))
  match ← Bus.file (.remove (entryPath host receipt)) with
  | .ok () | .error .enoent => pure reply
  | .error .other => pure .pending

/-- The claim is made again under the receipt's own execution, so that its commit is not
fenced off. -/
def reClaimAndCommit (host : Host) (store : Store) (leaseMs : Nat) (receipt : Receipt) :
    Bus DrainReply := do
  let stamp ← Bus.stamp
  let command : Command := {
    commandId := receipt.commandId
    agentId := receipt.agentId
    principalId := receipt.principalId
    capabilityId := receipt.capabilityId
    input := .map .empty
    submittedAt := stamp.now
    fingerprint := receipt.fingerprint }
  match ← store.claim command ⟨leaseMs, some receipt.executionId⟩ with
  | some (.replay _) => removeAnd host .alreadyPresent receipt
  | some (.execute _) => do
    match ← store.commit receipt with
    | some .ok => removeAnd host .committed receipt
    | _ => pure .pending
  | _ => pure .pending

def commitOrReclaim (host : Host) (store : Store) (leaseMs : Nat) (entry : Receipt) :
    Bus DrainReply := do
  let receipt ← markReconciled host entry
  match ← store.commit receipt with
  | some .ok => removeAnd host .committed receipt
  | some .unclaimedCommand => reClaimAndCommit host store leaseMs receipt
  | _ => pure .pending

def reconcileEntry (host : Host) (store : Store) (leaseMs : Nat) (receipt : Receipt) :
    Bus DrainReply := do
  match ← store.fetch receipt.commandId with
  | some (some stored) =>
    if supersedes receipt stored then commitOrReclaim host store leaseMs receipt
    else removeAnd host .alreadyPresent receipt
  | _ => commitOrReclaim host store leaseMs receipt

/-- How many entries were committed, and how many stay. -/
structure Drained where
  committed : Nat
  remaining : Nat
  deriving Repr, DecidableEq

def Drained.add (drained : Drained) : DrainReply → Drained
  | .committed => { drained with committed := drained.committed + 1 }
  | .alreadyPresent => drained
  | .pending => { drained with remaining := drained.remaining + 1 }

def reconcileNames (host : Host) (store : Store) (leaseMs : Nat) : List Name → Drained → Bus Drained
  | [], drained => pure drained
  | name :: names, drained => do
    match ← decodeEntry host name with
    | .error _ => reconcileNames host store leaseMs names (drained.add .pending)
    | .ok receipt => do
      let reply ← reconcileEntry host store leaseMs receipt
      reconcileNames host store leaseMs names (drained.add reply)

def reconcile (host : Host) (store : Store) (leaseMs : Nat) : Bus Drained := do
  let names ← entryNames
  reconcileNames host store leaseMs names ⟨0, 0⟩

variable {host : Host} {store : Store} {leaseMs : Nat} {receipt : Receipt}

theorem removeAnd_uses {reply : DrainReply} : (removeAnd host reply receipt).Uses Op.ofStore := by
  apply (uses_file _).bind
  intro _
  apply (uses_file _).bind
  rintro ((_ | _) | _) <;> exact Program.uses_pure _

theorem reClaimAndCommit_uses : (reClaimAndCommit host store leaseMs receipt).Uses Op.ofStore := by
  apply uses_stamp.bind
  intro stamp
  apply (store.claim_uses _ _).bind
  rintro (_ | _ | _ | _ | _)
  case some.replay => exact removeAnd_uses
  case some.execute =>
    apply (store.commit_uses receipt).bind
    rintro (_ | _ | _ | _)
    case some.ok => exact removeAnd_uses
    all_goals exact Program.uses_pure _
  all_goals exact Program.uses_pure _

theorem commitOrReclaim_uses : (commitOrReclaim host store leaseMs receipt).Uses Op.ofStore := by
  have marked : (markReconciled host receipt).Uses Op.ofStore := by
    unfold markReconciled
    split
    · exact Program.uses_pure _
    · exact uses_stamp.bind fun _ => Program.uses_pure _
  apply marked.bind
  intro receipt
  apply (store.commit_uses receipt).bind
  rintro (_ | _ | _ | _)
  case some.ok => exact removeAnd_uses
  case some.unclaimedCommand => exact reClaimAndCommit_uses
  all_goals exact Program.uses_pure _

theorem reconcileEntry_uses : (reconcileEntry host store leaseMs receipt).Uses Op.ofStore := by
  apply (store.fetch_uses receipt.commandId).bind
  rintro (_ | _ | stored)
  case some.some =>
    dsimp only
    split
    · exact commitOrReclaim_uses
    · exact removeAnd_uses
  all_goals exact commitOrReclaim_uses

theorem reconcileNames_uses (names : List Name) (drained : Drained) :
    (reconcileNames host store leaseMs names drained).Uses Op.ofStore := by
  induction names generalizing drained with
  | nil => exact Program.uses_pure _
  | cons name names ih =>
    apply (decodeEntry_uses host name).bind
    rintro (error | receipt)
    · exact ih _
    · exact reconcileEntry_uses.bind fun _ => ih _

theorem reconcile_uses : (reconcile host store leaseMs).Uses Op.ofStore :=
  entryNames_uses.bind fun names => reconcileNames_uses names _

end AshA2A.ReceiptOutbox
