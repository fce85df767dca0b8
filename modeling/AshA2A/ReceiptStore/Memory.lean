import AshA2A.ReceiptStore
import Mathlib.Logic.Function.Basic

/-! The in-memory store: a server that handles one call after another. Retention is off, so
no entry is ever evicted. -/

namespace AshA2A.ReceiptStore

structure Memory where
  claims : Identity .command → Option Claim := fun _ => none
  actuations : Identity .actuation → Option ActuationClaim := fun _ => none

/-- What the server has done when a claim call returns, or why it still has to look at the
journal directory first. -/
inductive Handled (Reply : Type) where
  | answered (reply : Reply) (state : Memory)
  | checking (commandId : Identity .command)

namespace Memory

def putClaim (state : Memory) (commandId : Identity .command) (claim : Claim) : Memory :=
  { state with claims := Function.update state.claims commandId (some claim) }

def putActuation (state : Memory) (actuationId : Identity .actuation) (claim : Option ActuationClaim) :
    Memory :=
  { state with actuations := Function.update state.actuations actuationId claim }

/-- `fresh` is the identifier the call generates when it is not given one. -/
def freshClaim (state : Memory) (command : Command) (opts : ClaimOpts) (fresh : Identity .execution)
    (now : Nat) : ClaimReply × Memory :=
  let executionId := opts.executionId.getD fresh
  (.execute executionId,
    state.putClaim command.commandId ⟨command.fingerprint, executionId, none, some now⟩)

def claim (state : Memory) (command : Command) (opts : ClaimOpts) (fresh : Identity .execution)
    (now : Nat) : Handled ClaimReply :=
  match state.claims command.commandId with
  | none =>
    let (reply, state) := state.freshClaim command opts fresh now
    .answered reply state
  | some entry =>
    if entry.fingerprint = command.fingerprint then
      match entry.receipt with
      | some receipt => .answered (.replay receipt.replay) state
      | none =>
        if leaseElapsed now opts.leaseMs entry.claimedAt then .checking command.commandId
        else .answered .inFlight state
    else .answered .commandConflict state

/-- The second half of `claim`, when the journal has been looked at. -/
def claimChecked (state : Memory) (command : Command) (opts : ClaimOpts) (anchored : Bool)
    (fresh : Identity .execution) (now : Nat) : ClaimReply × Memory :=
  if anchored then (.inFlight, state) else state.freshClaim command opts fresh now

def commit (state : Memory) (receipt : Receipt) : CommitReply × Memory :=
  match state.claims receipt.commandId with
  | some entry =>
    if entry.fingerprint = receipt.fingerprint then
      if entry.executionId = receipt.executionId then
        (.ok, state.putClaim receipt.commandId { entry with receipt := some receipt })
      else (.staleExecution, state)
    else (.unclaimedCommand, state)
  | none => (.unclaimedCommand, state)

def fetch (state : Memory) (commandId : Identity .command) : Option Receipt :=
  (state.claims commandId).bind (·.receipt)

def confirmClaim (state : Memory) (commandId : Identity .command) (executionId : Identity .execution) :
    ConfirmReply :=
  if (state.claims commandId).map (·.executionId) = some executionId then .ok else .staleExecution

def claimActuation (state : Memory) (actuation : Actuation) (commandId : Identity .command)
    (leaseMs now : Nat) : Handled ActuationReply :=
  match state.actuations actuation.actuationId with
  | none => .answered .proceed
      (state.putActuation actuation.actuationId (some ⟨actuation.idempotencyKey, commandId, none⟩))
  | some entry =>
    if entry.idempotencyKey = actuation.idempotencyKey then
      match entry.receipt with
      | some receipt => .answered (.duplicate receipt.replay) state
      | none =>
        match ActuationClaimLease.decide (state.claims entry.commandId) with
        | .reclaim => .answered .proceed
            (state.putActuation actuation.actuationId (some { entry with commandId := commandId }))
        | .duplicate receipt => .answered (.duplicate receipt.replay)
            (state.putActuation actuation.actuationId (some { entry with receipt := some receipt }))
        | .inFlight => .answered .inFlight state
        | .lease claimedAt =>
          if leaseElapsed now leaseMs claimedAt then .checking entry.commandId
          else .answered .inFlight state
    else .answered .conflict state

/-- The second half of `claimActuation`. The server has served nobody in between, so the
entry is the one whose claimant was looked up. -/
def claimActuationChecked (state : Memory) (actuation : Actuation) (commandId : Identity .command)
    (anchored : Bool) : ActuationReply × Memory :=
  if anchored then (.inFlight, state)
  else (.proceed, state.putActuation actuation.actuationId
    ((state.actuations actuation.actuationId).map fun entry => { entry with commandId := commandId }))

def commitActuation (state : Memory) (actuation : Actuation) (receipt : Receipt) :
    ActuationCommitReply × Memory :=
  match state.actuations actuation.actuationId with
  | none => (.unclaimedActuation, state)
  | some entry =>
    (.ok, state.putActuation actuation.actuationId (some { entry with receipt := some receipt }))

/-- Only a claim without a receipt is dropped; whose claim it is does not matter. -/
def releaseActuation (state : Memory) (actuation : Actuation) : Memory :=
  match state.actuations actuation.actuationId with
  | some ⟨_, _, none⟩ => state.putActuation actuation.actuationId none
  | _ => state

end Memory

/-- The messages of the server. A `checked` message is not sent by anybody: it is the
server resuming the call it has not answered yet. -/
inductive MemoryCall where
  | claim (command : Command) (opts : ClaimOpts)
  | claimChecked (command : Command) (opts : ClaimOpts) (anchored : Bool)
  | commit (receipt : Receipt)
  | fetch (commandId : Identity .command)
  | confirmClaim (commandId : Identity .command) (executionId : Identity .execution)
  | claimActuation (actuation : Actuation) (commandId : Identity .command) (leaseMs : Nat)
  | claimActuationChecked (actuation : Actuation) (commandId : Identity .command) (anchored : Bool)
  | commitActuation (actuation : Actuation) (receipt : Receipt)
  | releaseActuation (actuation : Actuation)

inductive Progress (Reply : Type) where
  | done (reply : Reply)
  | checking (commandId : Identity .command)
  deriving Repr, DecidableEq

abbrev MemoryCall.Reply : MemoryCall → Type
  | .claim _ _ => Progress ClaimReply
  | .claimChecked _ _ _ => ClaimReply
  | .commit _ => CommitReply
  | .fetch _ => Option Receipt
  | .confirmClaim _ _ => ConfirmReply
  | .claimActuation _ _ _ => Progress ActuationReply
  | .claimActuationChecked _ _ _ => ActuationReply
  | .commitActuation _ _ => ActuationCommitReply
  | .releaseActuation _ => Unit

/-- The server is in the middle of a call that it will resume. -/
def MemoryCall.resumes : MemoryCall → Bool
  | .claimChecked _ _ _ | .claimActuationChecked _ _ _ => true
  | _ => false

def Handled.progress {Reply : Type} (state : Memory) : Handled Reply → Progress Reply × Memory
  | .answered answer state => (.done answer, state)
  | .checking commandId => (.checking commandId, state)

def Memory.serve (state : Memory) (fresh : Identity .execution) (now : Nat) :
    (call : MemoryCall) → call.Reply × Memory
  | .claim command opts => (state.claim command opts fresh now).progress state
  | .claimChecked command opts anchored => state.claimChecked command opts anchored fresh now
  | .commit receipt => state.commit receipt
  | .fetch commandId => (state.fetch commandId, state)
  | .confirmClaim commandId executionId => (state.confirmClaim commandId executionId, state)
  | .claimActuation actuation commandId leaseMs =>
    (state.claimActuation actuation commandId leaseMs now).progress state
  | .claimActuationChecked actuation commandId anchored =>
    state.claimActuationChecked actuation commandId anchored
  | .commitActuation actuation receipt => state.commitActuation actuation receipt
  | .releaseActuation actuation => ((), state.releaseActuation actuation)

/-- The server goes on to look at the journal and serves nobody else until it has. -/
def MemoryCall.checks : (call : MemoryCall) → call.Reply → Bool
  | .claim _ _, .checking _ | .claimActuation _ _ _, .checking _ => true
  | _, _ => false

/-! ## A command that is sent again -/

/-- What one call sees outside the store: the clock of the lease, the journal directory, and the
clock again where a claim is stamped. -/
structure Sight where
  now : Nat
  anchored : Bool
  stamp : Nat
  deriving Repr, DecidableEq

/-- The lease has elapsed and the journal has no anchor for the command. -/
def ClaimLease.abandoned (claimedAt : Option Nat) (leaseMs : Nat) (sight : Sight) : Bool :=
  leaseElapsed sight.now leaseMs claimedAt && ! sight.anchored

namespace Memory

/-- `claim` as its caller sees it, the look at the journal included. -/
def claimSeen (state : Memory) (command : Command) (opts : ClaimOpts) (fresh : Identity .execution)
    (sight : Sight) : ClaimReply × Memory :=
  match state.claims command.commandId with
  | none => state.freshClaim command opts fresh sight.stamp
  | some _ =>
    match state.claim command opts fresh sight.now with
    | .answered reply after => (reply, after)
    | .checking _ => state.claimChecked command opts sight.anchored fresh sight.stamp

/-- `claim_actuation` as its caller sees it. -/
def claimActuationSeen (state : Memory) (actuation : Actuation) (commandId : Identity .command)
    (leaseMs : Nat) (sight : Sight) : ActuationReply × Memory :=
  match state.claimActuation actuation commandId leaseMs sight.now with
  | .answered reply after => (reply, after)
  | .checking _ => state.claimActuationChecked actuation commandId sight.anchored

/-- Both claims, the second one only by a command that is told to execute. -/
def resubmit (state : Memory) (command : Command) (actuation : Actuation) (opts : ClaimOpts)
    (fresh : Identity .execution) (claiming acting : Sight) : ClaimReply × Option ActuationReply × Memory :=
  match state.claimSeen command opts fresh claiming with
  | (.execute executionId, after) =>
    let (reply, after) := after.claimActuationSeen actuation command.commandId opts.leaseMs acting
    (.execute executionId, some reply, after)
  | (reply, after) => (reply, none, after)

/-- The command and its effect are both claimed, and neither has an outcome. -/
structure InFlight (state : Memory) (command : Command) (actuation : Actuation) (claimedAt : Option Nat) :
    Prop where
  primary : ∃ executionId,
    state.claims command.commandId = some ⟨command.fingerprint, executionId, none, claimedAt⟩
  effect : state.actuations actuation.actuationId = some ⟨actuation.idempotencyKey, command.commandId, none⟩

/-- What the server comes to by serving calls, in any order and at any time. -/
inductive Reachable : Memory → Prop where
  | started : Reachable {}
  | served {state : Memory} (before : Reachable state) (fresh : Identity .execution) (now : Nat)
      (call : MemoryCall) : Reachable (state.serve fresh now call).2

end Memory

end AshA2A.ReceiptStore
