import AshA2A.CommandBus.Gate
import AshA2A.ReceiptOutbox.Drain

/-! One run of a command: admission, the two claims, the anchor, the gate, the one
dispatch, and the commit of what was observed. -/

namespace AshA2A.CommandBus

open Concurrency ReceiptStore

inductive DedupMode where
  | strict | declared | off
  deriving Repr, DecidableEq

/-- The options of a run that the code below reads. -/
structure Opts where
  leaseMs : Nat
  actuationDedup : DedupMode := .strict
  idempotencyKey : Option String := none
  planDigest : Option Term := none
  evidenceClass : Option Term := none
  intendedEffect : TermMap := []
  retryDelaysMs : List Nat := [50, 150]

inductive CommitFailure where
  | staleExecution | unclaimedCommand | receiptStoreUnavailable
  deriving Repr, DecidableEq

abbrev CommitResult := Except CommitFailure Unit

/-- The error map of a run. -/
structure Failure where
  fault : Fault
  receipt : Option Receipt := none
  primaryReceiptCommit : Option CommitResult := none
  anchorReason : Option ReceiptOutbox.FileError := none
  originalReason : Option CommitFailure := none
  outboxReason : Option ReceiptOutbox.FileError := none
  postcondition : Option Receipt.Observation := none
  outcomeKnown : Bool := true
  outcomeDurable : Bool := true

abbrev Result := Except Failure Receipt

def refuse (fault : Fault) : Result := .error { fault := fault }

def fault (code : String) (detail : String) : Fault := ⟨some (.other code), .binary detail, .nil⟩

def dedupCompat : DedupMode → TermMap
  | .declared => [(.atom "actuation_dedup_compat", .atom "declared_legacy")]
  | .off => [(.atom "actuation_dedup_compat", .atom "off_legacy")]
  | .strict => []

def receiptOpts (actuation : Actuation) (target : Target) (opts : Opts) : Receipt.Opts where
  actuation := some actuation
  planDigest := opts.planDigest <|> target.planDigest
  evidenceClass := opts.evidenceClass
  intendedEffect :=
    ((TermMap.merge [] opts.intendedEffect).merge target.releaseAttributes).merge
      (dedupCompat opts.actuationDedup)

/-! ## The commit of a receipt -/

def commitOnce (store : Store) (receipt : Receipt) : Bus CommitResult := do
  Bus.mark (.committing receipt)
  match ← store.commit receipt with
  | some .ok => pure (.ok ())
  | some .staleExecution => pure (.error .staleExecution)
  | some .unclaimedCommand => pure (.error .unclaimedCommand)
  | none => pure (.error .receiptStoreUnavailable)

def retryCommit (store : Store) (receipt : Receipt) : List Nat → CommitFailure → Bus CommitResult
  | [], last => pure (.error last)
  | delay :: rest, _ => do
    Bus.sleep delay
    match ← commitOnce store receipt with
    | .ok () => pure (.ok ())
    | .error reason => retryCommit store receipt rest reason

/-- An execution that was fenced out does not try again. -/
def commitWithRetries (store : Store) (receipt : Receipt) (delays : List Nat) : Bus CommitResult := do
  match ← commitOnce store receipt with
  | .ok () => pure (.ok ())
  | .error .staleExecution => pure (.error .staleExecution)
  | .error reason => retryCommit store receipt delays reason

def outboxAfterConsequence (host : Host) (receipt : Receipt) (reason : CommitFailure) : Bus Result := do
  match ← ReceiptOutbox.append host receipt with
  | .ok () => pure (.error {
      fault := fault "receipt_commit_pending"
        "consequence observed; primary receipt commit failed and finalized receipt is outboxed"
      originalReason := some reason
      receipt := some receipt })
  | .error outboxReason => do
    if ← ReceiptOutbox.anchored host receipt then
      pure (.error {
        fault := fault "receipt_commit_pending"
          "consequence observed; final receipt persistence failed but pre-dispatch pending receipt anchor remains"
        originalReason := some reason
        outboxReason := some outboxReason
        outcomeDurable := false
        receipt := some receipt })
    else
      pure (.error {
        fault := fault "receipt_commit_failed"
          "receipt persistence failed and no receipt anchor remains; consequence outcome is not durably recorded"
        originalReason := some reason
        outboxReason := some outboxReason
        receipt := some receipt })

def commitReceipt (host : Host) (store : Store) (receipt : Receipt) (opts : Opts) : Bus Result := do
  match ← commitWithRetries store receipt opts.retryDelaysMs with
  | .ok () => do
    ReceiptOutbox.remove host receipt
    pure (.ok receipt)
  | .error reason => outboxAfterConsequence host receipt reason

/-! ## The claim of the effect -/

def enforceActuation (actuation : Actuation) (opts : Opts) : Bool :=
  match opts.actuationDedup with
  | .declared => actuation.externalToken
  | .off => false
  | .strict => true

inductive ActuationAnswer where
  | proceed
  | duplicate (prior : Receipt)
  | refused (code : Code)

def claimActuation (store : Store) (actuation : Actuation) (command : Command)
    (consequence : Consequence) (opts : Opts) : Bus ActuationAnswer :=
  if consequence.bearing && enforceActuation actuation opts then do
    let reply ← store.claimActuation actuation command opts.leaseMs
    Bus.mark (.responded reply)
    match reply with
    | some .proceed => pure .proceed
    | some (.duplicate prior) => pure (.duplicate prior)
    | some .inFlight => pure (.refused .actuationInFlight)
    | some .conflict => pure (.refused .actuationConflict)
    | none => pure (.refused .actuationStoreUnavailable)
  else pure .proceed

def commitActuationWithRetries (store : Store) (actuation : Actuation) (receipt : Receipt) :
    List Nat → Bus Unit
  | [] => do
    let _ ← store.commitActuation actuation receipt
    pure ()
  | delay :: rest => do
    match ← store.commitActuation actuation receipt with
    | some .ok => pure ()
    | _ => do
      Bus.sleep delay
      commitActuationWithRetries store actuation receipt rest

def commitActuation (store : Store) (actuation : Actuation) (receipt : Receipt)
    (consequence : Consequence) (opts : Opts) : Bus Unit :=
  if consequence.bearing && enforceActuation actuation opts then
    commitActuationWithRetries store actuation receipt opts.retryDelaysMs
  else pure ()

def releaseActuation (store : Store) (actuation : Actuation) (consequence : Consequence)
    (opts : Opts) : Bus Unit :=
  if consequence.bearing && enforceActuation actuation opts then do
    let _ ← store.releaseActuation actuation
    pure ()
  else pure ()

/-! ## The run after its claim -/

/-- The command under the execution that holds its claim, and what the run needs besides. -/
structure Claimed where
  command : Command
  executionId : Identity .execution
  target : Target
  actuation : Actuation
  opts : Opts

namespace Claimed

abbrev consequence (claimed : Claimed) : Consequence := claimed.target.consequence

def receiptOpts (claimed : Claimed) : Receipt.Opts :=
  CommandBus.receiptOpts claimed.actuation claimed.target claimed.opts

end Claimed

variable (host : Host) (store : Store) (claimed : Claimed)

def fromReply (reply : Reply) : Bus Receipt := do
  let stamp ← Bus.stamp
  let later ← Bus.stamp
  pure (Receipt.fromReply host claimed.command claimed.executionId claimed.consequence reply
    claimed.receiptOpts stamp later)

/-- The observed result closes the anchor under its own identity; without an anchor the
receipt is made at once. -/
def finalOrReply (reply : Reply) : Option Anchor → Bus Receipt
  | some anchor => do
    let stamp ← Bus.stamp
    pure (Receipt.finalize host anchor reply stamp)
  | none => fromReply host claimed reply

def prepareReceiptAnchor : Bus (Except ReceiptOutbox.FileError (Option Anchor)) :=
  if claimed.consequence.bearing then do
    let stamp ← Bus.stamp
    let anchor := Receipt.pending host claimed.command claimed.executionId claimed.consequence
      claimed.receiptOpts stamp
    match ← ReceiptOutbox.append host anchor.1 with
    | .ok () => pure (.ok (some anchor))
    | .error reason => pure (.error reason)
  else pure (.ok none)

def confirmExecution : Option Anchor → Bus (Option Code)
  | none => pure none
  | some _ => do
    match ← store.confirmClaim claimed.command.commandId claimed.executionId with
    | some .ok => pure none
    | some .staleExecution => pure (some (.other "stale_execution"))
    | none => pure (some (.other "receipt_store_unavailable"))

def removeAnchor : Option Anchor → Bus Unit
  | some anchor => ReceiptOutbox.remove host anchor.1
  | none => pure ()

/-- Whether a consequence happened is unknown: the anchor stays, and so does the claim of
the effect. -/
def closeTimedOut (anchor : Anchor) (fault : Fault) : Bus Result := do
  let receipt := markStanding store.durable (Receipt.markUnknownOutcome host anchor.1 fault.code)
  let commit ← commitWithRetries store receipt claimed.opts.retryDelaysMs
  pure (.error {
    fault := fault
    receipt := some receipt
    primaryReceiptCommit := some commit
    outcomeKnown := false })

def consequenceResult (observation : Option Receipt.Observation) : Result → Result
  | .ok receipt =>
    if observation.map (·.status) = some .contradicted then
      .error {
        fault := fault "postcondition_contradicted"
          ("independent post-state observation contradicted the actuator's success report; " ++
            "the contradiction is receipted and has no completed standing")
        postcondition := observation
        receipt := some receipt }
    else .ok receipt
  | .error failure => .error failure

def closeObserved (anchor : Option Anchor) (reply : Reply) : Bus Result := do
  let (postcondition, verifier) ← Program.ask (Op.observe claimed.command reply)
  let observation := Postcondition.evaluate postcondition claimed.consequence reply verifier
  let observed ← finalOrReply host claimed reply anchor
  let receipt := markStanding store.durable (Postcondition.applyToReceipt host observed observation)
  commitActuation store claimed.actuation receipt claimed.consequence claimed.opts
  let result ← commitReceipt host store receipt claimed.opts
  pure (consequenceResult observation result)

def executeAnchored (anchor : Option Anchor) : Bus Result := do
  let reply ← Program.ask
    (Op.dispatch claimed.command claimed.executionId (anchor.map Subtype.val))
  match reply, anchor with
  | .error ⟨some .dispatchTimeout, detail, reason⟩, some anchor =>
    closeTimedOut host store claimed anchor ⟨some .dispatchTimeout, detail, reason⟩
  | .error ⟨some .dispatchLost, detail, reason⟩, some anchor =>
    closeTimedOut host store claimed anchor ⟨some .dispatchLost, detail, reason⟩
  | reply, anchor => closeObserved host store claimed anchor reply

def refuseBeforeDo (anchor : Option Anchor) (fault : Fault) : Bus Result := do
  removeAnchor host anchor
  releaseActuation store claimed.actuation claimed.consequence claimed.opts
  let refused ← finalOrReply host claimed (.error fault) anchor
  let receipt := markStanding store.durable refused
  let _ ← commitWithRetries store receipt claimed.opts.retryDelaysMs
  pure (.error { fault := fault, receipt := some receipt })

/-- Nothing crossed the consequence boundary, and nothing is committed: the claim belongs
to somebody else, or it could not be asked for. -/
def refuseUnconfirmed (anchor : Option Anchor) (code : Code) : Bus Result := do
  removeAnchor host anchor
  releaseActuation store claimed.actuation claimed.consequence claimed.opts
  pure (refuse ⟨some code, .binary
    ("this execution no longer holds (or could not confirm) the command claim; " ++
      "refused before DO"), .nil⟩)

def unanchoredFault (detail : String) : Fault :=
  ⟨some .receiptAnchorUnavailable, .binary detail, .nil⟩

def refuseUnanchored (reason : ReceiptOutbox.FileError) : Bus Result := do
  releaseActuation store claimed.actuation claimed.consequence claimed.opts
  let refused ← fromReply host claimed (.error (unanchoredFault
    "consequence dispatch refused because receipt anchor could not be persisted"))
  let receipt := markStanding store.durable refused
  let commit ← commitWithRetries store receipt claimed.opts.retryDelaysMs
  pure (.error {
    fault := unanchoredFault
      "consequence dispatch refused before DO because receipt anchor is unavailable"
    anchorReason := some reason
    receipt := some receipt
    primaryReceiptCommit := some commit })

/-- The fence, then the gate, then the one dispatch. -/
def executePrepared (anchor : Option Anchor) : Bus Result := do
  match ← confirmExecution store claimed anchor with
  | some code => refuseUnconfirmed host store claimed anchor code
  | none => do
    let answers ← Program.ask (Op.consult claimed.command)
    match preDoGate claimed.command claimed.consequence answers with
    | some fault => refuseBeforeDo host store claimed anchor fault
    | none => executeAnchored host store claimed anchor

def dispatchActuationClaimed : Bus Result := do
  match ← prepareReceiptAnchor host claimed with
  | .error reason => refuseUnanchored host store claimed reason
  | .ok anchor => executePrepared host store claimed anchor

def closeClaimAsDuplicate (prior : Receipt) : Bus Result := do
  let stamp ← Bus.stamp
  let later ← Bus.stamp
  let receipt := duplicateReceipt host store.durable claimed.command claimed.executionId
    claimed.consequence claimed.receiptOpts prior stamp later
  let _ ← commitWithRetries store receipt claimed.opts.retryDelaysMs
  pure (.ok receipt)

def actuationRefusal (code : Code) : Fault :=
  if code = .actuationStoreUnavailable then
    ⟨some code, .binary "actuation claim store is unavailable; refusing consequence before DO", .nil⟩
  else
    ⟨some code, .binary ("actuation identity is already claimed for this effect; " ++
      "refusing to repeat the consequence"), .nil⟩

def refuseActuation (code : Code) : Bus Result := do
  let refused ← fromReply host claimed (.error (actuationRefusal code))
  let receipt := markStanding store.durable refused
  let _ ← commitWithRetries store receipt claimed.opts.retryDelaysMs
  pure (.error { fault := actuationRefusal code, receipt := some receipt })

def executeActuation : ActuationAnswer → Bus Result
  | .proceed => dispatchActuationClaimed host store claimed
  | .duplicate prior => closeClaimAsDuplicate host store claimed prior
  | .refused code => refuseActuation host store claimed code

def executeClaimed (command : Command) (executionId : Identity .execution) (target : Target)
    (opts : Opts) : Bus Result := do
  let actuation := Actuation.identity host.crypto command opts.idempotencyKey
  let answer ← claimActuation store actuation command target.consequence opts
  executeActuation host store ⟨command, executionId, target, actuation, opts⟩ answer

/-! ## The run -/

def maybeReconcileOutbox (leaseMs : Nat) : Bus Unit := do
  let entries ← ReceiptOutbox.count
  if 0 < entries then do
    let _ ← ReceiptOutbox.reconcile host store leaseMs
    pure ()
  else pure ()

def executeAdmitted (command : Command) (target : Target) (opts : Opts) : Bus Result := do
  match ← store.claim command ⟨opts.leaseMs, none⟩ with
  | some (.replay receipt) => pure (.ok receipt)
  | some (.execute executionId) => executeClaimed host store command executionId target opts
  | some .inFlight => pure (refuse (refusal (.other "in_flight")))
  | some .commandConflict => pure (refuse (refusal .commandConflict))
  | none => pure (refuse (refusal (.other "receipt_store_unavailable")))

def run (command : Command) (opts : Opts) : Bus Result := do
  maybeReconcileOutbox host store opts.leaseMs
  match ← Program.ask (Op.target command) with
  | .error fault => pure (refuse fault)
  | .ok target =>
    match admission command target.authorityAdmits target.consequence with
    | some fault => pure (refuse fault)
    | none => do
      match ← Program.ask (Op.entryGates command) with
      | some fault => pure (refuse fault)
      | none => executeAdmitted host store command target opts

end AshA2A.CommandBus
