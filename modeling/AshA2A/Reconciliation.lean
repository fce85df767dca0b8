import AshA2A.ReceiptOutbox.Drain
import AshA2A.Reconciliation.Evidence

/-! Reading the durable evidence for a command, and settling what it leaves open. -/

namespace AshA2A.Reconciliation

open Concurrency Receipt

/-- The journal is read after the primary store, entries before their number. -/
def readJournal (host : Host) (commandId : Identity .command) (primary : Option Receipt) :
    Bus Classification := do
  let readable ← ReceiptOutbox.entries host
  let count ← ReceiptOutbox.count
  pure (buildClassification commandId primary readable count)

/-- `none` when the primary store is unavailable. -/
def classify (host : Host) (store : Store) (commandId : Identity .command) :
    Bus (Option Classification) := do
  match ← store.fetch commandId with
  | none => pure none
  | some primary => do
    let classification ← readJournal host commandId primary
    pure (some classification)

def safeCommit (store : Store) (receipt : Receipt) : Bus Bool := do
  match ← store.commit receipt with
  | some .ok => pure true
  | _ => pure false

inductive Resolved where
  | resolved | unresolved | unchanged
  deriving Repr, DecidableEq

/-- A probe that raises, or whose answer is none of the two, resolves nothing. -/
def resolve (host : Host) (store : Store) (probed : Bool) (classification : Classification) :
    Bus (Resolved × Classification) :=
  if classification.state = .preparedUnknownOutcome then
    match classification.source, probed, classification.receipt with
    | .primary, true, some receipt => do
      match ← Program.ask (Op.probe receipt) with
      | none => pure (.unresolved, classification)
      | some (resolvedAs, evidence) => do
        let stamp ← Bus.stamp
        if ← safeCommit store (markReconciled host receipt resolvedAs evidence stamp.now) then
          match ← classify host store classification.commandId with
          | some final => pure (.resolved, final)
          | none => pure (.unresolved, classification)
        else pure (.unresolved, classification)
    | _, _, _ => pure (.unresolved, classification)
  else pure (.unchanged, classification)

structure Report where
  before : Classification
  after : Classification
  drain : ReceiptOutbox.Drained
  outcome : Resolved

/-- Everything before the probe: the first classification, the drain, the second one. -/
def settle (host : Host) (store : Store) (leaseMs : Nat) (commandId : Identity .command) :
    Bus (Option (Classification × ReceiptOutbox.Drained × Classification)) := do
  match ← classify host store commandId with
  | none => pure none
  | some before => do
    let drain ← ReceiptOutbox.reconcile host store leaseMs
    match ← classify host store commandId with
    | none => pure none
    | some drained => pure (some (before, drain, drained))

def reconcile (host : Host) (store : Store) (leaseMs : Nat) (probed : Bool)
    (commandId : Identity .command) : Bus (Option Report) := do
  match ← settle host store leaseMs commandId with
  | none => pure none
  | some (before, drain, drained) => do
    let (outcome, final) ← resolve host store probed drained
    pure (some ⟨before, final, drain, outcome⟩)

def compensable (classification : Classification) : Bool :=
  classification.state = .executed ∨
    (classification.state = .reconciled ∧ classification.resolvedAs = some .executed)

inductive CompensationRefusal where
  | receiptStoreUnavailable | compensationNotApplicable | compensationUnconfirmed
  deriving Repr, DecidableEq

/-- The compensation is a run of its own; only its completed receipt counts. -/
def compensate (host : Host) (store : Store) (commandId : Identity .command)
    (compensation : Receipt → Bus (Option Receipt)) :
    Bus (Except CompensationRefusal Classification) := do
  match ← classify host store commandId with
  | none => pure (.error .receiptStoreUnavailable)
  | some current =>
    match compensable current, current.receipt with
    | true, some receipt => do
      match ← compensation receipt with
      | none => pure (.error .compensationUnconfirmed)
      | some undone =>
        if undone.status = .completed then do
          let stamp ← Bus.stamp
          if ← safeCommit store (markCompensated host receipt undone stamp.now) then
            match ← classify host store commandId with
            | some final => pure (.ok final)
            | none => pure (.error .receiptStoreUnavailable)
          else pure (.error .receiptStoreUnavailable)
        else pure (.error .compensationUnconfirmed)
    | _, _ => pure (.error .compensationNotApplicable)

end AshA2A.Reconciliation
