import AshA2A.Receipt

/-! What the durable evidence for one command says. -/

namespace AshA2A.Reconciliation

open Receipt

inductive State where
  | notAttempted | preparedUnknownOutcome | executed | failed | reconciled | compensated
  deriving Repr, DecidableEq

inductive Source where
  | primary | outbox | none
  deriving Repr, DecidableEq

structure Classification where
  commandId : Identity .command
  state : State
  source : Source
  receipt : Option Receipt
  receiptId : Option (Identity .runtime)
  receiptStatus : Option Status
  durableInPrimary : Bool
  outboxEntries : Nat
  unreadableOutboxEntries : Nat
  resolvedAs : Option ResolvedAs
  deriving Repr, DecidableEq

def executedStatuses : List Status := [.completed, .inputRequired, .streamOpened]

def rank (receipt : Receipt) : Nat :=
  match receipt.metadata.outcome, receipt.status with
  | some .compensated, _ => 3
  | some .reconciled, _ => 2
  | _, .pending | _, .unknown => 0
  | _, _ => 1

def state (unreadable : Nat) : Option Receipt → State
  | none => if unreadable = 0 then .notAttempted else .preparedUnknownOutcome
  | some receipt =>
    match receipt.metadata.outcome, receipt.status with
    | some .compensated, _ => .compensated
    | some .reconciled, _ => .reconciled
    | _, .failed => .failed
    | _, status => if status ∈ executedStatuses then .executed else .preparedUnknownOutcome

/-- `Enum.max_by/3` on the rank: the first candidate of the highest rank. -/
def mostFinal : List (Source × Receipt) → Option (Source × Receipt)
  | [] => none
  | first :: rest =>
    some (rest.foldl (fun best each => if rank each.2 > rank best.2 then each else best) first)

/-- The primary copy comes first, so that on equal finality it is the one reported. -/
def candidates (commandId : Identity .command) (primary : Option Receipt) (readable : List Receipt) :
    List (Source × Receipt) :=
  (primary.toList.map fun receipt => (.primary, receipt)) ++
    (readable.filter (·.commandId = commandId)).map fun receipt => (.outbox, receipt)

/-- `readable` are the entries that decoded, `count` the number of entry files. -/
def buildClassification (commandId : Identity .command) (primary : Option Receipt)
    (readable : List Receipt) (count : Nat) : Classification :=
  let unreadable := count - readable.length
  let best := mostFinal (candidates commandId primary readable)
  let source := (best.map (·.1)).getD .none
  let receipt := best.map (·.2)
  { commandId := commandId
    state := state unreadable receipt
    source := source
    receipt := receipt
    receiptId := receipt.map (·.receiptId)
    receiptStatus := receipt.map (·.status)
    durableInPrimary := source = .primary
    outboxEntries := (readable.filter (·.commandId = commandId)).length
    unreadableOutboxEntries := unreadable
    resolvedAs := receipt.bind fun receipt => receipt.metadata.reconciliation.map (·.resolvedAs) }

def markReconciled (host : Host) (receipt : Receipt) (resolvedAs : ResolvedAs) (evidence : Term)
    (now : Nat) : Receipt :=
  transition host.crypto host.key receipt
    { receipt with
      status := if resolvedAs = .executed then .completed else .failed
      recordedAt := now
      metadata := { receipt.metadata with
        outcome := some .reconciled
        reconciliation := some ⟨resolvedAs, receipt.status, evidence, now⟩ } }
    .reconciled

def markCompensated (host : Host) (receipt compensation : Receipt) (now : Nat) : Receipt :=
  transition host.crypto host.key receipt
    { receipt with
      status := .compensated
      recordedAt := now
      metadata := { receipt.metadata with
        outcome := some .compensated
        compensation := some ⟨compensation.receiptId, compensation.commandId, receipt.status, now⟩ } }
    .compensated

end AshA2A.Reconciliation
