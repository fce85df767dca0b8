import AshA2A.Actuator.Surroundings

/-! The store: one process that claims an effect instance in the journal, performs it and
journals what came of it. -/

namespace AshA2A.Actuator

open Sa2aCrypto Concurrency AppendLog

structure Store where
  ledger : Ledger
  records : Records := ∅
  nonceOwner : Owners := fun _ => none
  jseq : Nat
  jhead : String

namespace Store

inductive Call where
  | execute (context : Context) (request : Fence.Request)
  | reconcile (instanceId : String) (resolution : Resolution) (note : String)
  | status (instanceId : String)

/-- The evidence is the record. -/
inductive Answer where
  | performed (evidence : Record)
  | replayed (evidence : Record)
  /-- Refused by a check of the fence, or in its place. -/
  | refused (check : Nat) (code : String)
  | executionUnknown
  | reconciled (evidence : Record)
  | status (evidence : Record)
  | error (code : String)

variable (host : Host)

def anchorFields (store : Store) : Anchor :=
  ⟨store.jseq, store.jhead, store.ledger.seq, store.ledger.head⟩

/-- Whether the append succeeded, with the state after it. The anchor may lag. -/
def journal (store : Store) (event : Event) : Code (Bool × Store) := do
  let time ← Code.clock
  match Ledger.chained host (event.fields time) store.jseq store.jhead with
  | none => Code.raise
  | some (line, hash) =>
    if ← Code.write .journal line then
      if ← Code.sync .journal then do
        let after := { store with jseq := store.jseq + 1, jhead := hash }
        let _ ← Code.writeAnchor after.anchorFields
        pure (true, after)
      else pure (false, store)
    else pure (false, store)

def put (store : Store) (record : Record) : Store :=
  { store with records := store.records.insert record.instanceId record }

/-! ## Execution -/

/-- `Ledger.append/2`: the new ledger with the position and the hash of the line. -/
def appendLedger (ledger : Ledger) (entry : Ledger.Entry) : Code (Except String (Ledger × Nat × String)) :=
  match Ledger.chained host entry.fields ledger.seq ledger.head with
  | none => pure (.error "raised")
  | some (line, hash) => do
    if ← Code.write .ledger line then
      if ← Code.sync .ledger then pure (.ok (⟨ledger.seq + 1, hash⟩, ledger.seq, hash))
      else pure (.error "ledger_sync")
    else pure (.error "ledger_write")

/-- `spec.module.perform/3`, with the ledger it may leave and the evidence it gives. The
parameters of an effect that was decoded have their entry. -/
def performEffect (ledger : Ledger) (effect : Effect) (digest : String) :
    Effector → Code (Except String (Ledger × Option Nat × Option String))
  | .noopProbe => pure (.ok (ledger, none, none))
  | .ledgerAppend => do
    match ← appendLedger host ledger
      ⟨effect.effectInstanceId, digest, (effect.params.string? "entry").getD ""⟩ with
    | .ok (ledger, seq, hash) => pure (.ok (ledger, some seq, some hash))
    | .error reason => pure (.error reason)

def unknown (store : Store) (record : Record) (reason : String) : Code (Answer × Store) := do
  let (_, store) ← store.journal host (.unknownOutcome record.instanceId reason)
  pure (.executionUnknown, store.put { record with state := .unknownOutcome })

def perform (store : Store) (effect : Effect) (digest : String) (record : Record) : Code (Answer × Store) :=
  match Effector.fetch effect.effectType with
  | none => Code.raise
  | some effector => do
    Code.perform record.instanceId
    match ← performEffect host store.ledger effect digest effector with
    | .error reason => unknown host store record reason
    | .ok (ledger, seq, hash) => do
      let store := { store with ledger := ledger }
      let done := { record with state := .completed, ledgerSeq := seq, ledgerHash := hash }
      -- the ledger head is anchored before the completion is journaled
      let _ ← Code.writeAnchor store.anchorFields
      match ← store.journal host (.completed record.instanceId seq hash) with
      | (true, store) => pure (.performed done, store.put done)
      | (false, store) => unknown host store record "completion_not_durable"

def claimAndPerform (store : Store) (request : Fence.Request) : Code (Answer × Store) := do
  let instanceId := request.effect.effectInstanceId
  let nonces := request.cert.signatures.map fun signature => (signature.kid, signature.nonce)
  match ← store.journal host
    (.executing instanceId request.cert.generation request.cert.effectDigest nonces) with
  | (false, store) => pure (.refused 14 "journal_unavailable", store)
  | (true, store) => do
    Code.own instanceId nonces
    let record : Record :=
      { instanceId := instanceId, state := .executing, generation := request.cert.generation
        effectDigest := request.cert.effectDigest }
    let store := { store.put record with nonceOwner := Folded.own store.nonceOwner instanceId nonces }
    perform host store request.effect request.cert.effectDigest record

/-- The record must still be what the fence saw, and the anchor must be brought up to date. -/
def doExecute (store : Store) (request : Fence.Request) (seen : Option Record) : Code (Answer × Store) :=
  if store.records.lookup request.effect.effectInstanceId ≠ seen then
    pure (.refused 14 "claim_conflict", store)
  else do
    if ← Code.writeAnchor store.anchorFields then claimAndPerform host store request
    else pure (.refused 14 "journal_unavailable", store)

def replays (request : Fence.Request) (record : Record) : Bool :=
  record.effectDigest = request.cert.effectDigest ∧ record.generation = request.cert.generation

def execute (store : Store) (context : Context) (request : Fence.Request) : Code (Answer × Store) :=
  let seen := store.records.lookup request.effect.effectInstanceId
  match Fence.run host context request ⟨seen, store.nonceOwner⟩ with
  | .ok () => doExecute host store request seen
  | .error (check, code) =>
    if code ∈ ["effect_already_completed", "unknown_outcome", "claim_closed"] then
      match seen with
      | none => Code.raise
      | some record =>
        if replays request record then pure (.replayed record, store) else pure (.refused check code, store)
    else pure (.refused check code, store)

/-! ## Reconciliation -/

def reconcile (store : Store) (instanceId : String) (resolution : Resolution) (note : String) :
    Code (Answer × Store) :=
  match store.records.lookup instanceId with
  | none => pure (.error "unknown_instance", store)
  | some record =>
    if record.state ≠ .unknownOutcome then pure (.error "not_unknown_outcome", store)
    else do
      match ← store.journal host (.reconciled instanceId resolution note) with
      | (false, store) => pure (.error "journal_unavailable", store)
      | (true, store) =>
        let record := { record with state := resolution.state }
        pure (.reconciled record, { store with records := store.records.insert instanceId record })

/-- The store serves on after every answer. -/
def handle (call : Call) (store : Store) : Code (Answer × Option Store) := do
  let (answer, store) ← match call with
    | .execute context request => execute host store context request
    | .reconcile instanceId resolution note => reconcile host store instanceId resolution note
    | .status instanceId => pure (match store.records.lookup instanceId with
        | none => (.error "not_found", store)
        | some record => (.status record, store))
  pure (answer, some store)

/-! ## Boot -/

/-- What the files have to say before the store folds them: the two chains. -/
def checks (journal ledger : File Json) (anchor : Anchor.Found) : Except String (Chain × Chain) := do
  let ledger ← (Ledger.verify host ledger).mapError fun _ => "broken_chain"
  let journal ← (Ledger.verify host journal).mapError fun _ => "journal_broken_chain"
  Anchor.check journal.hashes ledger.hashes anchor
  Journal.crossCheck journal.events ledger.events
  pure (journal, ledger)

/-- The instances that a stop left in the middle of their execution. -/
def markUnknownOnRestart (store : Store) : List (Sigma fun _ : String => Record) → Code Store
  | [] => pure store
  | ⟨instanceId, record⟩ :: rest =>
    if record.state ≠ .executing then markUnknownOnRestart store rest
    else do
      match ← store.journal host (.unknownOutcome instanceId "restart_after_write_ahead") with
      | (false, _) => Code.raise
      | (true, store) =>
        markUnknownOnRestart
          { store with records := store.records.insert instanceId { record with state := .unknownOutcome } } rest

def boot : Code (Option Store) := do
  if ← Code.trim .journal then
    if ← Code.trim .ledger then
      match ← Code.read .ledger, ← Code.read .journal with
      | some ledger, some journal =>
        match checks host journal ledger (← Code.readAnchor) with
        | .error _ => pure none
        | .ok (journal, ledger) =>
          if ← Code.open .journal then
            match Folded.fold journal.events with
            | none => Code.raise
            | some folded => do
              let store ← markUnknownOnRestart host
                { ledger := ⟨ledger.events.length, ledger.head⟩
                  records := folded.records
                  nonceOwner := folded.owners
                  jseq := journal.events.length
                  jhead := journal.head } folded.records.entries
              if ← Code.writeAnchor store.anchorFields then pure (some store) else pure none
          else pure none
      | _, _ => pure none
    else Code.raise
  else Code.raise

def server : Server machine Store Call Answer where
  boot := boot host
  handle := handle host
  survives := Disk.Survives

end Store

end AshA2A.Actuator
