import AshA2A.Crypto

/-! Identity binding of receipts: one digest for each bound field, and a chain of links
from the prepared anchor to the last lawful change. -/

namespace AshA2A.Receipt

def version : Nat := 1

def fields : List Field :=
  [.receiptIdentity, .actor, .semanticSubject, .capabilityAction, .inputDigest, .planDigest,
    .projectionDigest, .authorityGrant, .idempotencyIdentity, .intendedEffect, .resultIdentity]

def transitionStages : List Stage :=
  [.final, .postcondition, .deduplicated, .reconciled, .compensated, .unknownOutcome]

def stages : List Stage := .prepared :: transitionStages

inductive Refusal.Code where
  | receiptUnbound | receiptBindingMalformed | receiptBindingFieldMismatch
  | receiptBindingDigestMismatch | receiptBindingChainBroken | receiptBindingResultUnbound
  | receiptBindingKeyMismatch | receiptBindingDowngraded | receiptBindingKeyedClaimUnbacked
  | receiptBindingKeyUnavailable
  deriving Repr, DecidableEq

inductive Refusal.Detail where
  | text (text : String)
  | fields (fields : List Field)
  | stage (stage : Stage)
  | keys (bound : Option String) (configured : String)
  deriving Repr, DecidableEq

structure Refusal where
  code : Refusal.Code
  detail : Refusal.Detail
  deriving Repr, DecidableEq

structure Report where
  stage : Stage
  digest : String
  links : Nat
  keyed : Bool
  keyId : Option String
  standing : Standing
  deriving Repr, DecidableEq

/-- An absent or empty key option means that no key is configured. -/
def keyOpt : Option String → Option Key
  | some text => if filled : text ≠ "" then some ⟨text, filled⟩ else none
  | none => none

def keyId (crypto : Crypto) (key : Key) : String :=
  "hmac-sha256:" ++ String.ofList ((crypto.sha256 (.keyName key)).toList.take 16)

/-- `String.starts_with?/2`. -/
def startsWith (text head : String) : Bool := head.toList.isPrefixOf text.toList

/-- The prepared anchor binds no result: nothing has been observed at that stage. -/
def fieldValue (receipt : Receipt) (stage : Stage) : Field → FieldValue
  | .receiptIdentity => .receiptIdentity receipt.receiptId receipt.commandId receipt.executionId
      receipt.taskId receipt.agentId receipt.principalId
  | .actor => .actor receipt.actor
  | .semanticSubject => .semanticSubject receipt.semanticSubject
  | .capabilityAction => .capabilityAction receipt.capabilityId receipt.consequence receipt.fingerprint
  | .inputDigest => .inputDigest receipt.inputDigest
  | .planDigest => .planDigest receipt.planDigest
  | .projectionDigest => .projectionDigest receipt.projectionDigest
  | .authorityGrant => .authorityGrant receipt.authorityGrant
  | .idempotencyIdentity => .idempotencyIdentity receipt.actuationId receipt.idempotencyKey
  | .intendedEffect => .intendedEffect receipt.intendedEffect
  | .resultIdentity =>
    match stage with
    | .prepared => .notYetObserved
    | _ => .resultIdentity receipt.status receipt.terminalStatus receipt.reply
        receipt.metadata.postcondition
  | .other _ => .absent

/-- The map is built from `fields`, so its entries always come in that order. -/
def fieldDigests (crypto : Crypto) (receipt : Receipt) (stage : Stage) : List (Field × String) :=
  fields.map fun field => (field, crypto.digest (.field field (fieldValue receipt stage field)))

def mac (crypto : Crypto) (payload : LinkPayload) : Option Key → String
  | none => "sha256:" ++ crypto.sha256 (.link payload)
  | some key => "hmac-sha256:" ++ crypto.hmac key (.link payload)

def linkPayload (crypto : Crypto) (key : Option Key) (stage : Stage) (predecessor : Option String)
    (fields : List (Field × String)) : LinkPayload :=
  ⟨stage, predecessor, fields, key.isSome, key.map (keyId crypto)⟩

def link (crypto : Crypto) (key : Option Key) (stage : Stage) (predecessor : Option String)
    (fields : List (Field × String)) : Link :=
  ⟨stage, predecessor, mac crypto (linkPayload crypto key stage predecessor fields) key⟩

def algorithm : Option Key → String
  | none => "sha256"
  | some _ => "hmac-sha256"

def bind (crypto : Crypto) (key : Option Key) (predecessor : Option String) (receipt : Receipt) :
    Receipt :=
  let fields := fieldDigests crypto receipt .prepared
  { receipt with
    binding := some {
      version := version
      algorithm := algorithm key
      keyed := key.isSome
      keyId := key.map (keyId crypto)
      fields := fields
      links := [link crypto key .prepared predecessor fields] } }

def refuse {α : Type} (code : Refusal.Code) (detail : Refusal.Detail) : Except Refusal α :=
  .error ⟨code, detail⟩

def Binding.fieldsOk (binding : Binding) : Bool :=
  (binding.fields.map Prod.fst).isPerm Receipt.fields

def Binding.linksOk (binding : Binding) : Bool :=
  binding.links.all fun link => decide (link.stage ∈ stages)

/-- The value types of the map are types here; what remains is what the code compares. -/
def wellFormed : Option Binding → Except Refusal { binding : Binding // binding.links ≠ [] }
  | none => refuse .receiptUnbound
      (.text "the receipt carries no identity binding; it has no standing")
  | some binding =>
    if shaped : binding.version = version ∧ binding.algorithm ∈ ["sha256", "hmac-sha256"] ∧
        binding.links ≠ [] then
      if binding.fieldsOk && binding.linksOk then .ok ⟨binding, shaped.2.2⟩
      else refuse .receiptBindingMalformed (.text "binding fields or links are malformed")
    else refuse .receiptBindingMalformed (.text "binding is not a version-1 binding map")

def keyedClaim (binding : Binding) : Except Refusal Unit :=
  if binding.keyed then
    if binding.algorithm = "hmac-sha256" ∧ binding.keyId.isSome ∧
        binding.links.all fun link => startsWith link.digest "hmac-sha256:" then .ok ()
    else refuse .receiptBindingKeyedClaimUnbacked
      (.text "binding claims keyed but carries no HMAC-SHA256 material")
  else
    if binding.algorithm = "sha256" ∧ binding.keyId = none ∧
        binding.links.all fun link => startsWith link.digest "sha256:" then .ok ()
    else refuse .receiptBindingMalformed (.text "unkeyed binding carries keyed material")

def keyPosture (crypto : Crypto) (binding : Binding) (key : Option Key) : Except Refusal Unit :=
  match binding.keyed, key with
  | true, none => refuse .receiptBindingKeyUnavailable
      (.text "keyed binding cannot be verified without :ash_a2a, :receipt_binding_key")
  | true, some key =>
    if some (keyId crypto key) = binding.keyId then .ok ()
    else refuse .receiptBindingKeyMismatch (.keys binding.keyId (keyId crypto key))
  | false, none => .ok ()
  | false, some _ => refuse .receiptBindingDowngraded
      (.text "a receipt binding key is configured; an unkeyed binding does not verify")

def fieldsMatch (bound current : List (Field × String)) : Except Refusal Unit :=
  match fields.filter fun field => bound.lookup field ≠ current.lookup field with
  | [] => .ok ()
  | fields => refuse .receiptBindingFieldMismatch (.fields fields)

def headMatches (crypto : Crypto) (head : Link) (current : List (Field × String))
    (key : Option Key) : Except Refusal Unit :=
  if (link crypto key head.stage head.predecessor current).digest = head.digest then .ok ()
  else refuse .receiptBindingDigestMismatch (.stage head.stage)

/-- Each link must name its predecessor; its own digest is not recomputed here. -/
def follows (previous : Link) : List Link → Bool
  | [] => true
  | link :: rest =>
    decide (link.stage ∈ transitionStages) && decide (link.predecessor = some previous.digest) &&
      follows link rest

def chainIntact (crypto : Crypto) (root : Link) (rest : List Link) (receipt : Receipt)
    (key : Option Key) : Except Refusal Unit :=
  let prepared := link crypto key .prepared root.predecessor (fieldDigests crypto receipt .prepared)
  if root.stage ≠ .prepared then
    refuse .receiptBindingChainBroken (.text "the chain does not start at a prepared anchor")
  else if prepared.digest ≠ root.digest then
    refuse .receiptBindingChainBroken
      (.text "the prepared anchor does not bind this receipt's identity")
  else if follows root rest then .ok ()
  else refuse .receiptBindingChainBroken (.text "a link does not name its predecessor")

def resultBound (receipt : Receipt) (head : Link) : Except Refusal Unit :=
  if head.stage = .prepared ∧ receipt.status ≠ .pending then
    refuse .receiptBindingResultUnbound
      (.text "a receipt with an observed result is bound only by its prepared anchor")
  else .ok ()

def check (crypto : Crypto) (key : Option Key) (receipt : Receipt) : Except Refusal Report := do
  let ⟨binding, filled⟩ ← wellFormed receipt.binding
  keyedClaim binding
  keyPosture crypto binding key
  let head := binding.links.getLast filled
  let current := fieldDigests crypto receipt head.stage
  fieldsMatch binding.fields current
  headMatches crypto head current key
  chainIntact crypto (binding.links.head filled) binding.links.tail receipt key
  resultBound receipt head
  return {
    stage := head.stage
    digest := head.digest
    links := binding.links.length
    keyed := binding.keyed
    keyId := binding.keyId
    standing := receipt.standing }

/-- A receipt that does not verify is never sealed anew: `next` keeps the old binding. -/
def transition (crypto : Crypto) (key : Option Key) (prior next : Receipt) (stage : Stage) :
    Receipt :=
  match prior.binding with
  | none => { next with binding := none }
  | some binding =>
    match check crypto key prior with
    | .ok _ =>
      let fields := fieldDigests crypto next stage
      let head := binding.links.getLast?
      { next with
        binding := some { binding with
          fields := fields
          links := binding.links ++ [link crypto key stage (head.map (·.digest)) fields] } }
    | .error _ => { next with binding := some binding }

section

variable (crypto : Crypto) (key : Option Key) (prior next : Receipt) (stage : Stage)

/-- A transition writes the binding and nothing else. -/
theorem transition_eq_with : ∃ sealing, transition crypto key prior next stage =
    { next with binding := sealing } := by
  unfold transition
  split
  · exact ⟨_, rfl⟩
  · split <;> exact ⟨_, rfl⟩

@[simp] theorem transition_status : (transition crypto key prior next stage).status = next.status := by
  obtain ⟨_, same⟩ := transition_eq_with crypto key prior next stage
  rw [same]

@[simp] theorem transition_terminalStatus :
    (transition crypto key prior next stage).terminalStatus = next.terminalStatus := by
  obtain ⟨_, same⟩ := transition_eq_with crypto key prior next stage
  rw [same]

@[simp] theorem transition_metadata :
    (transition crypto key prior next stage).metadata = next.metadata := by
  obtain ⟨_, same⟩ := transition_eq_with crypto key prior next stage
  rw [same]

@[simp] theorem transition_reply : (transition crypto key prior next stage).reply = next.reply := by
  obtain ⟨_, same⟩ := transition_eq_with crypto key prior next stage
  rw [same]

@[simp] theorem transition_receiptId :
    (transition crypto key prior next stage).receiptId = next.receiptId := by
  obtain ⟨_, same⟩ := transition_eq_with crypto key prior next stage
  rw [same]

@[simp] theorem transition_commandId :
    (transition crypto key prior next stage).commandId = next.commandId := by
  obtain ⟨_, same⟩ := transition_eq_with crypto key prior next stage
  rw [same]

@[simp] theorem transition_executionId :
    (transition crypto key prior next stage).executionId = next.executionId := by
  obtain ⟨_, same⟩ := transition_eq_with crypto key prior next stage
  rw [same]

@[simp] theorem transition_fingerprint :
    (transition crypto key prior next stage).fingerprint = next.fingerprint := by
  obtain ⟨_, same⟩ := transition_eq_with crypto key prior next stage
  rw [same]

end

end AshA2A.Receipt
