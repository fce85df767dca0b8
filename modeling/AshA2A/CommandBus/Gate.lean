import AshA2A.Receipt

/-! Admission before the claim and the gate immediately before the consequence. What the
gates learn from outside is an answer; which refusal follows from it is decided here. -/

namespace AshA2A

def Code.name : Code → String
  | .receiptAnchorUnavailable => "receipt_anchor_unavailable"
  | .killSwitchTripped => "kill_switch_tripped"
  | .authorityRequired => "authority_required"
  | .authorityMismatch => "authority_mismatch"
  | .consequenceUnclassified => "consequence_unclassified"
  | .capabilityReleaseRefused => "capability_release_refused"
  | .capabilityNotFound => "capability_not_found"
  | .actionNotFound => "action_not_found"
  | .commandConflict => "command_conflict"
  | .actuationConflict => "actuation_conflict"
  | .actuationInFlight => "actuation_in_flight"
  | .actuationStoreUnavailable => "actuation_store_unavailable"
  | .authorityExpired => "authority_expired"
  | .authorityRevoked => "authority_revoked"
  | .authorityConstraintMismatch => "authority_constraint_mismatch"
  | .authorityRevalidationUnavailable => "authority_revalidation_unavailable"
  | .killSwitchUnavailable => "kill_switch_unavailable"
  | .dispatchTimeout => "dispatch_timeout"
  | .dispatchLost => "dispatch_lost"
  | .other name => name

namespace CommandBus

def refusal (code : Code) : Fault := ⟨some code, .binary code.name, .nil⟩

/-- What resolving the target, its release closure and its plan step say of a command. -/
structure Target where
  consequence : Consequence
  authorityAdmits : Bool
  releaseAttributes : TermMap := []
  planDigest : Option Term := none

def admission (command : Command) (admits : Bool) : Consequence → Option Fault
  | .observe => none
  | .unknown => some (refusal .consequenceUnclassified)
  | .change | .externalDo =>
    match command.authority with
    | none => some (refusal .authorityRequired)
    | some authority =>
      if authority.source = "model" then some (refusal (.other "model_authority_refused"))
      else if admits then none
      else some (refusal .authorityMismatch)

inductive ReleaseAnswer where
  | unbound | same | changed
  | refused (reason : Term)

inductive BrokerAnswer where
  /-- The broker module cannot be called, or it crashed. -/
  | unavailable
  | valid | expired | revoked

inductive KillSwitchAnswer where
  | clear
  | tripped (reason : Term)
  | unavailable

/-- Everything the gate consults at the last reversible moment. -/
structure GateAnswers where
  release : ReleaseAnswer := .unbound
  constraintsSatisfied : Bool := true
  broker : Option BrokerAnswer := none
  standingGrant : Bool := false
  expired : Bool := false
  killSwitch : KillSwitchAnswer := .clear

def revalidateReleaseStanding : ReleaseAnswer → Option Fault
  | .unbound | .same => none
  | .changed => some ⟨some .capabilityReleaseRefused,
      .binary "standing evidence changed after release binding; refusing before DO",
      .atom "standing_replay_changed"⟩
  | .refused reason => some ⟨some .capabilityReleaseRefused,
      .binary "standing evidence could not be re-admitted immediately before DO", reason⟩

def revalidationUnavailable : Fault :=
  ⟨some .authorityRevalidationUnavailable,
    .binary "authoritative broker could not be consulted immediately before DO (fail closed)", .nil⟩

/-- A standing grant is asked for again; its expiry is read from the authority itself. -/
def standingWithBroker (expired : Bool) : BrokerAnswer → Option Fault
  | answer =>
    if expired then some (refusal .authorityExpired)
    else match answer with
      | .valid => none
      | .expired | .revoked => some (refusal .authorityRevoked)
      | .unavailable => some revalidationUnavailable

def verifyWithBroker : BrokerAnswer → Option Fault
  | .valid => none
  | .expired => some (refusal .authorityExpired)
  | .revoked => some (refusal .authorityRevoked)
  | .unavailable => some revalidationUnavailable

def revalidateAuthority (command : Command) (consequence : Consequence) (answers : GateAnswers) :
    Option Fault :=
  if consequence = .observe then none
  else match command.authority with
    | none => none
    | some _ =>
      if answers.constraintsSatisfied then
        match answers.broker with
        | none => if answers.expired then some (refusal .authorityExpired) else none
        | some answer =>
          if answers.standingGrant then standingWithBroker answers.expired answer
          else verifyWithBroker answer
      else some (refusal .authorityConstraintMismatch)

def checkKillSwitch : KillSwitchAnswer → Option Fault
  | .clear => none
  | .tripped reason => some ⟨some .killSwitchTripped, reason, .nil⟩
  | .unavailable => some ⟨some .killSwitchUnavailable,
      .binary "kill switch could not be consulted; refusing before claim (fail closed)", .nil⟩

/-- The first refusal decides. -/
def preDoGate (command : Command) (consequence : Consequence) (answers : GateAnswers) : Option Fault :=
  revalidateReleaseStanding answers.release <|> revalidateAuthority command consequence answers <|>
    checkKillSwitch answers.killSwitch

end CommandBus

end AshA2A

/-! The receipts with which the command bus closes a claim. -/

namespace AshA2A.CommandBus

open Receipt

/-- Only a store that declares itself durable upgrades the standing. -/
def markStanding (durable : Bool) (receipt : Receipt) : Receipt :=
  if durable then { receipt with standing := .durable } else receipt

/-- The claim is closed with the prior outcome. It does not say that anything ran again. -/
def deduplicate (host : Host) (prior receipt : Receipt) : Receipt :=
  transition host.crypto host.key receipt
    { receipt with
      terminalStatus := prior.terminalStatus
      status := prior.status
      metadata := { receipt.metadata with
        outcome := some .deduplicated
        deduplicatedFromReceiptId := some prior.receiptId.external
        deduplicatedFromCommandId := some prior.commandId.external } }
    .deduplicated

def duplicateReceipt (host : Host) (durable : Bool) (command : Command)
    (executionId : Identity .execution) (consequence : Consequence) (opts : Opts) (prior : Receipt)
    (stamp later : Stamp) : Receipt :=
  deduplicate host prior
    (replay (markStanding durable
      (fromReply host command executionId consequence prior.reply opts stamp later)))

end AshA2A.CommandBus
