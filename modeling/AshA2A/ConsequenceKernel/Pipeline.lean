import AshA2A.ConsequenceKernel.ClaimProtocol

/-! The consequence boundary, the single way to an effect: prepare, claim, revalidate, claim the
effect, apply, and record the outcome. -/

namespace AshA2A.ConsequenceKernel
open Concurrency

def call (request : PreparedEffectStore.Call) : Stage Unit := do
  match (← ask (.prepared request) : PreparedEffectStore.Answer) with
  | .ok => pure ()
  | .error code => refuse (.prepared code)
  | _ => throw .crashed

def PreparedDigest.fetch (p : Prepared) : Stage String :=
  if p.preparedDigest = "" then refuse .preparedDigestMissing else pure p.preparedDigest

/-- The stores carry what else is in a record along unread. -/
def record (p : Prepared) (rest : TermMap) : PreparedEffectStore.Record :=
  { digest := p.preparedDigest, state := some (.atom "prepared"), rest }

def PrepareStage.run (p : Prepared) : Stage Unit := do
  let _ ← PreparedDigest.fetch p
  call (.put (record p []))

/-- One that is there already must verify. -/
def verifyExisting (digest : String) : Stage Unit := do
  match (← ask (.prepared (.fetch digest)) : PreparedEffectStore.Answer) with
  | .found record =>
    match (← ask (.verify record) : Except Term Unit) with
    | .ok _ => guard .preparedDigestMismatch (record.digest = digest)
    | .error reason => refuse (.outside reason)
  | .notFound => refuse (.prepared .preparedRecordMissing)
  | .error code => refuse (.prepared code)
  | _ => throw .crashed

/-- Under a provider of keys. -/
def prepareSealed (p : Prepared) : Stage Unit := do
  match (← ask (.seal p) : Except Term (Term × Term)) with
  | .error reason => refuse (.outside reason)
  | .ok (bytes, tag) =>
    match (← ask (.prepared (.put (record p [(.atom "bytes", bytes), (.atom "tag", tag)]))) :
        PreparedEffectStore.Answer) with
    | .ok => pure ()
    | .error .preparedDuplicate => verifyExisting p.preparedDigest
    | .error code => refuse (.prepared code)
    | _ => throw .crashed

namespace ClaimStage

def finalize (p : Prepared) : Stage Unit := do
  let digest ← PreparedDigest.fetch p
  call (.transition digest "prepared" "claimed")

def run (p : Prepared) (owner : Term) : Stage Unit := do
  let _ ← PreparedDigest.fetch p
  call (.claimRequest p.requestId owner)
  call (.claimEffect p.effectId owner)
  finalize p

end ClaimStage

def AuthorityStage.run (principal : Term) (p : Prepared) : Stage Unit := do
  match (← ask (.revalidate principal p) : Term) with
  | .atom "ok" => pure ()
  | .tuple (.cons (.atom "ok") (.cons _ .empty)) => pure ()
  | .tuple (.cons (.atom "error") (.cons reason .empty)) => refuse (.authority reason)
  | answer => refuse (.authorityInvalid answer)

def ConsequenceClass.admitted (consequenceClass : Term) : Bool :=
  consequenceClass ∈ [.atom "observe", .atom "change", .atom "external"]

def ApplyingStage.run (p : Prepared) : Stage Unit := do
  let digest ← PreparedDigest.fetch p
  call (.transition digest "claimed" "applying")

namespace ReleaseStage

def release (p : Prepared) (source : String) : Stage Unit :=
  if source ∈ ["prepared", "claimed"] then do
    let digest ← PreparedDigest.fetch p
    call (.transition digest source "released")
  else refuse (.releaseAfterApplyForbidden source)

end ReleaseStage

namespace Pipeline

inductive Reason where
  /-- The effector's own. -/
  | unknown (reason : Term)
  | raised (reason : Term)
  | errorAfterApplyBoundary (reason : Term)
  deriving Repr, DecidableEq

inductive Outcome where
  | ok (value : Term)
  | unknown (reason : Reason)
  | error (code : Code)
  deriving Repr, DecidableEq

/-- What the effector came back with, where the pipeline has a clause for it. -/
def applyEffect : Applied → Option Outcome
  | .ok value => some (.ok value)
  | .unknown reason => some (.unknown (.unknown reason))
  | .error reason => some (.unknown (.errorAfterApplyBoundary reason))
  | .raised reason => some (.unknown (.raised reason))
  | .other _ => none

variable (host : Host)

def EffectorToken.issue (p : Prepared) (owner : Term) : EffectorToken :=
  ⟨p.requestId, p.effectId, p.preparedDigest, owner⟩

/-- A refusal on the way is the outcome. The answer of a store to an unknown outcome is not looked at. -/
def settled (stage : Stage Unit) (outcome : Outcome) : Stage Outcome := ExceptT.mk do
  match ← stage.run with
  | .ok _ => pure (.ok outcome)
  | .error (.refused code) => pure (.ok (match outcome with | .ok _ => .error code | outcome => outcome))
  | .error .crashed => pure (.error .crashed)

def OutcomeStage.persist (p : Prepared) (outcome : Outcome) : Stage Outcome := do
  let digest ← PreparedDigest.fetch p
  match outcome with
  | .ok _ => settled (call (.transition digest "applying" "completed")) outcome
  | outcome => settled (call (.transition digest "applying" "unknown_outcome")) outcome

def recordCompletion (p : Prepared) (opts : ClaimProtocol.Options) (outcome : Outcome) : Stage Outcome :=
  match outcome, opts.keyProvider with
  | .ok value, true => do
    let digest ← PreparedDigest.fetch p
    settled (call (.complete digest value)) outcome
  | outcome, _ => pure outcome

def prepare (p : Prepared) (opts : ClaimProtocol.Options) : Stage Unit :=
  if opts.keyProvider then prepareSealed p else PrepareStage.run p

/-- Everything before the effector is entered. -/
def boundary (p : Prepared) (opts : ClaimProtocol.Options) : Stage ClaimProtocol.Context := do
  prepare p opts
  ClaimStage.run p opts.owner
  AuthorityStage.run opts.principal p
  guard .consequenceUnclassified (ConsequenceClass.admitted p.consequenceClass)
  let context ← ClaimProtocol.claim host p opts
  ClaimProtocol.beginDo host context
  ApplyingStage.run p
  pure context

/-- Everything after it. What becomes of the claim is not looked at, unless it ends the caller. -/
def conclusion (p : Prepared) (opts : ClaimProtocol.Options) (context : ClaimProtocol.Context) (outcome : Outcome) :
    Stage Outcome := do
  let outcome ← OutcomeStage.persist p outcome
  let outcome ← recordCompletion p opts outcome
  let succeeded : Bool := match outcome with | .ok _ => true | _ => false
  let ignored ← ExceptT.lift (ClaimProtocol.recordOutcome host context succeeded).run
  match ignored with
  | .error .crashed => throw .crashed
  | _ => pure outcome

def execute (p : Prepared) (opts : ClaimProtocol.Options) : Program Op Reply (Except Stop Outcome) := do
  match ← (boundary host p opts).run with
  | .error stop => pure (.error stop)
  | .ok context =>
    match applyEffect (← Program.ask (Op.apply p (EffectorToken.issue p opts.owner)) : Applied) with
    | some outcome => (conclusion host p opts context outcome).run
    | none => pure (.error .crashed)

end Pipeline
end AshA2A.ConsequenceKernel
