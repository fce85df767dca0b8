import AshA2A.AuthorityService.Surroundings
import AshA2A.Sa2aCrypto

/-! The static policy: which effect classes need how many distinct custodians. -/

namespace AshA2A.AuthorityService

open Sa2aCrypto

structure Policy where
  epoch : Nat
  approvers : List String
  /-- The `k` of every configured tier of a class. -/
  classes : List (String × List Nat)
  minApproverTier : Tier := .i3
  humanTtl : Int := 300
  automatedTtl : Int := 900
  skew : Int := 5
  maxApprovals : Nat := 16
  deriving Repr, DecidableEq

namespace Policy

/-- The most restrictive tier of the class counts. -/
def required (policy : Policy) (effectClass : String) : Except String Nat :=
  match policy.classes.lookup effectClass with
  | some (k :: ks) => .ok (ks.foldl max k)
  | _ => .error "unknown_effect_class"

def tierRank : Tier → Nat
  | .i1 => 0
  | .i2 => 1
  | .i3 => 2
  | .i4 => 3

end Policy

structure ServiceKey where
  alg : String
  kid : String
  revocationEpoch : Nat
  deriving Repr, DecidableEq

structure Config where
  host : Host
  serviceKey : ServiceKey
  policy : Policy
  authorityAudience : String
  /-- `none` where the configured value is no string. -/
  actuatorAudience : Option String
  /-- A channel to the approvers is configured. -/
  channel : Bool := false

end AshA2A.AuthorityService

/-! The issuer: it certifies an effect when enough custodians approved it, and executes
nothing. -/

namespace AshA2A.AuthorityService.Issuer

open Sa2aCrypto Concurrency

def maxEffectBytes : Nat := 16384

/-- A refusal code with its details. -/
structure Refusal where
  code : String
  detail : List String := []
  deriving Repr, DecidableEq

structure Request where
  effect : Bytes
  digest : String
  audience : String
  generation : Nat
  approvals : List Json

/-! ## The request -/

variable (config : Config)

/-- The audience of every certificate. A request may name it; it cannot choose another. -/
def audienceOk (asked : Option Json) : Except String String :=
  match config.actuatorAudience with
  | none => .error "audience_unconfigured"
  | some audience =>
    if audience = "" then .error "audience_unconfigured"
    else match asked with
      | none | some .null => .ok audience
      | some (.string text) => if text = audience then .ok audience else .error "audience_not_registered"
      | some _ => .error "audience_not_registered"

def approvalsOf (json : Json) : Option (List Json) :=
  match json.get? "approvals" with
  | none => some []
  | some (.array items) => if items.length ≤ config.policy.maxApprovals then some items else none
  | some _ => none

def parseRequest (json : Json) : Except String Request :=
  match json.string? "effect", json.string? "effect_digest", json.nat? "generation" with
  | some effect, some digest, some generation =>
    match audienceOk config (json.get? "audience") with
    | .error code => .error code
    | .ok audience =>
      match (b64 effect).filter fun bytes => bytes.length ≤ maxEffectBytes, approvalsOf config json with
      | some bytes, some approvals => .ok ⟨bytes, digest, audience, generation, approvals⟩
      | _, _ => .error "malformed_request"
  | _, _, _ => .error "malformed_request"

def digestOk (request : Request) : Except String Unit :=
  if config.host.digest request.effect = request.digest then .ok () else .error "digest_mismatch"

/-- The two shapes of an effect carry their class in different fields. -/
def classAndAmount (effect : Json) : Option (String × Nat) :=
  match effect.string? "effect_class", effect.nat? "amount" with
  | some effectClass, some amount => some (effectClass, amount)
  | _, _ =>
    match effect.string? "effect_type", effect.string? "consequence_class", effect.get? "params" with
    | some _, some consequenceClass, some (.object _) => some (consequenceClass, 0)
    | _, _, _ => none

def parseEffect (bytes : Bytes) : Except String Json :=
  match (config.host.library.strict bytes).map SignedMessage.normalize with
  | some (.ok effect) =>
    match config.host.library.encode effect with
    | none => .error "malformed_effect"
    | some text =>
      if text ≠ bytes then .error "non_canonical_effect"
      else if (classAndAmount effect).isSome ∧ (effect.string? "principal").any (· ≠ "") then .ok effect
      else .error "malformed_effect"
  | _ => .error "malformed_effect"

/-- The amount is not consulted. -/
def required (effect : Json) : Except String Nat :=
  match classAndAmount effect with
  | some (effectClass, _) => config.policy.required effectClass
  | none => .error "malformed_effect"

def notIssued (journal : Journal) (request : Request) : Except String Unit :=
  if journal.isIssued request.digest request.generation then .error "already_issued" else .ok ()

/-- Everything before the approvals are looked at. -/
def admission (journal : Journal) (json : Json) : Except String (Request × Json × Nat) := do
  let request ← parseRequest config json
  digestOk config request
  let effect ← parseEffect config request.effect
  let k ← required config effect
  notIssued journal request
  pure (request, effect, k)

/-! ## Approvals -/

structure Approval where
  envelope : Envelope
  message : Bytes
  deriving Repr, DecidableEq

/-- An approval that counts, under its custodian. -/
structure Counted where
  custodian : String
  kid : String
  epoch : Nat
  nonce : String
  expires : Int
  deriving Repr, DecidableEq

structure Acc where
  counted : List Counted := []
  seen : List (String × String) := []
  /-- Newest first. -/
  detail : List String := []
  deriving Repr, DecidableEq

/-- What the approvals of one request are checked against. -/
structure Ctx where
  request : Request
  effect : Json
  now : Int
  journal : Journal

def parseApproval (json : Json) : Except String Approval :=
  match json.get? "envelope", json.string? "message" with
  | some (.object entries), some message =>
    match (config.host.library.encode (.object entries)).bind (Envelope.decode config.host.library),
      b64 message with
    | some envelope, some bytes => .ok ⟨envelope, bytes⟩
    | _, _ => .error "malformed_approval"
  | _, _ => .error "malformed_approval"

def verify (approval : Approval) (at' : Int) : Service (Except String Standing) := do
  let view ← Service.registry
  pure (verifyEnvelope config.host approval.envelope approval.message view.keys
    { now := at', audience := some config.authorityAudience })

/-- An approval that was signed up to `skew` seconds ahead of the clock is accepted. -/
def standing (approval : Approval) (now : Int) : Service (Except String Standing) := do
  match ← verify config approval now with
  | .error "not_yet_valid" => verify config approval (now + config.policy.skew)
  | result => pure result

def eq (same : Bool) (code : String) : Except String Unit := if same then .ok () else .error code

def epoch (message : Json) (current : Nat) : Except String Unit :=
  match message.int? "policy_epoch" with
  | some epoch =>
    if epoch = current then .ok ()
    else if epoch < current then .error "stale_policy_epoch"
    else .error "policy_epoch_mismatch"
  | none => .error "policy_epoch_mismatch"

def ttl (message : Json) (policy : Policy) : Except String Int :=
  match message.int? "expires", message.int? "not_before" with
  | some expires, some notBefore =>
    if expires - notBefore ≤ policy.humanTtl then .ok expires else .error "approval_ttl_exceeded"
  | _, _ => .error "approval_malformed_message"

def tier (standing : Standing) (policy : Policy) : Except String Unit :=
  if Policy.tierRank policy.minApproverTier ≤ Policy.tierRank standing.tier then .ok ()
  else .error "approver_tier_too_low"

def registered (standing : Standing) (policy : Policy) : Except String Unit :=
  if standing.custodianId ∈ policy.approvers then .ok () else .error "approver_not_registered"

def replay (envelope : Envelope) (seen : List (String × String)) (journal : Journal) : Except String Unit :=
  if (envelope.kid, envelope.nonce) ∈ seen ∨ journal.approvalSeen envelope.kid envelope.nonce then
    .error "approval_replayed"
  else .ok ()

/-- What is asked of an approval whose signature has standing; the time at which it expires. -/
def checkMessage (ctx : Ctx) (seen : List (String × String)) (approval : Approval) (standing : Standing) :
    Except String Int := do
  let message ← (SignedMessage.parse config.host.library approval.message).mapError fun _ =>
    "approval_malformed_message"
  eq (message.string? "effect_digest" = some ctx.request.digest) "approval_effect_mismatch"
  epoch message config.policy.epoch
  eq (message.string? "principal" = ctx.effect.string? "principal") "approval_principal_mismatch"
  eq (message.int? "generation" = some (ctx.request.generation : Int)) "approval_generation_mismatch"
  eq (message.int? "revocation_epoch" = some (standing.epoch : Int)) "approval_revocation_epoch_mismatch"
  let expires ← ttl message config.policy
  tier standing config.policy
  registered standing config.policy
  replay approval.envelope seen ctx.journal
  pure expires

def check (ctx : Ctx) (seen : List (String × String)) (approval : Approval) :
    Service (Except String (Standing × Int)) := do
  match ← standing config approval ctx.now with
  | .error code => pure (.error ("approval_" ++ code))
  | .ok standing =>
    pure ((checkMessage config ctx seen approval standing).map fun expires => (standing, expires))

def Acc.refuse (acc : Acc) (code : String) : Acc := { acc with detail := code :: acc.detail }

/-- An approval that passed its checks counts once for its custodian. -/
def Acc.count (acc : Acc) (approval : Approval) (standing : Standing) (expires : Int) : Acc :=
  let seen := (approval.envelope.kid, approval.envelope.nonce) :: acc.seen
  if standing.custodianId ∈ acc.counted.map (·.custodian) then
    { acc with seen := seen, detail := "duplicate_custodian" :: acc.detail }
  else
    { acc with
      seen := seen
      counted := ⟨standing.custodianId, standing.kid, standing.epoch, approval.envelope.nonce, expires⟩ ::
        acc.counted }

def take (ctx : Ctx) (acc : Acc) : Except String Approval → Service Acc
  | .error code => pure (acc.refuse code)
  | .ok approval => do
    match ← check config ctx acc.seen approval with
    | .ok (standing, expires) => pure (acc.count approval standing expires)
    | .error code => pure (acc.refuse code)

def takeAll (ctx : Ctx) (acc : Acc) : List Json → Service Acc
  | [] => pure acc
  | json :: rest => do
    let acc ← take config ctx acc (parseApproval config json)
    takeAll ctx acc rest

def solicitation (ctx : Ctx) : Solicitation where
  effect := ctx.request.effect
  effectDigest := ctx.request.digest
  principal := (ctx.effect.string? "principal").getD ""
  policyEpoch := config.policy.epoch
  generation := ctx.request.generation
  audience := config.authorityAudience

def solicitAll (ctx : Ctx) (k : Nat) (acc : Acc) : List String → Service Acc
  | [] => pure acc
  | approver :: rest =>
    if k ≤ acc.counted.length then pure acc
    else do
      match ← Service.solicit approver (solicitation config ctx) with
      | .ok (envelope, message) =>
        let acc ← take config ctx acc (.ok ⟨envelope, message⟩)
        solicitAll ctx k acc rest
      | .error code => solicitAll ctx k (acc.refuse ("channel_" ++ code)) rest

/-- The registered approvers that do not count yet are asked, in their order. -/
def solicit (ctx : Ctx) (k : Nat) (acc : Acc) : Service Acc :=
  if config.channel then
    solicitAll config ctx k acc
      (config.policy.approvers.filter fun approver => approver ∉ acc.counted.map (·.custodian))
  else pure acc

def gatherApprovals (ctx : Ctx) (k : Nat) : Service (Except Refusal (List Counted)) :=
  if k = 0 then pure (.ok [])
  else do
    let acc ← takeAll config ctx {} ctx.request.approvals
    let acc ← (if acc.counted.length < k then solicit config ctx k acc else pure acc : Service Acc)
    if k ≤ acc.counted.length then pure (.ok acc.counted)
    else pure (.error ⟨"insufficient_approvals", acc.detail.reverse⟩)

/-! ## Minting -/

/-- What the certificate says: the fields of its signed message. -/
structure Fields where
  alg : String
  kid : String
  effectDigest : String
  principal : String
  policyEpoch : Nat
  revocationEpoch : Nat
  generation : Nat
  nonce : String
  notBefore : Int
  expires : Int
  audience : String
  deriving Repr, DecidableEq

def Fields.json (fields : Fields) : Json :=
  .object [("v", .int 1), ("alg", .string fields.alg), ("kid", .string fields.kid),
    ("effect_digest", .string fields.effectDigest), ("principal", .string fields.principal),
    ("policy_epoch", .int fields.policyEpoch), ("revocation_epoch", .int fields.revocationEpoch),
    ("generation", .int fields.generation), ("nonce", .string fields.nonce),
    ("not_before", .int fields.notBefore), ("expires", .int fields.expires),
    ("audience", .string fields.audience)]

/-- What the caller gets. -/
structure Certificate where
  envelope : Envelope
  /-- In base64. -/
  message : String
  deriving Repr, DecidableEq

/-- A certificate with what it was made from. -/
structure Issuance where
  fields : Fields
  counted : List Counted
  certificate : Certificate
  deriving Repr, DecidableEq

def freshNonce (journal : Journal) (draws : List Bytes) : Option String :=
  (draws.map Base64.encode).find? fun nonce => ¬ journal.nonceSeen nonce

/-- Each counted approver is looked up again, and has to be active at the epoch it was
verified at. -/
def stillStanding : List Counted → Service Bool
  | [] => pure true
  | counted :: rest => do
    let view ← Service.registry
    if (view.keys counted.kid).any fun key =>
        key.state = .active ∧ key.revocationEpoch = counted.epoch then
      stillStanding rest
    else pure false

def fieldsOf (ctx : Ctx) (k : Nat) (counted : List Counted) (nonce : String) : Fields where
  alg := config.serviceKey.alg
  kid := config.serviceKey.kid
  effectDigest := ctx.request.digest
  principal := (ctx.effect.string? "principal").getD ""
  policyEpoch := config.policy.epoch
  revocationEpoch := config.serviceKey.revocationEpoch
  generation := ctx.request.generation
  nonce := nonce
  notBefore := ctx.now
  expires := (counted.map (·.expires)).foldl min
    (ctx.now + if k = 0 then config.policy.automatedTtl else config.policy.humanTtl)
  audience := ctx.request.audience

def bodyOf (fields : Fields) (counted : List Counted) : Body where
  certKid := fields.kid
  nonce := fields.nonce
  effectDigest := fields.effectDigest
  generation := fields.generation
  audience := fields.audience
  expires := fields.expires
  approvals := counted.map fun approval => (approval.kid, approval.nonce)

def envelopeOf (fields : Fields) (bytes signature : Bytes) : Envelope where
  v := 1
  alg := fields.alg
  kid := fields.kid
  profile := some .classical
  signedBytesDigest := config.host.digest bytes
  signature := signature
  nonce := fields.nonce
  notBefore := fields.notBefore
  expires := fields.expires
  audience := fields.audience

/-- The line is on the disk before the message is signed: what stops here burns the nonce. -/
def mint (ctx : Ctx) (k : Nat) (counted : List Counted) :
    Service (Except Refusal (Issuance × Journal)) := do
  match freshNonce ctx.journal (← Service.strongRandBytes) with
  | none => Service.raise
  | some nonce =>
    let fields := fieldsOf config ctx k counted nonce
    match SignedMessage.build config.host.library fields.json with
    | .error _ => pure (.error ⟨"sign_failed", []⟩)
    | .ok bytes =>
      if ← stillStanding counted then
        match ← ctx.journal.append config.host (bodyOf fields counted) with
        | none => pure (.error ⟨"journal_failed", []⟩)
        | some after =>
          match ← Service.sign fields.alg bytes with
          | .error _ => pure (.error ⟨"sign_failed", []⟩)
          | .ok signature =>
            let envelope := envelopeOf config fields bytes signature
            match envelope.encode config.host.library with
            | none => Service.raise
            | some _ => pure (.ok (⟨fields, counted, envelope, Base64.encode bytes⟩, after))
      else pure (.error ⟨"approver_revoked_during_issuance", []⟩)

/-! ## The server -/

def doIssue (journal : Journal) (json : Json) (now : Int) : Service (Except Refusal (Issuance × Journal)) :=
  match admission config journal json with
  | .error code => pure (.error ⟨code, []⟩)
  | .ok (request, effect, k) => do
    let ctx : Ctx := ⟨request, effect, now, journal⟩
    match ← gatherApprovals config ctx k with
    | .error refusal => pure (.error refusal)
    | .ok counted => mint config ctx k counted

/-- A request, with the time its caller gives it. -/
structure Call where
  request : Json
  now : Option Int := none

abbrev Answer := Except Refusal Issuance

def handle (call : Call) (journal : Journal) : Service (Answer × Option Journal) := do
  let now ← (call.now.elim Service.clock pure : Service Int)
  let _ ← Service.registry
  match ← doIssue config journal call.request now with
  | .ok (issuance, after) => pure (.ok issuance, some after)
  | .error refusal =>
    -- the file may be ahead of the state
    if refusal.code = "journal_failed" then pure (.error refusal, none)
    else pure (.error refusal, some journal)

def init : Service (Option Journal) := do
  match ← Journal.open config.host with
  | .ok journal => pure (some journal)
  | .error _ => pure none

def server : Server machine Journal Call Answer where
  boot := init config
  handle := handle config
  survives := Disk.Survives

end AshA2A.AuthorityService.Issuer
