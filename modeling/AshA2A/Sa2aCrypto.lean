import AshA2A.Sa2aCrypto.SignedMessage

/-! The standing of a signature: it verified under an active key of a custodian that the
registry knows. It authorizes nothing. -/

namespace AshA2A.Sa2aCrypto

inductive Profile where
  | classical | hybrid | pqc
  deriving Repr, DecidableEq

namespace Suite

def classical : List String := ["ES256", "EdDSA"]

def pqc : List String :=
  ["ML-DSA-44", "ML-DSA-65", "ML-DSA-87", "SLH-DSA-SHA2-128S", "SLH-DSA-SHA2-128F",
    "SLH-DSA-SHA2-192S", "SLH-DSA-SHA2-192F", "SLH-DSA-SHA2-256S", "SLH-DSA-SHA2-256F",
    "SLH-DSA-SHAKE-128S", "SLH-DSA-SHAKE-128F", "SLH-DSA-SHAKE-192S", "SLH-DSA-SHAKE-192F",
    "SLH-DSA-SHAKE-256S", "SLH-DSA-SHAKE-256F"]

/-- A classical and a post-quantum suite, joined by a plus sign. -/
def hybrid : List String := classical.flatMap fun first => pqc.map fun second => first ++ "+" ++ second

def profileOf (alg : String) : Option Profile :=
  if alg ∈ classical then some .classical
  else if alg ∈ pqc then some .pqc
  else if alg ∈ hybrid then some .hybrid
  else none

def rank : Profile → Nat
  | .classical => 0
  | .hybrid => 1
  | .pqc => 2

def satisfies (given required : Profile) : Bool := rank required ≤ rank given

end Suite

inductive PublicKey where
  | single (bytes : Bytes)
  | hybrid (classical pqc : Bytes)
  deriving Repr, DecidableEq

inductive KeyState where
  | preActivation | active | suspended | deactivated | compromised | destroyed
  deriving Repr, DecidableEq

def KeyState.name : KeyState → String
  | .preActivation => "pre_activation"
  | .active => "active"
  | .suspended => "suspended"
  | .deactivated => "deactivated"
  | .compromised => "compromised"
  | .destroyed => "destroyed"

inductive Tier where
  | i1 | i2 | i3 | i4
  deriving Repr, DecidableEq

structure KeyRecord where
  kid : String
  alg : String
  publicKey : PublicKey
  custodianId : String
  custodyTier : Tier
  state : KeyState
  revocationEpoch : Nat := 0
  notAfter : Option Int := none
  deriving Repr, DecidableEq

/-- A read-only view. -/
abbrev Registry := String → Option KeyRecord

structure Envelope where
  v : Int
  alg : String
  kid : String
  /-- Absent only where the algorithm is none of the suites. -/
  profile : Option Profile
  signedBytesDigest : String
  signature : Bytes
  nonce : String
  notBefore : Int
  expires : Int
  audience : String
  deriving Repr, DecidableEq

/-- What is not code of this repository: hashing, signature verification, the JSON library,
and the identity of a key, which is a hash of its standard form. -/
structure Host where
  library : Json.Library
  sha256 : Bytes → String
  kidOf : String → PublicKey → Option String
  supports : String → Bool
  verify : String → Bytes → Bytes → PublicKey → Except String Unit

/-- `sha256:<hex>` of the bytes. -/
def Host.digest (host : Host) (bytes : Bytes) : String := "sha256:" ++ host.sha256 bytes

structure Standing where
  kid : String
  custodianId : String
  tier : Tier
  epoch : Nat
  deriving Repr, DecidableEq

structure Options where
  now : Int
  audience : Option String
  requiredProfile : Profile := .classical
  allowedAlgs : Option (List String) := none

def Envelope.keys : List String :=
  ["v", "alg", "kid", "profile", "signed_bytes_digest", "signature", "nonce", "not_before", "expires",
    "audience"]

def Profile.ofName : String → Option Profile
  | "classical" => some .classical
  | "hybrid" => some .hybrid
  | "pqc" => some .pqc
  | _ => none

/-- `Envelope.from_map/1` of a decoded object, with the signature decoded. -/
def Envelope.fromMap (json : Json) : Option Envelope :=
  if json.hasKeys Envelope.keys then do
    let profile ← (json.string? "profile").bind Profile.ofName
    let v ← json.int? "v"
    let alg ← json.string? "alg"
    let kid ← json.string? "kid"
    let signedBytesDigest ← json.string? "signed_bytes_digest"
    let signature ← (json.string? "signature").bind b64
    let nonce ← json.string? "nonce"
    let notBefore ← json.int? "not_before"
    let expires ← json.int? "expires"
    let audience ← json.string? "audience"
    pure ⟨v, alg, kid, some profile, signedBytesDigest, signature, nonce, notBefore, expires, audience⟩
  else none

/-- `Envelope.decode/1`: canonical text only. -/
def Envelope.decode (library : Json.Library) (bytes : Bytes) : Option Envelope :=
  (library.canonical bytes).bind Envelope.fromMap

def Profile.name : Profile → String
  | .classical => "classical"
  | .hybrid => "hybrid"
  | .pqc => "pqc"

def Envelope.json (envelope : Envelope) : Json :=
  .object [("v", .int envelope.v), ("alg", .string envelope.alg), ("kid", .string envelope.kid),
    ("profile", (envelope.profile.map fun profile => .string profile.name).getD .null),
    ("signed_bytes_digest", .string envelope.signedBytesDigest),
    ("signature", .string (Base64.encode envelope.signature)), ("nonce", .string envelope.nonce),
    ("not_before", .int envelope.notBefore), ("expires", .int envelope.expires),
    ("audience", .string envelope.audience)]

/-- `Envelope.encode/1`. -/
def Envelope.encode (library : Json.Library) (envelope : Envelope) : Option Bytes :=
  library.encode envelope.json

def allowed (alg : String) (opts : Options) : Except String Unit :=
  if Suite.profileOf alg = none then .error "unsupported_algorithm"
  else match opts.allowedAlgs with
    | some algs => if alg ∈ algs then .ok () else .error "unsupported_algorithm"
    | none => .ok ()

def profile (envelope : Envelope) (required : Profile) : Except String Unit :=
  if Suite.profileOf envelope.alg ≠ envelope.profile then .error "profile_mismatch"
  else if envelope.profile.any (Suite.satisfies · required) then .ok ()
  else .error "profile_downgrade"

variable (host : Host)

def providerReady (alg : String) : Except String Unit :=
  if host.supports alg then .ok () else .error "unsupported_suite"

def lookup (registry : Registry) (kid : String) : Except String KeyRecord :=
  match registry kid with
  | some key => .ok key
  | none => .error "unknown_kid"

def keyUsable (key : KeyRecord) (envelope : Envelope) (now : Int) : Except String Unit :=
  if key.state ≠ .active then .error ("key_" ++ key.state.name)
  else if key.notAfter.any (· < now) then .error "key_expired"
  else if key.alg ≠ envelope.alg then .error "alg_mismatch"
  else if host.kidOf key.alg key.publicKey ≠ some envelope.kid then .error "kid_key_mismatch"
  else .ok ()

def audience (envelope : Envelope) (opts : Options) : Except String Unit :=
  match opts.audience with
  | some audience => if envelope.audience = audience then .ok () else .error "wrong_audience"
  | none => .error "audience_required"

def window (envelope : Envelope) (now : Int) : Except String Unit :=
  if envelope.expires ≤ envelope.notBefore then .error "malformed_envelope"
  else if now < envelope.notBefore then .error "not_yet_valid"
  else if envelope.expires ≤ now then .error "expired"
  else .ok ()

def fieldsBound (message : Json) (envelope : Envelope) : Bool :=
  message.int? "v" = some envelope.v && message.string? "alg" = some envelope.alg &&
    message.string? "kid" = some envelope.kid && message.string? "nonce" = some envelope.nonce &&
    message.int? "not_before" = some envelope.notBefore && message.int? "expires" = some envelope.expires &&
    message.string? "audience" = some envelope.audience

/-- The fields of the envelope are the ones in the signed bytes, and the digest is of them. -/
def binds (envelope : Envelope) (bytes : Bytes) : Except String Unit :=
  if host.digest bytes ≠ envelope.signedBytesDigest then .error "digest_mismatch"
  else do
    let message ← SignedMessage.parse host.library bytes
    if fieldsBound message envelope then .ok () else .error "message_envelope_mismatch"

def signature (alg : String) (bytes signature : Bytes) (key : PublicKey) : Except String Unit :=
  match host.verify alg bytes signature key with
  | .ok () => .ok ()
  | .error "provider_required" => .error "unsupported_suite"
  | .error code => .error code

def verifyEnvelope (envelope : Envelope) (bytes : Bytes) (registry : Registry) (opts : Options) :
    Except String Standing := do
  allowed envelope.alg opts
  profile envelope opts.requiredProfile
  providerReady host envelope.alg
  let key ← lookup registry envelope.kid
  keyUsable host key envelope opts.now
  audience envelope opts
  window envelope opts.now
  binds host envelope bytes
  signature host envelope.alg bytes envelope.signature key.publicKey
  pure ⟨key.kid, key.custodianId, key.custodyTier, key.revocationEpoch⟩

end AshA2A.Sa2aCrypto
