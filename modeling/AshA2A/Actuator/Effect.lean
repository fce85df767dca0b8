import AshA2A.Sa2aCrypto
import AshA2A.Term

/-! What the actuator is asked to do, and the certificate that asks for it. -/

namespace AshA2A.Actuator

open Sa2aCrypto

def maxInt : Nat := 9007199254740991

/-! ## Effectors -/

/-- The closed registry. -/
inductive Effector where
  | ledgerAppend | noopProbe
  deriving Repr, DecidableEq

namespace Effector

def fetch : String → Option Effector
  | "ledger_append" => some .ledgerAppend
  | "noop_probe" => some .noopProbe
  | _ => none

def capability : Effector → String
  | .ledgerAppend => "actuator.ledger.append"
  | .noopProbe => "actuator.noop.probe"

def consequenceClass : Effector → String
  | .ledgerAppend => "internal_append"
  | .noopProbe => "none"

def maxBytes : Effector → Nat
  | .ledgerAppend => 4096
  | .noopProbe => 0

def validateParams (params : Json) : Effector → Bool
  | .ledgerAppend => params.hasKeys ["entry"] && (params.string? "entry").any (· ≠ "")
  | .noopProbe => params.entries.isEmpty

def size (params : Json) : Effector → Nat
  | .ledgerAppend => ((params.string? "entry").map String.utf8ByteSize).getD 0
  | .noopProbe => 0

end Effector

/-! ## Effects -/

structure Effect where
  v : Nat
  principal : String
  subject : String
  capability : String
  consequenceClass : String
  effectType : String
  effectInstanceId : String
  /-- `resource_bounds["max_bytes"]`, its only key. -/
  maxBytes : Nat
  policyEpoch : Nat
  params : Json

namespace Effect

def keys : List String :=
  ["v", "principal", "subject", "capability", "consequence_class", "effect_type", "effect_instance_id",
    "resource_bounds", "policy_epoch", "params"]

def maxBytesOfEffect : Nat := 16384

mutual

/-- No float at any depth, and every integer within the range. -/
def noFloats : Json → Bool
  | .float _ => false
  | .int value => value.natAbs ≤ maxInt
  | .array items => noFloatsItems items
  | .object entries => noFloatsEntries entries
  | _ => true

def noFloatsItems : List Json → Bool
  | [] => true
  | item :: items => noFloats item && noFloatsItems items

def noFloatsEntries : List (String × Json) → Bool
  | [] => true
  | (_, value) :: entries => noFloats value && noFloatsEntries entries

end

/-- A non-empty string of at most 256 bytes. -/
def text (json : Json) (key : String) : Option String :=
  (json.string? key).filter fun text => text ≠ "" ∧ text.utf8ByteSize ≤ 256

def bounds (json : Json) : Option Nat :=
  (json.get? "resource_bounds").bind fun bounds =>
    if bounds.hasKeys ["max_bytes"] then bounds.nat? "max_bytes" else none

def paramsOf (json : Json) : Option Json :=
  match json.get? "params" with
  | some (.object entries) => some (.object entries)
  | _ => none

/-- The total schema. -/
def shape (json : Json) : Option Effect :=
  if json.hasKeys keys then do
    let v ← json.nat? "v"
    let policyEpoch ← json.nat? "policy_epoch"
    let principal ← text json "principal"
    let subject ← text json "subject"
    let capability ← text json "capability"
    let consequenceClass ← text json "consequence_class"
    let effectType ← text json "effect_type"
    let effectInstanceId ← text json "effect_instance_id"
    let maxBytes ← bounds json
    let params ← paramsOf json
    pure ⟨v, principal, subject, capability, consequenceClass, effectType, effectInstanceId, maxBytes,
      policyEpoch, params⟩
  else none

def decode (library : Json.Library) (bytes : Bytes) : Except String Effect :=
  if maxBytesOfEffect < bytes.length then .error "malformed_effect"
  else match library.plain bytes with
    | some (.object entries) =>
      if library.encode (.object entries) ≠ some bytes then .error "non_canonical_effect"
      else if noFloats (.object entries) = false then .error "malformed_effect"
      else match shape (.object entries) with
        | none => .error "malformed_effect"
        | some effect =>
          match Effector.fetch effect.effectType with
          | none => .error "unknown_effect_type"
          | some effector =>
            if effector.validateParams effect.params then .ok effect else .error "malformed_effect"
    | _ => .error "malformed_effect"

end Effect

/-! ## Certificates -/

structure Signature where
  kid : String
  alg : String
  nonce : String
  signature : Bytes
  deriving Repr, DecidableEq

structure Certificate where
  v : Nat
  effectDigest : String
  principal : String
  policyEpoch : Nat
  revocationEpoch : Nat
  generation : Nat
  notBefore : Nat
  expires : Nat
  audience : String
  signatures : List Signature
  deriving Repr, DecidableEq

namespace Certificate

def keys : List String :=
  ["v", "effect_digest", "principal", "policy_epoch", "revocation_epoch", "generation", "not_before",
    "expires", "audience", "signatures"]

def signatureKeys : List String := ["kid", "alg", "nonce", "signature"]

def maxBytes : Nat := 65536

def maxSignatures : Nat := 8

def number (json : Json) (key : String) : Option Nat := (json.nat? key).filter (· ≤ maxInt)

def text (json : Json) (key : String) : Option String := (json.string? key).filter (· ≠ "")

/-- `sha256:` and 64 lower-case hexadecimal digits. -/
def isDigest (text : String) : Bool :=
  let digits := text.toList.drop 7
  text.toList.take 7 = "sha256:".toList && digits.length = 64 &&
    digits.all fun digit => digit ∈ "0123456789abcdef".toList

def signatureOf (json : Json) : Option Signature :=
  if json.hasKeys signatureKeys then do
    let kid ← text json "kid"
    let alg ← text json "alg"
    let nonce ← text json "nonce"
    let signature ← (json.string? "signature").bind b64
    pure ⟨kid, alg, nonce, signature⟩
  else none

def signaturesOf (json : Json) : Option (List Signature) :=
  match json.get? "signatures" with
  | some (.array items) =>
    if items ≠ [] ∧ items.length ≤ maxSignatures then items.mapM signatureOf else none
  | _ => none

def shape (json : Json) : Option Certificate :=
  if json.hasKeys keys then do
    let v ← number json "v"
    let policyEpoch ← number json "policy_epoch"
    let revocationEpoch ← number json "revocation_epoch"
    let generation ← number json "generation"
    let notBefore ← number json "not_before"
    let expires ← number json "expires"
    let effectDigest ← (text json "effect_digest").filter isDigest
    let principal ← text json "principal"
    let audience ← text json "audience"
    let signatures ← signaturesOf json
    pure ⟨v, effectDigest, principal, policyEpoch, revocationEpoch, generation, notBefore, expires,
      audience, signatures⟩
  else none

def decode (library : Json.Library) (bytes : Bytes) : Except String Certificate :=
  if maxBytes < bytes.length then .error "malformed_certificate"
  else match (library.strict bytes).bind shape with
    | some certificate => .ok certificate
    | none => .error "malformed_certificate"

variable (certificate : Certificate) (signature : Signature)

/-- What one signature of the certificate is over. -/
def fields : Json :=
  .object [("v", .int certificate.v), ("alg", .string signature.alg), ("kid", .string signature.kid),
    ("effect_digest", .string certificate.effectDigest), ("principal", .string certificate.principal),
    ("policy_epoch", .int certificate.policyEpoch),
    ("revocation_epoch", .int certificate.revocationEpoch), ("generation", .int certificate.generation),
    ("nonce", .string signature.nonce), ("not_before", .int certificate.notBefore),
    ("expires", .int certificate.expires), ("audience", .string certificate.audience)]

def signedMessage (library : Json.Library) : Except String Bytes :=
  SignedMessage.build library (certificate.fields signature)

def envelope (host : Host) (bytes : Bytes) : Envelope where
  v := certificate.v
  alg := signature.alg
  kid := signature.kid
  profile := Suite.profileOf signature.alg
  signedBytesDigest := host.digest bytes
  signature := signature.signature
  nonce := signature.nonce
  notBefore := certificate.notBefore
  expires := certificate.expires
  audience := certificate.audience

end Certificate

end AshA2A.Actuator
