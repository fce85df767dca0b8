import AshA2A.Passport.Encoding
import AshA2A.Protocol.AgentCard

/-! The signatures of an agent card. The protected header of a signature, which its sender
writes, names the algorithm and the key. -/

namespace AshA2A.Protocol.CardSigning

/-! ## Keys -/

/-- The curve P-256 by its name, by its number, and any other. -/
inductive Curve where
  | secp256r1 | oid | other
  deriving Repr, DecidableEq

/-- What a caller may give as a key or as a set of keys. -/
inductive Key where
  | binary (value : Bytes)
  | map (entries : List (String × Key))
  | list (items : List Key)
  | pair (kid : String) (material : Key)
  | rsaPublicKey (n e : Nat)
  | rsaPrivateKey (n e : Nat)
  | ecPoint (point : Bytes)
  | ecPublicKey (point : Bytes) (params : Curve)
  | ecPrivateKey (params : Curve) (point : Option Bytes)
  | other
  deriving Repr

/-- The libraries; the two checks of a signature are those of a key that `:public_key` takes. -/
structure Libraries where
  /-- `Jason.decode/1`. -/
  decode : Bytes → Option Json
  /-- `Jcs.encode/1` of what a value is after a round trip through its text. -/
  canonical : Json → Option Bytes
  sha256 : Bytes → Bytes
  hmac : (key input : Bytes) → Bytes
  verifyRsa : (n e : Nat) → (input signature : Bytes) → Bool
  verifyEc : (point : Bytes) → Curve → (input signature : Bytes) → Bool
  /-- `:public_key.der_encode/2` of the two numbers of a signature. -/
  der : (r s : Nat) → Bytes
  /-- The keys of a PEM text. -/
  pem : Bytes → List Key

/-! ## Refusals -/

inductive Alg where
  | hs256 | rs256 | es256
  deriving Repr, DecidableEq

inductive Reason where
  | notAMap
  | missingMember (name : String)
  | badBase64url
  | protectedNotJson
  | protectedNotAnObject
  | missingAlg
  | missingDigest
  | unsupportedAlg (alg : String)
  | missingKey
  | missingKid
  | keyTypeMismatch (alg : Alg)
  deriving Repr, DecidableEq

/-- `raised` stands for every exception. -/
inductive Fault where
  | raised
  | noSignatures
  | malformed (index : Nat) (reason : Reason)
  | unknownKid (index : Nat) (kid : String)
  | digestMismatch (index : Nat) (expected actual : String)
  | badSignature (index : Nat)
  deriving Repr, DecidableEq

def Alg.read : String → Option Alg
  | "HS256" => some .hs256
  | "RS256" => some .rs256
  | "ES256" => some .es256
  | _ => none

def digestMember : String := "sha256"

/-! ## Key material -/

def Key.isText (text : String) : Option Key → Bool
  | some (.binary value) => value = utf8 text
  | _ => false

/-- `"-----BEGIN" <> _`. -/
def isPem (value : Bytes) : Bool := (utf8 "-----BEGIN").isPrefixOf value

/-- The letters of a base64 text are bytes of their own. -/
def b64urlDecode (value : Bytes) : Option Bytes :=
  Base64Url.decode (.ofList (value.map fun byte => .ofNat byte.toNat))

/-- `:binary.decode_unsigned/1`. -/
def decodeUnsigned (bytes : Bytes) : Nat := bytes.foldl (fun number byte => number * 256 + byte.toNat) 0

def curveParam : Curve → Option Curve
  | .secp256r1 | .oid => some .secp256r1
  | .other => none

section Material
variable (libs : Libraries)

def rsaPublicFromJwk (jwk : List (String × Key)) : Option Key :=
  match jwk.lookup "n", jwk.lookup "e" with
  | some (.binary n), some (.binary e) => do
    return .rsaPublicKey (decodeUnsigned (← b64urlDecode n)) (decodeUnsigned (← b64urlDecode e))
  | _, _ => none

def ecPublicFromJwk (jwk : List (String × Key)) : Option Key :=
  if Key.isText "P-256" (jwk.lookup "crv") then
    match jwk.lookup "x", jwk.lookup "y" with
    | some (.binary x), some (.binary y) => do
      return .ecPublicKey (0x04 :: (← b64urlDecode x) ++ (← b64urlDecode y)) .secp256r1
    | _, _ => none
  else none

/-- Nothing where the code raises, as in every function of this part. -/
def rsaPublic : Key → Option Key
  | .rsaPublicKey n e | .rsaPrivateKey n e => some (.rsaPublicKey n e)
  | .binary value =>
    if isPem value then
      match libs.pem value with
      | .rsaPublicKey n e :: _ | .rsaPrivateKey n e :: _ => some (.rsaPublicKey n e)
      | _ => none
    else none
  | .map jwk => if Key.isText "RSA" (jwk.lookup "kty") then rsaPublicFromJwk jwk else none
  | _ => none

def ecPublic : Key → Option Key
  | .ecPoint point => some (.ecPoint point)
  | .ecPublicKey point params => some (.ecPublicKey point params)
  | .ecPrivateKey params (some point) => (curveParam params).map (.ecPublicKey point)
  | .binary value =>
    if isPem value then
      match libs.pem value with
      -- The public key of a PEM text is a pair without the name of a record in front.
      | .ecPrivateKey params (some point) :: _ => (curveParam params).map (.ecPublicKey point)
      | _ => none
    else none
  | .map jwk => if Key.isText "EC" (jwk.lookup "kty") then ecPublicFromJwk jwk else none
  | _ => none

def publicMaterial : Alg → Key → Option Key
  | .rs256, material => rsaPublic libs material
  | .es256, material => ecPublic libs material
  | .hs256, material => some material

/-! ## The key of a header -/

def findKid (kid : String) : Key → Option Key
  | .map keys => if (keys.lookup "keys").isSome then none else keys.lookup kid
  | .list keys => keys.findSome? fun
    | .pair name material => if name = kid then some material else none
    | .map jwk => if Key.isText kid (jwk.lookup "kid") then some (.map jwk) else none
    | _ => none
  | _ => none

def raiseOnNone {α : Type} : Option α → Except Fault α
  | some value => .ok value
  | none => .error .raised

/-- The branch of `resolve_key/3` for a rotation set. -/
def resolveKid (header : Json) (alg : Alg) (keys : Key) (index : Nat) : Except Fault Key :=
  match header.string? "kid" with
  | none => .error (.malformed index .missingKid)
  | some kid =>
    match findKid kid keys with
    | some material => raiseOnNone (publicMaterial libs alg material)
    | none => .error (.unknownKid index kid)

def resolveKey (header : Json) (alg : Alg) (keys : Key) (index : Nat) : Except Fault Key :=
  match alg, keys with
  | .hs256, .binary secret => .ok (.binary secret)
  | .hs256, _ => .error (.malformed index .missingKey)
  | alg, .map entries =>
    if (entries.lookup "kty").isSome then raiseOnNone (publicMaterial libs alg (.map entries))
    else
      match entries.lookup "keys" with
      | some (.list items) => resolveKid libs header alg (.list items) index
      | _ => resolveKid libs header alg (.map entries) index
  | alg, .list items => resolveKid libs header alg (.list items) index
  | alg, .binary _ => .error (.malformed index (.keyTypeMismatch alg))
  | alg, material => raiseOnNone (publicMaterial libs alg material)

/-! ## Signatures -/

/-- `:public_key.verify/4`, which raises on what is no public key. -/
def publicKeyVerify (input signature : Bytes) : Key → Option Bool
  | .rsaPublicKey n e => some (libs.verifyRsa n e input signature)
  | .ecPublicKey point params => some (libs.verifyEc point params input signature)
  | _ => none

def rawToDer (raw : Bytes) : Option Bytes :=
  if raw.length = 64 then some (libs.der (decodeUnsigned (raw.take 32)) (decodeUnsigned (raw.drop 32))) else none

def signatureValid (alg : Alg) (input signature : Bytes) (key : Key) : Option Bool :=
  match alg, key with
  | .hs256, .binary secret => some (libs.hmac secret input = signature)
  | .hs256, _ => some false
  | .rs256, key => (publicMaterial libs .rs256 key).bind (publicKeyVerify libs input signature)
  | .es256, key =>
    match rawToDer libs signature with
    | some der => (publicMaterial libs .es256 key).bind (publicKeyVerify libs input der)
    | none => some false

/-- What the members of a signature say, before any key is looked at. -/
structure Presented where
  protectedB64 : String
  header : Json
  alg : Alg
  digest : String
  signature : Bytes
  deriving Repr

def stringMember (entry : Json) (name : String) : Except Reason String :=
  match entry.string? name with
  | some text => .ok text
  | none => .error (.missingMember name)

def urlDecode64 (text : String) : Except Reason Bytes :=
  match Base64Url.decode text with
  | some bytes => .ok bytes
  | none => .error .badBase64url

/-- The header, its algorithm's name and its digest. -/
def decodeShape (protectedJson : Bytes) : Except Reason (Json × String × String) :=
  match libs.decode protectedJson with
  | none => .error .protectedNotJson
  | some header =>
    if header.isObject then
      match header.string? "alg", header.string? digestMember with
      | none, _ => .error .missingAlg
      | some _, none => .error .missingDigest
      | some alg, some digest => .ok (header, alg, digest)
    else .error .protectedNotAnObject

def checkAlg (alg : String) : Except Reason Alg :=
  match Alg.read alg with
  | some alg => .ok alg
  | none => .error (.unsupportedAlg alg)

/-- The first steps of `verify_entry/5`. -/
def present (entry : Json) : Except Reason Presented :=
  match entry with
  | .object _ => do
    let protectedB64 ← stringMember entry "protected"
    let signatureB64 ← stringMember entry "signature"
    let protectedJson ← urlDecode64 protectedB64
    let (header, alg, digest) ← decodeShape libs protectedJson
    let signature ← urlDecode64 signatureB64
    return ⟨protectedB64, header, ← checkAlg alg, digest, signature⟩
  | _ => .error .notAMap

/-- The header, a full stop and the canonical card. -/
def signingInput (protectedB64 : String) (jcsBytes : Bytes) : Bytes := utf8 protectedB64 ++ 0x2e :: jcsBytes

def sha256Hex (bytes : Bytes) : String := Base16.encode (libs.sha256 bytes)

def verifyEntry (keys : Key) (jcsBytes : Bytes) (entry : Json) (index : Nat) : Except Fault Unit := do
  let shown ← (present libs entry).mapError (.malformed index)
  let key ← resolveKey libs shown.header shown.alg keys index
  if shown.digest ≠ sha256Hex libs jcsBytes then
    .error (.digestMismatch index shown.digest (sha256Hex libs jcsBytes))
  else
    match signatureValid libs shown.alg (signingInput shown.protectedB64 jcsBytes) shown.signature key with
    | some true => .ok ()
    | some false => .error (.badSignature index)
    | none => .error .raised

/-! ## Cards -/

/-- Without a `:url` option. -/
def wireUrl (card : AgentCard) : Json :=
  match AgentCard.truthy (some card.url) with
  | some url => url
  | none =>
    match AgentCard.preferredInterfaceUrl card.supportedInterfaces with
    | .string url => .string url
    | _ => .string ""

def jcsBytes (card : AgentCard) : Except Fault Bytes :=
  match AgentCard.encodeAgentCard { card with url := wireUrl card } with
  | .ok wire => raiseOnNone (libs.canonical (wire.without "signatures"))
  | .error _ => .error .raised

def verify (card : AgentCard) (keys : Key) : Except Fault Unit :=
  match card.signatures with
  | .array [] => .error .noSignatures
  | .array entries => do
    let bytes ← jcsBytes libs card
    entries.zipIdx.forM fun (entry, index) => verifyEntry libs keys bytes entry index
  | .object entries => do
    -- A map is gone through as its pairs, and none of them is a map.
    let _ ← jcsBytes libs card
    match entries with
    | [] => .ok ()
    | _ => .error (.malformed 0 .notAMap)
  | _ => .error .raised

end Material

end AshA2A.Protocol.CardSigning
