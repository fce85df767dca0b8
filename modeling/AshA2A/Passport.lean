import AshA2A.Passport.Encoding
import AshA2A.Passport.Merkle
import AshA2A.Protocol.AgentCard
import AshA2A.Protocol.CardSigning

/-! The signed identity document of an agent. The bytes that a signature covers are computed
again from the document that was read. -/

namespace AshA2A.Passport

open Json (record)
open Protocol Sa2aCrypto
open AgentCard (unlessNil)

/-- The libraries of the passport, and the clock's texts. -/
structure Host where
  /-- `Jason.encode!/1`. -/
  print : Json → Bytes
  /-- Every entry of an object is kept. -/
  decode : Bytes → Option Json
  /-- `Jcs.encode/1`. -/
  canonical : Json → Bytes
  sha256 : Bytes → Bytes
  hmac : Bytes → Bytes → Bytes
  toIso8601 : Int → String
  fromIso8601 : String → Option Int

/-- `Jason.decode/1`. -/
def Host.plain (host : Host) (bytes : Bytes) : Option Json := (host.decode bytes).map Json.lastWins

/-! ## Refusals -/

inductive EntryFault where
  | notAMap
  | missingMember (name : String)
  | badBase64url
  | protectedNotJson
  | protectedNotAnObject
  | missingAlg
  | missingDigest
  | unsupportedAlg
  deriving Repr, DecidableEq

inductive Kind where
  | attestation | evidence
  deriving Repr, DecidableEq

/-- The entry that no longer hashes to its signed leaf, and the path of that leaf. -/
structure Mutation where
  kind : Kind
  index : Nat
  position : Nat
  entryId : Json
  leaf : String
  signedLeaf : Json
  proof : List Merkle.Step
  root : Json
  deriving Repr

/-- `raised` stands for every exception but those of the arguments of `issue/4`. -/
inductive Fault where
  | raised
  | argument (option : String)
  | notJson
  | notAMap
  | missingMember (name : String)
  | badMember (name : String)
  | badSubject (fault : AgentCard.Fault)
  | noSignatures
  | entry (index : Nat) (reason : EntryFault)
  | capabilityMutated (detail : Mutation)
  | merkleRootMismatch (expected actual : String)
  | merkleEmpty
  | expired (expiresAt now : String)
  | digestMismatch (index : Nat) (expected actual : String)
  | badSignature (index : Nat)
  deriving Repr

structure Document where
  id : String
  issuer : String
  subject : AgentCard
  attestations : List Json
  evidence : List Json
  merkle : Json
  issuedAt : String
  /-- A text, or `nil`; what is read may be anything. -/
  expiresAt : Json := .null
  signatures : Json := .array []
  deriving Repr

def alg : String := "HS256"

def typ : String := "a2a-passport"

def digestMember : String := "sha256"

variable (host : Host)

def roundTrip (json : Json) : Except Fault Json :=
  match host.plain (host.print json) with
  | some value => .ok value
  | none => .error .raised

def sha256Hex (bytes : Bytes) : String := Base16.encode (host.sha256 bytes)

/-! ## Leaves and canonical bytes -/

def leafHash (entry : Json) : Except Fault Bytes := do
  return Merkle.leaf host.sha256 (host.canonical (← roundTrip host entry))

/-- Attestations first. -/
def leafHashes (attestations evidence : List Json) : Except Fault (List Bytes) := do
  return (← attestations.mapM (leafHash host)) ++ (← evidence.mapM (leafHash host))

def subjectWire (card : AgentCard) : Except Fault Json :=
  match AgentCard.encodeAgentCard card with
  | .ok wire => roundTrip host wire
  | .error _ => .error .raised

def toWire (passport : Document) : Except Fault Json := do
  let subject ← subjectWire host passport.subject
  let attestations ← passport.attestations.mapM (roundTrip host)
  let evidence ← passport.evidence.mapM (roundTrip host)
  return record
    [("id", some (.string passport.id)), ("issuer", some (.string passport.issuer)), ("subject", some subject),
      ("attestations", some (.array attestations)), ("evidence", some (.array evidence)),
      ("merkle", some passport.merkle), ("issuedAt", some (.string passport.issuedAt)),
      ("expiresAt", unlessNil passport.expiresAt), ("signatures", some passport.signatures)]

def toJson (passport : Document) : Except Fault Bytes := do
  return host.print (← toWire host passport)

def canonicalBytes (passport : Document) : Except Fault Bytes := do
  let wire ← toWire host passport
  return host.canonical (← roundTrip host (wire.without "signatures"))

/-! ## Issuance -/

/-- The header, a full stop and the canonical document. -/
def signingInput (protectedB64 : String) (bytes : Bytes) : Bytes := utf8 protectedB64 ++ 0x2e :: bytes

def protectedHeader (digest : String) : Bytes :=
  host.print (.object [("alg", .string alg), ("typ", .string typ), (digestMember, .string digest)])

def sign (passport : Document) (key : Bytes) : Except Fault Document := do
  let bytes ← canonicalBytes host passport
  let protectedB64 := Base64.encode (protectedHeader host (sha256Hex host bytes))
  let signature := host.hmac key (signingInput protectedB64 bytes)
  let entry := .object
    [("protected", .string protectedB64), ("header", .object [("alg", .string alg), ("typ", .string typ)]),
      ("signature", .string (Base64.encode signature))]
  match passport.signatures with
  | .array entries => return { passport with signatures := .array (entries ++ [entry]) }
  | _ => .error .raised

structure Options where
  key : Bytes
  issuer : String
  now : Int
  expiresAt : Option Int := none
  id : Option String := none
  /-- Drawn for an id that is not given. -/
  strongRandBytes : Bytes := []

def expiresOpt (opts : Options) : Except Fault Json :=
  match opts.expiresAt with
  | none => .ok .null
  | some expiry =>
    if expiry ≤ opts.now then .error (.argument "expires_at") else .ok (.string (host.toIso8601 expiry))

def requiredIssuer (opts : Options) : Except Fault String :=
  if opts.issuer = "" then .error (.argument "issuer") else .ok opts.issuer

def checkEntries (entries : List Json) (kind : Kind) : Except Fault Unit :=
  if entries.all Json.isObject ∧ (kind = .evidence ∨ entries ≠ []) then .ok ()
  else .error (.argument (match kind with | .attestation => "attestations" | .evidence => "evidence"))

def merkleRoot (leaves : List Bytes) : Except Fault Bytes :=
  match Merkle.root host.sha256 leaves with
  | some root => .ok root
  | none => .error .raised

def issue (card : AgentCard) (attestations evidence : List Json) (opts : Options) : Except Fault Document := do
  let issuer ← requiredIssuer opts
  let expiresAt ← expiresOpt host opts
  checkEntries attestations .attestation
  checkEntries evidence .evidence
  let leaves ← leafHashes host attestations evidence
  let root ← merkleRoot host leaves
  let attestations ← attestations.mapM (roundTrip host)
  let evidence ← evidence.mapM (roundTrip host)
  sign host {
    id := opts.id.getD ("urn:ash-a2a:passport:" ++ Base16.encode opts.strongRandBytes)
    issuer, attestations, evidence, expiresAt
    subject := card
    merkle := .object [("root", .string (Base16.encode root)),
      ("leaves", .array (leaves.map fun leaf => .string (Base16.encode leaf)))]
    issuedAt := host.toIso8601 opts.now } opts.key

/-! ## Verification -/

def checkStructure (passport : Document) : Except Fault Unit :=
  if passport.id = "" then .error (.badMember "id")
  else if passport.issuer = "" then .error (.badMember "issuer")
  else if ¬ (passport.attestations ≠ [] ∧ passport.attestations.all Json.isObject) then
    .error (.badMember "attestations")
  else if ¬ passport.evidence.all Json.isObject then .error (.badMember "evidence")
  else .ok ()

def signedLeaves (merkle : Json) : List Json :=
  match merkle.get? "leaves" with
  | some (.array leaves) => leaves
  | _ => []

/-- `Base.decode16!(leaf, case: :mixed)`. -/
def decodeLeaf : Json → Except Fault Bytes
  | .string text =>
    match Base16.decode text with
    | some leaf => .ok leaf
    | none => .error .raised
  | _ => .error .raised

def leafProof (leaves : List Bytes) (position : Nat) : Except Fault (List Merkle.Step) :=
  match Merkle.proof host.sha256 leaves position with
  | .ok proof => .ok proof
  | .error _ => .error .raised

def mutationDetail (passport : Document) (position : Nat) (signed : Json) (current : Bytes) :
    Except Fault Mutation := do
  let leaves ← (signedLeaves passport.merkle).mapM decodeLeaf
  let proof ← leafProof host leaves position
  let count := passport.attestations.length
  let (kind, index) := if position < count then (Kind.attestation, position) else (.evidence, position - count)
  let entry := match kind with
    | .attestation => passport.attestations[index]?
    | .evidence => passport.evidence[index]?
  return {
    kind, index, position, proof
    entryId := (entry.bind fun entry => entry.get? "id").getD .null
    leaf := Base16.encode current
    signedLeaf := signed
    root := (passport.merkle.get? "root").getD .null }

/-- The comparison raises where the sizes differ. -/
def checkLeaf (passport : Document) (current : List Bytes) (signed : Json) (position : Nat) : Except Fault Unit := do
  let leaf ← decodeLeaf signed
  match current[position]? with
  | some now =>
    if leaf.length ≠ now.length then .error .raised
    else if leaf = now then .ok ()
    else .error (.capabilityMutated (← mutationDetail host passport position signed now))
  | none => .error (.capabilityMutated (← mutationDetail host passport position signed []))

def checkMerkleLeaves (passport : Document) : Except Fault Unit := do
  let current ← leafHashes host passport.attestations passport.evidence
  (signedLeaves passport.merkle).zipIdx.forM fun (signed, position) => checkLeaf host passport current signed position

def checkMerkleRoot (passport : Document) : Except Fault Unit := do
  let leaves ← (signedLeaves passport.merkle).mapM decodeLeaf
  match Merkle.root host.sha256 leaves, passport.merkle.get? "root" with
  | none, _ => .error .merkleEmpty
  | some root, some (.string expected) =>
    if Base16.encode root = expected.toLower then .ok ()
    else .error (.merkleRootMismatch expected (Base16.encode root))
  | some _, _ => .error .raised

/-- A text that is no instant matches no clause. -/
def checkExpiry (passport : Document) (now : Int) : Except Fault Unit :=
  match passport.expiresAt with
  | .null => .ok ()
  | .string expiresAt =>
    match host.fromIso8601 expiresAt with
    | some expiry => if expiry < now then .error (.expired expiresAt (host.toIso8601 now)) else .ok ()
    | none => .error .raised
  | _ => .error .raised

def stringSigMember (entry : Json) (name : String) (index : Nat) : Except Fault String :=
  match entry.string? name with
  | some text => .ok text
  | none => .error (.entry index (.missingMember name))

def b64urlDecode (text : String) (index : Nat) : Except Fault Bytes :=
  match Base64Url.decode text with
  | some bytes => .ok bytes
  | none => .error (.entry index .badBase64url)

/-- The algorithm and the digest that the header names. -/
def decodeProtected (json : Bytes) (index : Nat) : Except Fault (String × String) :=
  match host.plain json with
  | none => .error (.entry index .protectedNotJson)
  | some header =>
    if header.isObject then
      match header.string? "alg", header.string? digestMember with
      | none, _ => .error (.entry index .missingAlg)
      | some _, none => .error (.entry index .missingDigest)
      | some named, some digest => .ok (named, digest)
    else .error (.entry index .protectedNotAnObject)

def verifyEntry (key bytes : Bytes) (digest : String) (entry : Json) (index : Nat) : Except Fault Unit :=
  match entry with
  | .object _ => do
    let protectedB64 ← stringSigMember entry "protected" index
    let signatureB64 ← stringSigMember entry "signature" index
    let protectedJson ← b64urlDecode protectedB64 index
    let (named, claimed) ← decodeProtected host protectedJson index
    let signature ← b64urlDecode signatureB64 index
    if named ≠ alg then .error (.entry index .unsupportedAlg)
    else if claimed ≠ digest then .error (.digestMismatch index claimed digest)
    else if host.hmac key (signingInput protectedB64 bytes) ≠ signature then .error (.badSignature index)
    else .ok ()
  | _ => .error (.entry index .notAMap)

def checkSignatures (passport : Document) (key : Bytes) : Except Fault Unit :=
  match passport.signatures with
  | .array [] => .error .noSignatures
  | .array entries => do
    let bytes ← canonicalBytes host passport
    entries.zipIdx.forM fun (entry, index) => verifyEntry host key bytes (sha256Hex host bytes) entry index
  | .object entries => do
    -- A map is gone through as its pairs, and none of them is a map.
    let _ ← canonicalBytes host passport
    match entries with
    | [] => .ok ()
    | _ => .error (.entry 0 .notAMap)
  | _ => .error .raised

/-- Without `:revocation` and `:card_key`, whose checks then have nothing to do. -/
def verify (passport : Document) (key : Bytes) (now : Int) : Except Fault Unit := do
  checkStructure passport
  checkMerkleLeaves host passport
  checkMerkleRoot host passport
  checkExpiry host passport now
  checkSignatures host passport key

/-! ## Reading -/

def binaryMember (map : Json) (name : String) : Except Fault String :=
  match map.string? name with
  | some text => .ok text
  | none => .error (.missingMember name)

def objectMember (map : Json) (name : String) : Except Fault Json :=
  match map.get? name with
  | some (.object entries) => .ok (.object entries)
  | _ => .error (.badMember name)

def mapListMember (map : Json) (name : String) : Except Fault (List Json) :=
  match map.get? name with
  | some (.array []) => if name = "evidence" then .ok [] else .error (.badMember name)
  | some (.array entries) => if entries.all Json.isObject then .ok entries else .error (.badMember name)
  | _ => .error (.badMember name)

def isHexDigest : Json → Bool
  | .string text => text.toList.length = 64 && text.toList.all fun char => (Base16.digit char).isSome
  | _ => false

def merkleMember (map : Json) : Except Fault Json :=
  match map.get? "merkle" with
  | some merkle =>
    match merkle.get? "root", merkle.get? "leaves" with
    | some (.string root), some (.array leaves) =>
      if (utf8 root).length = 64 ∧ leaves.all isHexDigest then .ok merkle else .error (.badMember "merkle")
    | _, _ => .error (.badMember "merkle")
  | none => .error (.badMember "merkle")

def decodeSubject (subject : Json) : Except Fault AgentCard :=
  match AgentCard.decodeAgentCard subject with
  | .ok card => .ok card
  | .error .raised => .error .raised
  | .error fault => .error (.badSubject fault)

/-- `from_json/1` of a map. -/
def fromWire (map : Json) : Except Fault Document :=
  match map with
  | .object _ => do
    let id ← binaryMember map "id"
    let issuer ← binaryMember map "issuer"
    let subject ← objectMember map "subject"
    let subject ← decodeSubject subject
    let attestations ← mapListMember map "attestations"
    let evidence ← mapListMember map "evidence"
    let merkle ← merkleMember map
    let issuedAt ← binaryMember map "issuedAt"
    return {
      id, issuer, subject, attestations, evidence, merkle, issuedAt
      expiresAt := AgentCard.getOr map "expiresAt" .null
      signatures := AgentCard.getOr map "signatures" (.array []) }
  | _ => .error .notAMap

def fromJsonWithin : Nat → Bytes → Except Fault Document
  | 0, _ => .error .notJson
  | bound + 1, binary =>
    match host.plain binary with
    -- The text of a text is read in turn.
    | some (.string text) => fromJsonWithin bound (utf8 text)
    | some map => fromWire map
    | none => .error .notJson

/-- A text within a text is shorter by its quotes. -/
def fromJson (binary : Bytes) : Except Fault Document := fromJsonWithin host (binary.length + 1) binary

end AshA2A.Passport

/-! What a verifier makes of a value that is presented as a passport. -/

namespace AshA2A.Passport

open Protocol

/-- `raised` stands for every exception, wherever it comes from. -/
inductive Refusal where
  | raised
  | passport (fault : Fault)
  | card (fault : CardSigning.Fault)
  deriving Repr

def Refusal.ofPassport : Fault → Refusal
  | .raised => .raised
  | fault => .passport fault

def Refusal.ofCard : CardSigning.Fault → Refusal
  | .raised => .raised
  | fault => .card fault

/-- Without `:revocation`. -/
structure VerifyOptions where
  now : Int
  cardKey : Option Bytes := none
  deriving Repr

variable (host : Host) (libs : CardSigning.Libraries)

def checkCardSignatures (passport : Document) (opts : VerifyOptions) : Except Refusal Unit :=
  match opts.cardKey with
  | none => .ok ()
  | some cardKey => (CardSigning.verify libs passport.subject (.binary cardKey)).mapError .ofCard

def doVerify (passport : Document) (key : Bytes) (opts : VerifyOptions) : Except Refusal Unit := do
  (verify host passport key opts.now).mapError .ofPassport
  checkCardSignatures libs passport opts

/-- `from_json/1` of a decoded value. -/
def fromValue : Json → Except Fault Document
  | .string text => fromJson host (utf8 text)
  | map => fromWire map

/-- `from_json/1`, then `verify/3`. -/
def present (key : Bytes) (opts : VerifyOptions) (value : Json) : Except Refusal Unit := do
  let passport ← (fromValue host value).mapError .ofPassport
  doVerify host libs passport key opts

end AshA2A.Passport
