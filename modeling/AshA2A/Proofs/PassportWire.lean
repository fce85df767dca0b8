import AshA2A.Passport
import AshA2A.Proofs.CardCodec

/-! The wire document of a passport, and what is read back from it. -/

namespace AshA2A.Passport

open Json (record plainly)
open Protocol Sa2aCrypto
open AgentCard (unlessNil)

/-- What the libraries promise. -/
structure Host.Lawful (host : Host) : Prop where
  decode_print : ∀ json, host.decode (host.print json) = some json
  canonical : ∀ first second, host.canonical first = host.canonical second → first.Same second
  sha256_length : ∀ bytes, (host.sha256 bytes).length = 32
  fromIso8601 : ∀ instant, host.fromIso8601 (host.toIso8601 instant) = some instant

def Document.under (passport : Document) (signatures : Json) : Document := { passport with signatures }

def Document.about (passport : Document) (subject : AgentCard) : Document := { passport with subject }

variable {host : Host} (lawful : host.Lawful)

include lawful

theorem plain_print (json : Json) : host.plain (host.print json) = some json.lastWins := by
  rw [Host.plain, lawful.decode_print, Option.map_some]

theorem roundTrip_eq (json : Json) : roundTrip host json = .ok json.lastWins := by
  rw [roundTrip, plain_print lawful]

theorem mapM_roundTrip (items : List Json) : items.mapM (roundTrip host) = .ok (items.map Json.lastWins) := by
  rw [funext (roundTrip_eq lawful)]
  exact List.mapM_pure

omit lawful

/-! ## Wire documents -/

/-- The members under the signatures; the text is the encoded card. -/
def signedMembers (passport : Document) (text : Json) : List (String × Option Json) :=
  [("id", some (.string passport.id)), ("issuer", some (.string passport.issuer)), ("subject", some text.lastWins),
    ("attestations", some (.array (passport.attestations.map Json.lastWins))),
    ("evidence", some (.array (passport.evidence.map Json.lastWins))), ("merkle", some passport.merkle),
    ("issuedAt", some (.string passport.issuedAt)), ("expiresAt", unlessNil passport.expiresAt)]

def wire (passport : Document) (text : Json) : Json :=
  record (signedMembers passport text ++ [("signatures", some passport.signatures)])

theorem wire_without (passport : Document) (text : Json) :
    (wire passport text).without "signatures" = record (signedMembers passport text) := by
  rw [wire, Json.record_without]
  rfl

include lawful

theorem toWire_ok_iff {passport : Document} {json : Json} : toWire host passport = .ok json ↔
    ∃ text, AgentCard.encodeAgentCard passport.subject = .ok text ∧ json = wire passport text := by
  unfold toWire subjectWire
  rw [mapM_roundTrip lawful, mapM_roundTrip lawful]
  cases AgentCard.encodeAgentCard passport.subject with
  | error fault => simp [Bind.bind, Except.bind]
  | ok text =>
    simp only [roundTrip_eq lawful, Except.ok.injEq, exists_eq_left']
    exact ⟨fun same => (Except.ok.inj same).symm, fun same => congrArg Except.ok same.symm⟩

theorem canonicalBytes_ok_iff {passport : Document} {bytes : Bytes} : canonicalBytes host passport = .ok bytes ↔
    ∃ text, AgentCard.encodeAgentCard passport.subject = .ok text ∧
      bytes = host.canonical (record (signedMembers passport text)).lastWins := by
  simp only [canonicalBytes, bind_ok_iff, toWire_ok_iff lawful, roundTrip_eq lawful]
  constructor
  · rintro ⟨_, ⟨text, encoded, rfl⟩, read, whole, same⟩
    cases whole
    cases same
    exact ⟨text, encoded, by rw [wire_without]⟩
  · rintro ⟨text, encoded, rfl⟩
    exact ⟨_, ⟨text, encoded, rfl⟩, _, rfl, by rw [wire_without]; rfl⟩

theorem leafHash_eq (entry : Json) :
    leafHash host entry = .ok (Merkle.leaf host.sha256 (host.canonical entry.lastWins)) := by
  rw [leafHash, roundTrip_eq lawful]
  rfl

theorem leafHashes_eq (attestations evidence : List Json) : leafHashes host attestations evidence =
    .ok ((attestations ++ evidence).map fun entry => Merkle.leaf host.sha256 (host.canonical entry.lastWins)) := by
  have each : ∀ items : List Json, items.mapM (leafHash host) =
      .ok (items.map fun entry => Merkle.leaf host.sha256 (host.canonical entry.lastWins)) := by
    intro items
    rw [funext (leafHash_eq lawful)]
    exact List.mapM_pure
  rw [leafHashes, each, each, List.map_append]
  rfl

omit lawful

/-! ## Issued passports -/

variable (host)

def leaves (attestations evidence : List Json) : List Bytes :=
  (attestations ++ evidence).map fun entry => Merkle.leaf host.sha256 (host.canonical entry.lastWins)

/-- The tree that is carried. -/
def merkleOf (leaves : List Bytes) : Json :=
  .object [("root", .string (Base16.encode (Merkle.build host.sha256 leaves))),
    ("leaves", .array (leaves.map fun leaf => .string (Base16.encode leaf)))]

/-- The document before it is signed. -/
def draft (card : AgentCard) (attestations evidence : List Json) (opts : Options) : Document where
  id := opts.id.getD ("urn:ash-a2a:passport:" ++ Base16.encode opts.strongRandBytes)
  issuer := opts.issuer
  subject := card
  attestations := attestations.map Json.lastWins
  evidence := evidence.map Json.lastWins
  merkle := merkleOf host (leaves host attestations evidence)
  issuedAt := host.toIso8601 opts.now
  expiresAt := (opts.expiresAt.map fun expiry => Json.string (host.toIso8601 expiry)).getD .null

def protectedText (bytes : Bytes) : String := Base64.encode (protectedHeader host (sha256Hex host bytes))

def signatureEntry (key bytes : Bytes) : Json :=
  .object
    [("protected", .string (protectedText host bytes)),
      ("header", .object [("alg", .string alg), ("typ", .string typ)]),
      ("signature", .string (Base64.encode (host.hmac key (signingInput (protectedText host bytes) bytes))))]

variable {host}

/-- What issuance accepted. -/
structure Accepted (attestations evidence : List Json) (opts : Options) : Prop where
  issuer : opts.issuer ≠ ""
  attestations : attestations ≠ [] ∧ attestations.all Json.isObject
  evidence : evidence.all Json.isObject

include lawful

theorem issue_ok {card : AgentCard} {attestations evidence : List Json} {opts : Options} {passport : Document}
    (issued : issue host card attestations evidence opts = .ok passport) :
    Accepted attestations evidence opts ∧ ∃ bytes,
      canonicalBytes host (draft host card attestations evidence opts) = .ok bytes ∧
      passport = (draft host card attestations evidence opts).under
        (.array [signatureEntry host opts.key bytes]) := by
  simp only [issue, bind_ok_iff] at issued
  obtain ⟨issuer, named, expiresAt, expiry, _, attested, _, shown, hashes, hashed, root, rooted, atts, attsRead, evid,
    evidRead, signed⟩ := issued
  have issuerGiven : opts.issuer ≠ "" ∧ issuer = opts.issuer := by
    unfold requiredIssuer at named
    split at named
    · cases named
    next given => cases named; exact ⟨given, rfl⟩
  have expires : expiresAt = (opts.expiresAt.map fun expiry => Json.string (host.toIso8601 expiry)).getD .null := by
    unfold expiresOpt at expiry
    cases given : opts.expiresAt with
    | none => rw [given] at expiry; cases expiry; rfl
    | some instant =>
      simp only [given] at expiry
      split at expiry
      · cases expiry
      · cases expiry; rfl
  have entries : attestations.all Json.isObject ∧ attestations ≠ [] := by
    unfold checkEntries at attested
    split at attested
    next given => exact ⟨given.1, given.2.resolve_left nofun⟩
    · cases attested
  have shown : evidence.all Json.isObject := by
    unfold checkEntries at shown
    split at shown
    next given => exact given.1
    · cases shown
  rw [leafHashes_eq lawful] at hashed
  rw [mapM_roundTrip lawful] at attsRead evidRead
  cases hashed
  cases attsRead
  cases evidRead
  have root_eq : root = Merkle.build host.sha256 (leaves host attestations evidence) := by
    unfold merkleRoot Merkle.root at rooted
    split at rooted
    next given =>
      split at given
      · cases given
      · cases given; cases rooted; rfl
    · cases rooted
  refine ⟨⟨issuerGiven.1, ⟨entries.2, entries.1⟩, shown⟩, ?_⟩
  obtain ⟨bytes, canonical, same⟩ := bind_ok_iff.mp signed
  rw [issuerGiven.2, expires, root_eq] at canonical same
  exact ⟨bytes, canonical, (Except.ok.inj same).symm⟩

theorem issue_accepted {card : AgentCard} (typed : card.Typed) {attestations evidence : List Json} {opts : Options}
    (accepted : Accepted attestations evidence opts) (later : ∀ expiry ∈ opts.expiresAt, opts.now < expiry) :
    ∃ passport, issue host card attestations evidence opts = .ok passport := by
  obtain ⟨text, encoded, _⟩ := typed.decode
  have canonical : canonicalBytes host (draft host card attestations evidence opts) =
      .ok (host.canonical (record (signedMembers (draft host card attestations evidence opts) text)).lastWins) :=
    (canonicalBytes_ok_iff lawful).mpr ⟨text, encoded, rfl⟩
  have expires : expiresOpt host opts =
      .ok ((opts.expiresAt.map fun expiry => Json.string (host.toIso8601 expiry)).getD .null) := by
    unfold expiresOpt
    cases given : opts.expiresAt with
    | none => rfl
    | some expiry => exact if_neg (Int.not_le.mpr (later expiry given))
  have attested : checkEntries attestations .attestation = .ok () :=
    if_pos ⟨accepted.attestations.2, .inr accepted.attestations.1⟩
  have shown : checkEntries evidence .evidence = .ok () := if_pos ⟨accepted.evidence, .inl rfl⟩
  have rooted : merkleRoot host (leaves host attestations evidence) =
      .ok (Merkle.build host.sha256 (leaves host attestations evidence)) := by
    have some_pinned : leaves host attestations evidence ≠ [] := by simp [leaves, accepted.attestations.1]
    unfold merkleRoot Merkle.root
    split
    next given =>
      split at given
      next none => exact absurd none some_pinned
      next => cases given; rfl
    next given =>
      split at given
      next none => exact absurd none some_pinned
      next => cases given
  refine ⟨_, bind_ok_iff.mpr ⟨opts.issuer, if_neg accepted.issuer, bind_ok_iff.mpr ⟨_, expires,
    bind_ok_iff.mpr ⟨(), attested, bind_ok_iff.mpr ⟨(), shown, bind_ok_iff.mpr ⟨_, leafHashes_eq lawful _ _,
    bind_ok_iff.mpr ⟨_, rooted, bind_ok_iff.mpr ⟨_, mapM_roundTrip lawful _,
    bind_ok_iff.mpr ⟨_, mapM_roundTrip lawful _, bind_ok_iff.mpr ⟨_, canonical, rfl⟩⟩⟩⟩⟩⟩⟩⟩⟩⟩

omit lawful

/-! ## Delivered passports -/

theorem wire_get? (passport : Document) (text : Json) (key : String) :
    (wire passport text).lastWins.get? key =
      ((signedMembers passport text ++ [("signatures", some passport.signatures)]).lookup key).join.map
        Json.lastWins := by
  have distinct : ((signedMembers passport text ++ [("signatures", some passport.signatures)]).map Prod.fst).Nodup := by
    simp [signedMembers]
  rw [← Json.get?_record distinct]
  exact plainly.get?_value (wire passport text) key

theorem isObject_lastWins (items : List Json) : (items.map Json.lastWins).all Json.isObject = items.all Json.isObject := by
  rw [List.all_map]
  exact congrArg _ (funext Json.plainly.isObject_value)

theorem map_lastWins_lastWins (items : List Json) :
    (items.map Json.lastWins).map Json.lastWins = items.map Json.lastWins := by
  rw [List.map_map]
  exact List.map_congr_left fun item _ => Json.lastWins_lastWins item

theorem isHexDigest_encode {bytes : Bytes} (size : bytes.length = 32) : isHexDigest (.string (Base16.encode bytes)) := by
  have length := Base16.encode_length bytes
  rw [isHexDigest, length, size]
  refine Bool.and_eq_true_iff.mpr ⟨rfl, List.all_eq_true.mpr fun char member => ?_⟩
  obtain ⟨value, rfl⟩ := Base16.encode_chars char member
  rw [Base16.digit_digitChar]
  rfl

theorem merkleOf_lastWins (leaves : List Bytes) : (merkleOf host leaves).lastWins = merkleOf host leaves := by
  simp [merkleOf, Json.lastWins, Json.lastWinsEntries, Json.lastWinsItems_map]

theorem build_length {hash : Merkle.Hash} (sized : ∀ bytes, (hash bytes).length = 32) {leaves : List Bytes}
    (given : leaves ≠ []) (each : ∀ leaf ∈ leaves, leaf.length = 32) : (Merkle.build hash leaves).length = 32 := by
  fun_induction Merkle.build hash leaves with
  | case1 => exact absurd rfl given
  | case2 root => exact each root (List.mem_cons_self ..)
  | case3 first second rest ih =>
    refine ih (by simp [Merkle.levelUp]) fun leaf member => ?_
    have nodes : ∀ level : List Bytes, ∀ leaf ∈ Merkle.levelUp hash level, leaf.length = 32 := by
      intro level
      fun_induction Merkle.levelUp hash level with
      | case1 first second rest ih => exact List.forall_mem_cons.mpr ⟨sized _, ih⟩
      | case2 last => exact List.forall_mem_singleton.mpr (sized _)
      | case3 => exact fun _ member => absurd member List.not_mem_nil
    exact nodes _ leaf member

include lawful

theorem merkleMember_merkleOf {map : Json} {leaves : List Bytes} (given : leaves ≠ [])
    (each : ∀ leaf ∈ leaves, leaf.length = 32) (carried : map.get? "merkle" = some (merkleOf host leaves)) :
    merkleMember map = .ok (merkleOf host leaves) := by
  have root : (merkleOf host leaves).get? "root" = some (.string (Base16.encode (Merkle.build host.sha256 leaves))) :=
    rfl
  have listed : (merkleOf host leaves).get? "leaves" =
      some (.array (leaves.map fun leaf => .string (Base16.encode leaf))) := rfl
  have size := build_length lawful.sha256_length given each
  have digests : (leaves.map fun leaf => Json.string (Base16.encode leaf)).all isHexDigest := by
    refine List.all_eq_true.mpr fun item member => ?_
    obtain ⟨leaf, within, rfl⟩ := List.mem_map.mp member
    exact isHexDigest_encode (each leaf within)
  simp only [merkleMember, carried, root, listed]
  rw [if_pos ⟨by rw [Base16.utf8_encode_length, size], digests⟩]

theorem leaves_length {attestations evidence : List Json} :
    ∀ leaf ∈ leaves host attestations evidence, leaf.length = 32 := by
  intro leaf member
  obtain ⟨entry, _, rfl⟩ := List.mem_map.mp member
  exact lawful.sha256_length _

omit lawful in
theorem mapListMember_ok {map : Json} {name : String} {entries : List Json} (given : entries ≠ [] ∨ name = "evidence")
    (objects : entries.all Json.isObject) (listed : map.get? name = some (.array entries)) :
    mapListMember map name = .ok entries := by
  unfold mapListMember
  rw [listed]
  cases entries with
  | nil => simpa using given
  | cons entry rest => exact if_pos objects

omit lawful in
theorem isObject_of_decode {json : Json} {card : AgentCard} (decoded : AgentCard.decodeAgentCard json = .ok card) :
    json.isObject := by
  obtain ⟨name, named, _⟩ := bind_ok_iff.mp decoded
  unfold AgentCard.requireField at named
  split at named
  next object => exact object
  · cases named

omit lawful in
theorem objectMember_ok {map value : Json} {name : String} (object : value.isObject)
    (present : map.get? name = some value) : objectMember map name = .ok value := by
  unfold objectMember
  rw [present]
  cases value <;> first | rfl | cases object

omit lawful in
theorem binaryMember_ok {map : Json} {name text : String} (present : map.get? name = some (.string text)) :
    binaryMember map name = .ok text := by
  rw [binaryMember, Json.string?, present]

/-- What is read back from the wire of a draft with these signatures. -/
theorem fromWire_wire {card : AgentCard} (typed : card.Typed) {attestations evidence : List Json} {opts : Options}
    (accepted : Accepted attestations evidence opts) (signatures : Json) {text : Json}
    (encoded : AgentCard.encodeAgentCard card = .ok text) :
    fromWire (wire ((draft host card attestations evidence opts).under signatures) text).lastWins =
      .ok (((draft host card attestations evidence opts).about (card.settle.read plainly)).under
        signatures.lastWins) := by
  obtain ⟨written, same, decoded⟩ := typed.decode
  rw [encoded] at same
  cases same
  have moved : AgentCard.decodeAgentCard text.lastWins = .ok (card.settle.read plainly) :=
    AgentCard.decodeAgentCard_read plainly decoded
  have subject : decodeSubject text.lastWins.lastWins = .ok (card.settle.read plainly) := by
    rw [Json.lastWins_lastWins, decodeSubject, moved]
  have object : text.lastWins.lastWins.isObject := by
    rw [Json.lastWins_lastWins]
    exact isObject_of_decode moved
  have some_pinned : leaves host attestations evidence ≠ [] := by
    simp [leaves, accepted.attestations.1]
  let passport := (draft host card attestations evidence opts).under signatures
  have found := wire_get? passport text
  have items : ∀ entries : List Json, (Json.array ((entries.map Json.lastWins).map Json.lastWins)).lastWins =
      .array (entries.map Json.lastWins) := by
    intro entries
    rw [Json.lastWins, Json.lastWinsItems_map, map_lastWins_lastWins, map_lastWins_lastWins]
  have attested : (wire passport text).lastWins.get? "attestations" = some (.array (attestations.map Json.lastWins)) :=
    (found "attestations").trans (congrArg some (items attestations))
  have shown : (wire passport text).lastWins.get? "evidence" = some (.array (evidence.map Json.lastWins)) :=
    (found "evidence").trans (congrArg some (items evidence))
  have pinned : (wire passport text).lastWins.get? "merkle" =
      some (merkleOf host (leaves host attestations evidence)) :=
    (found "merkle").trans (congrArg some (merkleOf_lastWins _))
  have some_attested : attestations.map Json.lastWins ≠ [] := by simpa using accepted.attestations.1
  have expiresAt : AgentCard.getOr (wire passport text).lastWins "expiresAt" .null = passport.expiresAt := by
    rw [AgentCard.getOr, found]
    cases given : opts.expiresAt <;> simp [signedMembers, List.lookup_cons, passport, Document.under, draft, given,
      unlessNil, Json.lastWins]
  have signed : AgentCard.getOr (wire passport text).lastWins "signatures" (.array []) = signatures.lastWins := by
    rw [AgentCard.getOr, found]
    rfl
  refine bind_ok_iff.mpr ⟨_, binaryMember_ok (found "id"), bind_ok_iff.mpr ⟨_, binaryMember_ok (found "issuer"),
    bind_ok_iff.mpr ⟨_, objectMember_ok object (found "subject"), bind_ok_iff.mpr ⟨_, subject,
    bind_ok_iff.mpr ⟨_, mapListMember_ok (.inl some_attested) ?_ attested,
    bind_ok_iff.mpr ⟨_, mapListMember_ok (.inr rfl) ?_ shown,
    bind_ok_iff.mpr ⟨_, merkleMember_merkleOf lawful some_pinned (leaves_length lawful) pinned,
    bind_ok_iff.mpr ⟨_, binaryMember_ok (found "issuedAt"), ?_⟩⟩⟩⟩⟩⟩⟩⟩
  · rw [isObject_lastWins]
    exact accepted.attestations.2
  · rw [isObject_lastWins]
    exact accepted.evidence
  · refine congrArg Except.ok ?_
    rw [Document.under, Document.mk.injEq]
    exact ⟨rfl, rfl, rfl, rfl, rfl, rfl, rfl, expiresAt, signed⟩

/-! ## Checks of a delivered passport -/

theorem canonicalBytes_delivered {card : AgentCard} {passport : Document}
    (subject : passport.subject = card) (signatures : Json) {bytes : Bytes}
    (canonical : canonicalBytes host passport = .ok bytes) :
    canonicalBytes host ((passport.about (card.settle.read plainly)).under signatures) = .ok bytes := by
  obtain ⟨text, encoded, rfl⟩ := (canonicalBytes_ok_iff lawful).mp canonical
  refine (canonicalBytes_ok_iff lawful).mpr ⟨text.lastWins, ?_, ?_⟩
  · rw [Document.under, Document.about, AgentCard.encodeAgentCard_read AgentCard.plainly_inPlace, AgentCard.encode_settle, ← subject, encoded]
    rfl
  · simp only [signedMembers, Document.under, Document.about, Json.lastWins_lastWins]

omit lawful in
theorem forM_ok_iff {α : Type} {items : List α} {check : α → Except Fault Unit} :
    items.forM check = .ok () ↔ ∀ item ∈ items, check item = .ok () := by
  induction items with
  | nil => exact ⟨fun _ _ member => absurd member List.not_mem_nil, fun _ => rfl⟩
  | cons item rest ih =>
    rw [List.forM_eq_forM, List.forM_cons, List.forall_mem_cons]
    constructor
    · intro passed
      obtain ⟨⟨⟩, first, others⟩ := bind_ok_iff.mp passed
      exact ⟨first, ih.mp others⟩
    · rintro ⟨first, others⟩
      exact bind_ok_iff.mpr ⟨(), first, ih.mpr others⟩

omit lawful in
theorem signedLeaves_merkleOf (leaves : List Bytes) :
    signedLeaves (merkleOf host leaves) = leaves.map fun leaf => .string (Base16.encode leaf) := rfl

omit lawful in
theorem decodeLeaf_encode (leaf : Bytes) : decodeLeaf (.string (Base16.encode leaf)) = .ok leaf := by
  rw [decodeLeaf, Base16.decode_encode]

omit lawful in
theorem decodeLeaves_encode (leaves : List Bytes) :
    (leaves.map fun leaf => Json.string (Base16.encode leaf)).mapM decodeLeaf = .ok leaves :=
  mapM_ok_of_map fun leaf _ => decodeLeaf_encode leaf

theorem leafHashes_delivered (attestations evidence : List Json) :
    leafHashes host (attestations.map Json.lastWins) (evidence.map Json.lastWins) =
      .ok (leaves host attestations evidence) := by
  rw [leafHashes_eq lawful, leaves, ← List.map_append, List.map_map]
  refine congrArg Except.ok (List.map_congr_left fun entry _ => ?_)
  simp only [Function.comp_apply, Json.lastWins_lastWins]

variable {attestations evidence : List Json} {passport : Document}

theorem checkMerkleLeaves_delivered (attested : passport.attestations = attestations.map Json.lastWins)
    (shown : passport.evidence = evidence.map Json.lastWins)
    (pinned : passport.merkle = merkleOf host (leaves host attestations evidence)) :
    checkMerkleLeaves host passport = .ok () := by
  unfold checkMerkleLeaves
  rw [attested, shown, leafHashes_delivered lawful, pinned, signedLeaves_merkleOf]
  refine forM_ok_iff.mpr fun item member => ?_
  obtain ⟨signed, position⟩ := item
  have present := List.mem_zipIdx_iff_getElem?.mp member
  obtain ⟨leaf, within, rfl⟩ := Option.map_eq_some_iff.mp ((List.getElem?_map ..).symm.trans present)
  simp only [checkLeaf, decodeLeaf_encode, within]
  simp [Bind.bind, Except.bind]

omit lawful in
theorem checkMerkleRoot_encoded {leaves : List Bytes} {root : Bytes}
    (decoded : (signedLeaves passport.merkle).mapM decodeLeaf = .ok leaves)
    (rooted : Merkle.root host.sha256 leaves = some root)
    (carried : passport.merkle.get? "root" = some (.string (Base16.encode root))) : checkMerkleRoot host passport = .ok () := by
  simp only [checkMerkleRoot, decoded, rooted, carried, Bind.bind, Except.bind]
  rw [if_pos (Base16.encode_lower root).symm]

omit lawful in
theorem checkMerkleRoot_delivered (some_pinned : leaves host attestations evidence ≠ [])
    (pinned : passport.merkle = merkleOf host (leaves host attestations evidence)) :
    checkMerkleRoot host passport = .ok () := by
  have root : (merkleOf host (leaves host attestations evidence)).get? "root" =
      some (.string (Base16.encode (Merkle.build host.sha256 (leaves host attestations evidence)))) := rfl
  have built : Merkle.root host.sha256 (leaves host attestations evidence) =
      some (Merkle.build host.sha256 (leaves host attestations evidence)) := by
    unfold Merkle.root
    split
    next none => exact absurd none some_pinned
    next => rfl
  refine checkMerkleRoot_encoded ?_ built (by rw [pinned, root])
  rw [pinned, signedLeaves_merkleOf, decodeLeaves_encode]

theorem verifyEntry_signature (key bytes : Bytes) (index : Nat) :
    verifyEntry host key bytes (sha256Hex host bytes) (signatureEntry host key bytes) index = .ok () := by
  have header : decodeProtected host (protectedHeader host (sha256Hex host bytes)) index =
      .ok (alg, sha256Hex host bytes) := by
    rw [decodeProtected, protectedHeader, plain_print lawful]
    rfl
  have claimed : Base64Url.decode (protectedText host bytes) = some (protectedHeader host (sha256Hex host bytes)) :=
    Base64Url.decode_encode _
  refine bind_ok_iff.mpr ⟨protectedText host bytes, rfl, bind_ok_iff.mpr ⟨_, rfl,
    bind_ok_iff.mpr ⟨protectedHeader host (sha256Hex host bytes), ?_, bind_ok_iff.mpr ⟨_, header,
    bind_ok_iff.mpr ⟨_, by rw [b64urlDecode, Base64Url.decode_encode], ?_⟩⟩⟩⟩⟩
  · rw [b64urlDecode, claimed]
  · simp

end AshA2A.Passport
