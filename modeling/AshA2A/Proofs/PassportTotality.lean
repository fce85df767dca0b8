import AshA2A.Passport
import AshA2A.Proofs.CardSignatures
import AshA2A.Proofs.PassportBinding
import AshA2A.Proofs.Totality

/-! Which values presented as a passport the verifier survives, and which it lets through unsigned. -/

namespace AshA2A.Passport

open Protocol Sa2aCrypto

/-! ## Steps that do not raise -/

section Steps
variable {ε ε' α : Type} {crash : ε}

theorem mapError_survives {result : Except ε α} {rename : ε → ε'} {crash' : ε'}
    (kept : ∀ fault, rename fault = crash' ↔ fault = crash) :
    result.mapError rename ≠ .error crash' ↔ result ≠ .error crash := by
  cases result with
  | error fault => exact not_congr (by simp only [Except.mapError, Except.error.injEq, kept])
  | ok value => exact iff_of_true nofun nofun

theorem mapError_ok_iff {result : Except ε α} {rename : ε → ε'} {value : α} :
    result.mapError rename = .ok value ↔ result = .ok value := by
  cases result <;> simp [Except.mapError]

end Steps

/-! ## Reading -/

/-- The members that are looked at before the card is. -/
structure Named (map : Json) : Prop where
  isObject : map.isObject
  id : (map.string? "id").isSome
  issuer : (map.string? "issuer").isSome

theorem binaryMember_survives (map : Json) (name : String) : binaryMember map name ≠ .error .raised := by
  unfold binaryMember
  split <;> nofun

theorem binaryMember_ok_iff {map : Json} {name text : String} :
    binaryMember map name = .ok text ↔ map.string? name = some text := by
  unfold binaryMember
  cases map.string? name <;> simp

theorem objectMember_survives (map : Json) (name : String) : objectMember map name ≠ .error .raised := by
  unfold objectMember
  split <;> nofun

theorem objectMember_ok_iff {map value : Json} {name : String} :
    objectMember map name = .ok value ↔ map.get? name = some value ∧ value.isObject := by
  refine ⟨fun given => ?_, fun both => objectMember_ok both.2 both.1⟩
  unfold objectMember at given
  split at given
  next entries found =>
    cases given
    exact ⟨found, rfl⟩
  · cases given

theorem mapListMember_survives (map : Json) (name : String) : mapListMember map name ≠ .error .raised := by
  unfold mapListMember
  split
  · split <;> nofun
  · split <;> nofun
  · nofun

theorem merkleMember_survives (map : Json) : merkleMember map ≠ .error .raised := by
  unfold merkleMember
  split
  · split
    · split <;> nofun
    · nofun
  · nofun

theorem decodeSubject_survives {subject : Json} :
    decodeSubject subject ≠ .error .raised ↔ AgentCard.cardCheck.steady subject := by
  rw [← (AgentCard.decodeAgentCard_described subject).steady]
  unfold decodeSubject
  cases AgentCard.decodeAgentCard subject with
  | ok card => exact iff_of_true nofun nofun
  | error fault => cases fault <;> simp

/-- The rest of the document is read or refused. -/
theorem fromWire_rest_survives (map : Json) (id issuer : String) (subject : AgentCard) :
    (do
      let attestations ← mapListMember map "attestations"
      let evidence ← mapListMember map "evidence"
      let merkle ← merkleMember map
      let issuedAt ← binaryMember map "issuedAt"
      return {
        id, issuer, subject, attestations, evidence, merkle, issuedAt
        expiresAt := AgentCard.getOr map "expiresAt" .null
        signatures := AgentCard.getOr map "signatures" (.array []) } : Except Fault Document) ≠ .error .raised := by
  refine (bind_survives_total (mapListMember_survives _ _)).mpr fun _ _ => ?_
  refine (bind_survives_total (mapListMember_survives _ _)).mpr fun _ _ => ?_
  refine (bind_survives_total (merkleMember_survives _)).mpr fun _ _ => ?_
  exact (bind_survives_total (binaryMember_survives _ _)).mpr fun _ _ => nofun

/-- The card of the passport is the one member that reading may fail on without refusing it. -/
theorem fromWire_survives {map : Json} : fromWire map ≠ .error .raised ↔
    (Named map → ∀ subject, map.get? "subject" = some subject → subject.isObject →
      AgentCard.cardCheck.steady subject) := by
  have refused (other : ¬ map.isObject) (given : fromWire map = .error .notAMap) : fromWire map ≠ .error .raised ↔
      (Named map → ∀ subject, map.get? "subject" = some subject → subject.isObject →
        AgentCard.cardCheck.steady subject) := by
    rw [given]
    exact iff_of_true nofun fun named => absurd named.isObject other
  cases map with
  | object entries =>
    have unfolded : fromWire (.object entries) ≠ .error .raised ↔
        ∀ id, binaryMember (.object entries) "id" = .ok id → ∀ issuer, binaryMember (.object entries) "issuer" = .ok issuer →
          ∀ subject, objectMember (.object entries) "subject" = .ok subject → decodeSubject subject ≠ .error .raised := by
      refine (bind_survives_total (binaryMember_survives _ _)).trans (forall₂_congr fun id _ => ?_)
      refine (bind_survives_total (binaryMember_survives _ _)).trans (forall₂_congr fun issuer _ => ?_)
      refine (bind_survives_total (objectMember_survives _ _)).trans (forall₂_congr fun subject _ => ?_)
      exact bind_survives.trans (and_iff_left fun card _ => fromWire_rest_survives _ id issuer card)
    rw [unfolded]
    constructor
    · intro survives named subject found isObject
      obtain ⟨id, withId⟩ := Option.isSome_iff_exists.mp named.id
      obtain ⟨issuer, withIssuer⟩ := Option.isSome_iff_exists.mp named.issuer
      exact decodeSubject_survives.mp (survives id (binaryMember_ok_iff.mpr withId) issuer
        (binaryMember_ok_iff.mpr withIssuer) subject (objectMember_ok_iff.mpr ⟨found, isObject⟩))
    · intro survives id withId issuer withIssuer subject found
      obtain ⟨found, isObject⟩ := objectMember_ok_iff.mp found
      refine decodeSubject_survives.mpr (survives ⟨rfl, ?_, ?_⟩ subject found isObject)
      · exact Option.isSome_of_eq_some (binaryMember_ok_iff.mp withId)
      · exact Option.isSome_of_eq_some (binaryMember_ok_iff.mp withIssuer)
  | _ => exact refused (by simp [Json.isObject]) rfl

variable (host : Host) in
/-- The value under the quotes of a text within a text. -/
def unquoteWithin : Nat → Bytes → Option Json
  | 0, _ => none
  | bound + 1, binary =>
    match host.plain binary with
    | some (.string text) => unquoteWithin bound (utf8 text)
    | map => map

variable (host : Host) in
/-- The value that the members are read of. -/
def unquote : Json → Option Json
  | .string text => unquoteWithin host ((utf8 text).length + 1) (utf8 text)
  | map => some map

theorem fromJsonWithin_eq (host : Host) (bound : Nat) (binary : Bytes) : fromJsonWithin host bound binary =
    match unquoteWithin host bound binary with
    | some map => fromWire map
    | none => .error .notJson := by
  induction bound generalizing binary with
  | zero => rfl
  | succ bound ih =>
    unfold fromJsonWithin unquoteWithin
    cases host.plain binary with
    | none => rfl
    | some map => cases map <;> first | rfl | exact ih _

theorem fromValue_eq (host : Host) (value : Json) : fromValue host value =
    match unquote host value with
    | some map => fromWire map
    | none => .error .notJson := by
  cases value <;> first | rfl | exact fromJsonWithin_eq host _ _

/-! ## Documents that were read -/

/-- The tree of a document that was read. -/
structure Shaped (passport : Document) : Prop where
  root : ∃ root, passport.merkle.get? "root" = some (.string root)
  leaves : ∀ leaf ∈ signedLeaves passport.merkle, isHexDigest leaf

theorem merkleMember_shaped {map merkle : Json} (carried : merkleMember map = .ok merkle) :
    (∃ root, merkle.get? "root" = some (.string root)) ∧ ∀ leaf ∈ signedLeaves merkle, isHexDigest leaf := by
  unfold merkleMember at carried
  split at carried
  · split at carried
    next root leaves rooted listed =>
      split at carried
      next both =>
        cases carried
        refine ⟨⟨root, rooted⟩, ?_⟩
        rw [signedLeaves, listed]
        exact List.all_eq_true.mp both.2
      · cases carried
    · cases carried
  · cases carried

theorem shaped_of_fromWire {map : Json} {passport : Document} (read : fromWire map = .ok passport) : Shaped passport := by
  unfold fromWire at read
  split at read
  next =>
    simp only [bind_ok_iff] at read
    obtain ⟨_, _, _, _, _, _, _, _, _, _, _, _, merkle, pinned, _, _, same⟩ := read
    cases Except.ok.inj same
    exact ⟨(merkleMember_shaped pinned).1, (merkleMember_shaped pinned).2⟩
  · cases read

theorem shaped_of_fromValue {host : Host} {value : Json} {passport : Document}
    (read : fromValue host value = .ok passport) : Shaped passport := by
  rw [fromValue_eq] at read
  split at read
  · exact shaped_of_fromWire read
  · cases read

/-! ### The tree -/

theorem pairs_of_digits {chars : List Char} {size : Nat} (even : chars.length = 2 * size)
    (digits : ∀ char ∈ chars, (Base16.digit char).isSome) :
    ∃ bytes, Base16.pairs chars = some bytes ∧ bytes.length = size := by
  induction size generalizing chars with
  | zero =>
    cases List.length_eq_zero_iff.mp even
    exact ⟨[], rfl, rfl⟩
  | succ size ih =>
    match chars, even with
    | high :: low :: rest, even =>
      simp only [List.forall_mem_cons] at digits
      obtain ⟨high', isHigh⟩ := Option.isSome_iff_exists.mp digits.1
      obtain ⟨low', isLow⟩ := Option.isSome_iff_exists.mp digits.2.1
      obtain ⟨bytes, read, length⟩ := @ih rest (by simp only [List.length_cons] at even; omega) digits.2.2
      refine ⟨UInt8.ofNat (high' * 16 + low') :: bytes, ?_, by rw [List.length_cons, length]⟩
      simp only [Base16.pairs, isHigh, isLow, read, Option.bind_eq_bind, Option.bind_some]
      rfl

theorem decodeLeaf_of_hex {leaf : Json} (hex : isHexDigest leaf) :
    ∃ bytes, decodeLeaf leaf = .ok bytes ∧ bytes.length = 32 := by
  cases leaf with
  | string text =>
    obtain ⟨length, digits⟩ := Bool.and_eq_true_iff.mp hex
    obtain ⟨bytes, read, size⟩ := @pairs_of_digits _ 32 (of_decide_eq_true length) (List.all_eq_true.mp digits)
    exact ⟨bytes, by rw [decodeLeaf, Base16.decode, read], size⟩
  | _ => cases hex

section Tree
variable {passport : Document}

theorem Shaped.decodes (shaped : Shaped passport) :
    ∃ leaves, (signedLeaves passport.merkle).mapM decodeLeaf = .ok leaves ∧
      leaves.length = (signedLeaves passport.merkle).length := by
  obtain ⟨_, each⟩ := shaped
  generalize signedLeaves passport.merkle = items at each ⊢
  induction items with
  | nil => exact ⟨[], rfl, rfl⟩
  | cons leaf rest ih =>
    obtain ⟨first, others⟩ := List.forall_mem_cons.mp each
    obtain ⟨bytes, read, _⟩ := decodeLeaf_of_hex first
    obtain ⟨leaves, all, length⟩ := ih others
    exact ⟨bytes :: leaves, by rw [List.mapM_cons, read, all]; rfl, congrArg Nat.succ length⟩

theorem mutationDetail_survives {host : Host} (shaped : Shaped passport) {position : Nat} {signed : Json} {current : Bytes}
    (within : position < (signedLeaves passport.merkle).length) :
    mutationDetail host passport position signed current ≠ .error .raised := by
  obtain ⟨leaves, decoded, length⟩ := shaped.decodes
  have proved : leafProof host leaves position = .ok (Merkle.doProof host.sha256 leaves position) := by
    have some_leaf : leaves ≠ [] := fun none => by
      rw [none] at length
      exact absurd within (by rw [← length]; exact Nat.not_lt_zero _)
    simp only [leafProof, Merkle.proof, if_neg some_leaf]
    rw [if_neg (by omega)]
    rfl
  simp only [mutationDetail, decoded, proved, Bind.bind, Except.bind]
  nofun

variable {host : Host} (lawful : host.Lawful)
include lawful

theorem checkLeaf_survives (shaped : Shaped passport) {signed : Json} {position : Nat}
    (member : (signedLeaves passport.merkle)[position]? = some signed) :
    checkLeaf host passport (leaves host passport.attestations passport.evidence) signed position ≠ .error .raised := by
  have within := (List.getElem?_eq_some_iff.mp member).1
  obtain ⟨leaf, decoded, size⟩ := decodeLeaf_of_hex (shaped.leaves signed (List.mem_of_getElem? member))
  have mutated (current : Bytes) : (mutationDetail host passport position signed current >>= fun detail =>
      (.error (.capabilityMutated detail) : Except Fault Unit)) ≠ .error .raised :=
    bind_survives.mpr ⟨mutationDetail_survives shaped within, fun _ _ => by simp⟩
  unfold checkLeaf
  simp only [decoded, Bind.bind, Except.bind]
  split
  next now given =>
    have sized := leaves_length lawful now (List.mem_of_getElem? given)
    rw [if_neg (by rw [size, sized]; exact not_not.mpr rfl)]
    split
    · simp
    · exact mutated now
  · exact mutated []

theorem checkMerkleLeaves_survives (shaped : Shaped passport) : checkMerkleLeaves host passport ≠ .error .raised := by
  unfold checkMerkleLeaves
  rw [leafHashes_eq lawful]
  refine forM_survives fun item member => ?_
  exact checkLeaf_survives lawful shaped (List.mem_zipIdx_iff_getElem?.mp member)

omit lawful in
theorem checkMerkleRoot_survives (shaped : Shaped passport) : checkMerkleRoot host passport ≠ .error .raised := by
  obtain ⟨leaves, decoded, _⟩ := shaped.decodes
  obtain ⟨root, rooted⟩ := shaped.root
  simp only [checkMerkleRoot, decoded, rooted, Bind.bind, Except.bind]
  split
  · simp
  · split <;> simp
  · rename_i found
    exact absurd rfl (found root)

end Tree

/-! ### The card -/

/-- The security requirements of the card are maps, as its encoding needs them. -/
structure Encodable (card : AgentCard) : Prop where
  skills : ∀ skill ∈ card.skills, ∀ requirement ∈ skill.securityRequirements.getD [], requirement.isObject
  security : ∀ requirement ∈ card.security, requirement.isObject

theorem encodeSecurityRequirement_described : Shape.object.Describes .raised AgentCard.encodeSecurityRequirement := by
  intro requirement
  cases requirement with
  | object flat =>
    have object : Shape.object.reads (Json.object flat) := rfl
    cases found : (Json.object flat).get? "schemes" <;> simp only [AgentCard.encodeSecurityRequirement, found] <;>
      exact .ok object object
  | _ => refine .crashed ?_ ?_ <;> intro object <;> cases object

theorem encodeSkill_described :
    (Shape.object.each.on fun skill : Skill => skill.securityRequirements.getD []).Describes .raised
      AgentCard.encodeSkill := by
  intro skill
  exact ((encodeSecurityRequirement_described.mapM _).bind fun _ _ => .ok trivial trivial).iff (iff_of_eq (and_true _))
    ⟨fun both => both.1, fun kept => ⟨kept, fun _ => trivial⟩⟩

theorem encodeAgentCard_reads {card : AgentCard} : (∃ text, AgentCard.encodeAgentCard card = .ok text) ↔ Encodable card := by
  have security := encodeSecurityRequirement_described.mapM card.security
  have skills := encodeSkill_described.mapM card.skills
  refine (skills.bind fun _ _ => security.bind fun _ _ => .ok trivial trivial).reads.trans ?_
  exact ⟨fun both => ⟨both.1, both.2.1⟩, fun encodable => ⟨encodable.skills, encodable.security, trivial⟩⟩

/-! ### Expiry and signatures -/

theorem checkStructure_survives (passport : Document) : checkStructure passport ≠ .error .raised := by
  unfold checkStructure
  repeat' split
  all_goals nofun

variable (host : Host) in
/-- No expiry, or the text of an instant. -/
def Dated (expiresAt : Json) : Prop :=
  expiresAt = .null ∨ ∃ text instant, expiresAt = .string text ∧ host.fromIso8601 text = some instant

theorem checkExpiry_survives {host : Host} {passport : Document} {now : Int} :
    checkExpiry host passport now ≠ .error .raised ↔ Dated host passport.expiresAt := by
  unfold checkExpiry Dated
  cases passport.expiresAt with
  | null => exact iff_of_true nofun (.inl rfl)
  | string text =>
    cases read : host.fromIso8601 text with
    | none => simp [read]
    | some expiry =>
      refine iff_of_true ?_ (.inr ⟨text, expiry, rfl, read⟩)
      simp only [read]
      split <;> nofun
  | _ => simp

theorem b64urlDecode_survives (text : String) (index : Nat) : b64urlDecode text index ≠ .error .raised := by
  unfold b64urlDecode
  split <;> nofun

theorem stringSigMember_survives (entry : Json) (name : String) (index : Nat) :
    stringSigMember entry name index ≠ .error .raised := by
  unfold stringSigMember
  split <;> nofun

theorem decodeProtected_survives (host : Host) (json : Bytes) (index : Nat) :
    decodeProtected host json index ≠ .error .raised := by
  unfold decodeProtected
  split
  · nofun
  · split
    · split <;> nofun
    · nofun

theorem verifyEntry_survives (host : Host) (key bytes : Bytes) (digest : String) (entry : Json) (index : Nat) :
    verifyEntry host key bytes digest entry index ≠ .error .raised := by
  unfold verifyEntry
  split
  · refine (bind_survives_total (stringSigMember_survives _ _ _)).mpr fun _ _ => ?_
    refine (bind_survives_total (stringSigMember_survives _ _ _)).mpr fun _ _ => ?_
    refine (bind_survives_total (b64urlDecode_survives _ _)).mpr fun _ _ => ?_
    refine (bind_survives_total (decodeProtected_survives _ _ _)).mpr fun _ _ => ?_
    refine (bind_survives_total (b64urlDecode_survives _ _)).mpr fun _ _ => ?_
    repeat' split
    all_goals nofun
  · nofun

section Documents
variable {host : Host} (lawful : host.Lawful) {passport : Document}

theorem canonicalBytes_unencodable (other : ¬ Encodable passport.subject) : canonicalBytes host passport = .error .raised := by
  cases encoded : AgentCard.encodeAgentCard passport.subject with
  | ok text => exact absurd (encodeAgentCard_reads.mp ⟨text, encoded⟩) other
  | error fault => simp [canonicalBytes, toWire, subjectWire, encoded, Bind.bind, Except.bind]

include lawful

theorem canonicalBytes_encodable (encodable : Encodable passport.subject) :
    ∃ bytes, canonicalBytes host passport = .ok bytes := by
  obtain ⟨text, encoded⟩ := encodeAgentCard_reads.mpr encodable
  exact ⟨_, (canonicalBytes_ok_iff lawful).mpr ⟨text, encoded, rfl⟩⟩

theorem checkSignatures_survives {key : Bytes} : checkSignatures host passport key ≠ .error .raised ↔
    passport.signatures = .array [] ∨
      ((passport.signatures.isArray ∨ passport.signatures.isObject) ∧ Encodable passport.subject) := by
  by_cases encodable : Encodable passport.subject
  · obtain ⟨bytes, canonical⟩ := canonicalBytes_encodable lawful encodable
    cases given : passport.signatures with
    | array entries =>
      refine iff_of_true ?_ (.inr ⟨.inl rfl, encodable⟩)
      cases entries with
      | nil => simp only [checkSignatures, given]; nofun
      | cons first rest =>
        simp only [checkSignatures, given, canonical]
        exact forM_survives fun item _ => verifyEntry_survives host key bytes _ item.1 item.2
    | object entries =>
      refine iff_of_true ?_ (.inr ⟨.inr rfl, encodable⟩)
      simp only [checkSignatures, given, canonical]
      cases entries <;> nofun
    | _ => simp [checkSignatures, given, Json.isArray, Json.isObject]
  · have raised : canonicalBytes host passport = .error .raised := canonicalBytes_unencodable encodable
    cases given : passport.signatures with
    | array entries =>
      cases entries with
      | nil => simp [checkSignatures, given]
      | cons first rest => simp [checkSignatures, given, raised, encodable, Bind.bind, Except.bind]
    | object entries => simp [checkSignatures, given, raised, encodable, Bind.bind, Except.bind]
    | _ => simp [checkSignatures, given, encodable]

/-- What is still asked of a document whose tree is intact. -/
theorem verify_survives (shaped : Shaped passport) {key : Bytes} {now : Int} :
    verify host passport key now ≠ .error .raised ↔
      (checkStructure passport = .ok () → checkMerkleLeaves host passport = .ok () →
        checkMerkleRoot host passport = .ok () → Dated host passport.expiresAt ∧
          (checkExpiry host passport now = .ok () → passport.signatures = .array [] ∨
            ((passport.signatures.isArray ∨ passport.signatures.isObject) ∧ Encodable passport.subject))) := by
  have unit {result : Except Fault Unit} {next : Prop} : (∀ done, result = .ok done → next) ↔ (result = .ok () → next) :=
    ⟨fun all => all (), fun one _ => one⟩
  unfold verify
  refine (bind_survives_total (checkStructure_survives _)).trans (unit.trans (imp_congr_right fun _ => ?_))
  refine (bind_survives_total (checkMerkleLeaves_survives lawful shaped)).trans (unit.trans (imp_congr_right fun _ => ?_))
  refine (bind_survives_total (checkMerkleRoot_survives shaped)).trans (unit.trans (imp_congr_right fun _ => ?_))
  refine bind_survives.trans (and_congr checkExpiry_survives (unit.trans (imp_congr_right fun _ => ?_)))
  exact checkSignatures_survives lawful

end Documents

/-! ## Presented values -/

section Presented
variable (host : Host) (libs : CardSigning.Libraries) (key : Bytes) (opts : VerifyOptions)

/-- The tag of the entry is one under the key, over the document. -/
def Tagged (passport : Document) (entry : Json) : Prop :=
  ∃ bytes protectedB64 signatureB64, canonicalBytes host passport = .ok bytes ∧
    entry.string? "protected" = some protectedB64 ∧ entry.string? "signature" = some signatureB64 ∧
    Base64Url.decode signatureB64 = some (host.hmac key (signingInput protectedB64 bytes))

/-- Every value has a typed answer, and what is let through was signed. -/
structure Closed (value : Json) : Prop where
  typed : present host libs key opts value ≠ .error .raised
  signed : present host libs key opts value = .ok () → ∃ passport entry entries, fromValue host value = .ok passport ∧
    passport.signatures = .array (entry :: entries) ∧ Tagged host key passport entry

/-- No check meets a member of a type that it does not expect, and none passes for want of entries. -/
structure Sturdy (passport : Document) : Prop where
  expiresAt : Dated host passport.expiresAt
  signatures : checkExpiry host passport opts.now = .ok () →
    passport.signatures = .array [] ∨
      ((passport.signatures.isArray ∨ passport.signatures.isObject) ∧ Encodable passport.subject)
  card : checkExpiry host passport opts.now = .ok () → checkSignatures host passport key = .ok () →
    opts.cardKey.isSome → passport.subject.signatures.isArray ∨ passport.subject.signatures.isObject
  unsigned : checkExpiry host passport opts.now = .ok () → passport.signatures = .object [] →
    checkCardSignatures libs passport opts ≠ .ok ()

/-- The card is survived where it is read, and the members where the tree of the document is intact. -/
structure Harmless (value : Json) : Prop where
  subject : ∀ map, unquote host value = some map → Named map → ∀ subject, map.get? "subject" = some subject →
    subject.isObject → AgentCard.cardCheck.steady subject
  document : ∀ passport, fromValue host value = .ok passport → checkStructure passport = .ok () →
    checkMerkleLeaves host passport = .ok () → checkMerkleRoot host passport = .ok () →
    Sturdy host libs key opts passport

variable {host libs key opts}

theorem ofPassport_raised (fault : Fault) : Refusal.ofPassport fault = .raised ↔ fault = .raised := by
  cases fault <;> simp [Refusal.ofPassport]

theorem ofCard_raised (fault : CardSigning.Fault) : Refusal.ofCard fault = .raised ↔ fault = .raised := by
  cases fault <;> simp [Refusal.ofCard]

theorem fromValue_survives {value : Json} : fromValue host value ≠ .error .raised ↔
    ∀ map, unquote host value = some map → Named map → ∀ subject, map.get? "subject" = some subject →
      subject.isObject → AgentCard.cardCheck.steady subject := by
  rw [fromValue_eq]
  cases unquote host value with
  | none => simp
  | some map => simp only [fromWire_survives, Option.some.injEq, forall_eq']

theorem wireUrl_encodable {card : AgentCard} :
    (∃ text, AgentCard.encodeAgentCard { card with url := CardSigning.wireUrl card } = .ok text) ↔ Encodable card :=
  encodeAgentCard_reads.trans ⟨fun encodable => ⟨encodable.skills, encodable.security⟩,
    fun encodable => ⟨encodable.skills, encodable.security⟩⟩

theorem jcsBytes_encodable (canonical : ∀ json, (libs.canonical json).isSome) {card : AgentCard}
    (encodable : Encodable card) : ∃ bytes, CardSigning.jcsBytes libs card = .ok bytes := by
  obtain ⟨text, encoded⟩ := wireUrl_encodable.mpr encodable
  obtain ⟨bytes, written⟩ := Option.isSome_iff_exists.mp (canonical (text.without "signatures"))
  exact ⟨bytes, by simp only [CardSigning.jcsBytes, encoded, written, CardSigning.raiseOnNone]⟩

theorem checkCardSignatures_survives (canonical : ∀ json, (libs.canonical json).isSome) {passport : Document}
    (encodable : Encodable passport.subject) : checkCardSignatures libs passport opts ≠ .error .raised ↔
      (opts.cardKey.isSome → passport.subject.signatures.isArray ∨ passport.subject.signatures.isObject) := by
  unfold checkCardSignatures
  cases opts.cardKey with
  | none => simp
  | some cardKey =>
    refine (mapError_survives ofCard_raised).trans (CardSigning.verify_secret_survives.trans ?_)
    constructor
    · rintro (none | both) -
      · exact .inl (by rw [none]; rfl)
      · exact both.1
    · exact fun kinds => .inr ⟨kinds rfl, jcsBytes_encodable canonical encodable⟩

theorem doVerify_ok_iff {passport : Document} : doVerify host libs passport key opts = .ok () ↔
    verify host passport key opts.now = .ok () ∧ checkCardSignatures libs passport opts = .ok () := by
  rw [doVerify, bind_ok_iff]
  simp only [mapError_ok_iff]
  exact ⟨fun ⟨_, verified, carded⟩ => ⟨verified, carded⟩, fun both => ⟨(), both⟩⟩

theorem verify_ok_iff {passport : Document} {now : Int} : verify host passport key now = .ok () ↔
    checkStructure passport = .ok () ∧ checkMerkleLeaves host passport = .ok () ∧
      checkMerkleRoot host passport = .ok () ∧ checkExpiry host passport now = .ok () ∧
      checkSignatures host passport key = .ok () := by
  unfold verify
  simp only [bind_ok_iff]
  exact ⟨fun ⟨_, a, _, b, _, c, _, d, e⟩ => ⟨a, b, c, d, e⟩, fun ⟨a, b, c, d, e⟩ => ⟨_, a, _, b, _, c, _, d, e⟩⟩

theorem encodable_of_checkSignatures (lawful : host.Lawful) {passport : Document}
    (checked : checkSignatures host passport key = .ok ()) : Encodable passport.subject := by
  have survives : checkSignatures host passport key ≠ .error .raised := by rw [checked]; nofun
  rcases (checkSignatures_survives lawful).mp survives with none | both
  · rw [checkSignatures, none] at checked
    cases checked
  · exact both.2

theorem checkSignatures_empty {passport : Document} (none : passport.signatures = .object [])
    {bytes : Bytes} (canonical : canonicalBytes host passport = .ok bytes) :
    checkSignatures host passport key = .ok () := by
  simp only [checkSignatures, none, canonical]
  rfl

theorem present_ok_iff {value : Json} : present host libs key opts value = .ok () ↔
    ∃ passport, fromValue host value = .ok passport ∧ doVerify host libs passport key opts = .ok () := by
  rw [present, bind_ok_iff]
  simp only [mapError_ok_iff]

theorem present_survives {value : Json} : present host libs key opts value ≠ .error .raised ↔
    fromValue host value ≠ .error .raised ∧ ∀ passport, fromValue host value = .ok passport →
      verify host passport key opts.now ≠ .error .raised ∧
        (verify host passport key opts.now = .ok () → checkCardSignatures libs passport opts ≠ .error .raised) := by
  refine bind_survives.trans (and_congr (mapError_survives ofPassport_raised) (forall_congr' fun passport => ?_))
  refine imp_congr mapError_ok_iff (bind_survives.trans (and_congr (mapError_survives ofPassport_raised) ?_))
  exact ⟨fun all verified => all () (mapError_ok_iff.mpr verified), fun one _ verified => one (mapError_ok_iff.mp verified)⟩

theorem closed_iff (lawful : host.Lawful) (canonical : ∀ json, (libs.canonical json).isSome) (value : Json) :
    Closed host libs key opts value ↔ Harmless host libs key opts value := by
  constructor
  · intro closed
    obtain ⟨read, documents⟩ := present_survives.mp closed.typed
    refine ⟨fromValue_survives.mp read, fun passport given structured leaves rooted => ?_⟩
    obtain ⟨verifies, carded⟩ := documents passport given
    obtain ⟨dated, signable⟩ :=
      (verify_survives lawful (shaped_of_fromValue given)).mp verifies structured leaves rooted
    refine ⟨dated, signable, fun unexpired signed => ?_, fun unexpired none accepted => ?_⟩
    · have verified := verify_ok_iff.mpr ⟨structured, leaves, rooted, unexpired, signed⟩
      exact (checkCardSignatures_survives canonical (encodable_of_checkSignatures lawful signed)).mp (carded verified)
    · have encodable : Encodable passport.subject := by
        rcases signable unexpired with some | both
        · cases none.symm.trans some
        · exact both.2
      obtain ⟨bytes, written⟩ := canonicalBytes_encodable lawful encodable
      have verified : verify host passport key opts.now = .ok () :=
        verify_ok_iff.mpr ⟨structured, leaves, rooted, unexpired, checkSignatures_empty none written⟩
      obtain ⟨passport', entry, entries, given', listed, _⟩ :=
        closed.signed (present_ok_iff.mpr ⟨passport, given, doVerify_ok_iff.mpr ⟨verified, accepted⟩⟩)
      cases given.symm.trans given'
      cases none.symm.trans listed
  · intro harmless
    refine ⟨present_survives.mpr ⟨fromValue_survives.mpr harmless.subject, fun passport given => ⟨?_, fun verified => ?_⟩⟩,
      fun accepted => ?_⟩
    · refine (verify_survives lawful (shaped_of_fromValue given)).mpr fun structured leaves rooted => ?_
      have sturdy := harmless.document passport given structured leaves rooted
      exact ⟨sturdy.expiresAt, sturdy.signatures⟩
    · obtain ⟨structured, leaves, rooted, unexpired, signed⟩ := verify_ok_iff.mp verified
      have sturdy := harmless.document passport given structured leaves rooted
      exact (checkCardSignatures_survives canonical (encodable_of_checkSignatures lawful signed)).mpr
        (sturdy.card unexpired signed)
    · obtain ⟨passport, given, verified⟩ := present_ok_iff.mp accepted
      obtain ⟨verified, carded⟩ := doVerify_ok_iff.mp verified
      obtain ⟨structured, leaves, rooted, unexpired, signed⟩ := verify_ok_iff.mp verified
      have sturdy := harmless.document passport given structured leaves rooted
      have listed : passport.signatures ≠ .object [] := fun none => sturdy.unsigned unexpired none carded
      obtain ⟨entry, entries, bytes, shape, written, tagged⟩ := signed_entry listed signed
      obtain ⟨protectedB64, _, signatureB64, member, _, shown, tag⟩ := verifyEntry_ok tagged
      exact ⟨passport, entry, entries, given, shape, bytes, protectedB64, signatureB64, written, member, shown, tag⟩

end Presented

/-! ## An expiry that is no text -/

def zeroDigest : String := Base16.encode (List.replicate 32 0)

/-- A passport of one attestation, without signatures. -/
def undated : Json := .object
  [("id", .string "id"), ("issuer", .string "issuer"),
    ("subject", .object [("name", .string "agent"), ("description", .string ""), ("version", .string "1"),
      ("skills", .array [])]),
    ("attestations", .array [.object []]), ("evidence", .array []),
    ("merkle", .object [("root", .string zeroDigest), ("leaves", .array [.string zeroDigest])]),
    ("issuedAt", .string ""), ("expiresAt", .int 5)]

theorem closed_iff_undated : Closed spelledHost CardSigning.plainLibraries [] ⟨0, none⟩ undated ↔
    Harmless spelledHost CardSigning.plainLibraries [] ⟨0, none⟩ undated :=
  closed_iff spelledHost_lawful (fun _ => rfl) undated

theorem undated_raises : ¬ ∀ (host : Host) libs key opts value, host.Lawful →
    (∀ json, (libs.canonical json).isSome) → Closed host libs key opts value := by
  intro closed
  have survives := (closed spelledHost CardSigning.plainLibraries [] ⟨0, none⟩ undated spelledHost_lawful fun _ => rfl).typed
  obtain ⟨passport, given, structured, leaves, rooted, expiresAt⟩ : ∃ passport, fromValue spelledHost undated = .ok passport ∧
      checkStructure passport = .ok () ∧ checkMerkleLeaves spelledHost passport = .ok () ∧
      checkMerkleRoot spelledHost passport = .ok () ∧ passport.expiresAt = .int 5 := by
    refine ⟨_, rfl, rfl, ?_, ?_, rfl⟩
    · unfold checkMerkleLeaves
      rw [leafHashes_eq spelledHost_lawful]
      rfl
    · exact checkMerkleRoot_encoded (decodeLeaves_encode [List.replicate 32 0]) (by simp [Merkle.root, Merkle.build]) rfl
  have verifies := ((present_survives.mp survives).2 passport given).1
  obtain ⟨dated, _⟩ := (verify_survives spelledHost_lawful (shaped_of_fromValue given)).mp verifies structured leaves rooted
  rw [expiresAt] at dated
  simp [Dated] at dated

end AshA2A.Passport
