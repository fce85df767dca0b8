import AshA2A.Proofs.PassportWire

/-! A delivered passport verifies, and what verifies carries what was issued where the
signatures are a list and the card says nothing that is not signed. -/

namespace AshA2A.Passport

open Json (record plainly orderly)
open Protocol Sa2aCrypto
open AgentCard (unlessNil)

/-- A call of `issue/4`. -/
structure Issuance where
  card : AgentCard
  typed : card.Typed
  attestations : List Json
  evidence : List Json
  opts : Options

def Issuance.passport (host : Host) (issuance : Issuance) : Except Fault Document :=
  issue host issuance.card issuance.attestations issuance.evidence issuance.opts

/-- The passport as its JSON text is read. -/
def transport (host : Host) (passport : Document) : Except Fault Document := do
  fromJson host (← toJson host passport)

variable {host : Host} (lawful : host.Lawful) {issuance : Issuance} {passport : Document}

theorem signatureEntry_lastWins (key bytes : Bytes) :
    (Json.array [signatureEntry host key bytes]).lastWins = .array [signatureEntry host key bytes] := by
  simp [signatureEntry, Json.lastWins, Json.lastWinsItems, Json.lastWinsEntries]

include lawful

theorem transport_eq {text : Json} (encoded : AgentCard.encodeAgentCard passport.subject = .ok text) :
    transport host passport = fromWire (wire passport text).lastWins := by
  have written : toWire host passport = .ok (wire passport text) := (toWire_ok_iff lawful).mpr ⟨text, encoded, rfl⟩
  unfold transport toJson fromJson
  rw [written]
  simp only [Bind.bind, Except.bind, pure, Except.pure, fromJsonWithin, plain_print lawful]
  rfl

theorem transport_issued (issued : issuance.passport host = .ok passport) :
    transport host passport = .ok (passport.about (issuance.card.settle.read plainly)) := by
  obtain ⟨accepted, bytes, canonical, rfl⟩ := issue_ok lawful issued
  obtain ⟨text, encoded, _⟩ := (canonicalBytes_ok_iff lawful).mp canonical
  have shown : AgentCard.encodeAgentCard ((draft host issuance.card issuance.attestations issuance.evidence
      issuance.opts).under (.array [signatureEntry host issuance.opts.key bytes])).subject = .ok text := encoded
  rw [transport_eq lawful shown, fromWire_wire lawful issuance.typed accepted _ encoded, signatureEntry_lastWins]
  rfl

/-! ## A delivered passport verifies -/

theorem checkExpiry_issued (issued : issuance.passport host = .ok passport) {now : Int}
    (unexpired : ∀ expiry ∈ issuance.opts.expiresAt, now ≤ expiry) {received : Document}
    (carried : received.expiresAt = passport.expiresAt) : checkExpiry host received now = .ok () := by
  obtain ⟨_, bytes, _, rfl⟩ := issue_ok lawful issued
  unfold checkExpiry
  rw [carried]
  cases given : issuance.opts.expiresAt with
  | none => simp [Document.under, draft, given]
  | some expiry =>
    have late := unexpired expiry given
    simp only [Document.under, draft, given, Option.map_some, Option.getD_some, lawful.fromIso8601]
    exact if_neg (by omega)

theorem checkStructure_issued (issued : issuance.passport host = .ok passport) (subject : AgentCard)
    (signatures : Json) : checkStructure ((passport.about subject).under signatures) = .ok () ↔ passport.id ≠ "" := by
  obtain ⟨accepted, bytes, _, rfl⟩ := issue_ok lawful issued
  have attested : issuance.attestations.map Json.lastWins ≠ [] ∧
      (issuance.attestations.map Json.lastWins).all Json.isObject := by
    rw [isObject_lastWins]
    exact ⟨by simpa using accepted.attestations.1, accepted.attestations.2⟩
  have shown : (issuance.evidence.map Json.lastWins).all Json.isObject := by
    rw [isObject_lastWins]
    exact accepted.evidence
  simp only [checkStructure, Document.under, Document.about, draft]
  by_cases none : issuance.opts.id.getD ("urn:ash-a2a:passport:" ++ Base16.encode issuance.opts.strongRandBytes) = ""
  · simp [none]
  · simp [none, accepted.issuer, attested, shown]

theorem leaves_issued (issued : issuance.passport host = .ok passport) :
    leaves host issuance.attestations issuance.evidence ≠ [] ∧
      passport.attestations = issuance.attestations.map Json.lastWins ∧
      passport.evidence = issuance.evidence.map Json.lastWins ∧
      passport.merkle = merkleOf host (leaves host issuance.attestations issuance.evidence) := by
  obtain ⟨accepted, bytes, _, rfl⟩ := issue_ok lawful issued
  exact ⟨by simp [leaves, accepted.attestations.1], rfl, rfl, rfl⟩

/-- All but the structure and the signatures. -/
theorem verify_issued_iff (issued : issuance.passport host = .ok passport) (key : Bytes) {now : Int}
    (unexpired : ∀ expiry ∈ issuance.opts.expiresAt, now ≤ expiry) (signatures : Json) :
    let received := (passport.about (issuance.card.settle.read plainly)).under signatures
    verify host received key now = .ok () ↔ passport.id ≠ "" ∧ checkSignatures host received key = .ok () := by
  intro received
  obtain ⟨some_pinned, attested, shown, pinned⟩ := leaves_issued lawful issued
  have structured := checkStructure_issued lawful issued (issuance.card.settle.read plainly) signatures
  have kept : checkMerkleLeaves host received = .ok () := checkMerkleLeaves_delivered lawful attested shown pinned
  have rooted : checkMerkleRoot host received = .ok () := checkMerkleRoot_delivered some_pinned pinned
  have unexpired : checkExpiry host received now = .ok () := checkExpiry_issued lawful issued unexpired rfl
  unfold verify
  rw [kept, rooted, unexpired]
  constructor
  · intro verified
    obtain ⟨⟨⟩, formed, rest⟩ := bind_ok_iff.mp verified
    exact ⟨structured.mp formed, rest⟩
  · rintro ⟨named, rest⟩
    exact bind_ok_iff.mpr ⟨(), structured.mpr named, rest⟩

theorem verify_delivered_iff (issued : issuance.passport host = .ok passport) {now : Int}
    (unexpired : ∀ expiry ∈ issuance.opts.expiresAt, now ≤ expiry) :
    (do verify host (← transport host passport) issuance.opts.key now) = .ok () ↔ passport.id ≠ "" := by
  have moved := transport_issued lawful issued
  have whole := verify_issued_iff lawful issued issuance.opts.key unexpired passport.signatures
  rw [moved]
  refine whole.trans (and_iff_left ?_)
  obtain ⟨accepted, bytes, canonical, rfl⟩ := issue_ok lawful issued
  have same := canonicalBytes_delivered lawful rfl (.array [signatureEntry host issuance.opts.key bytes]) canonical
  refine bind_ok_iff.mpr ⟨bytes, same, forM_ok_iff.mpr fun item member => ?_⟩
  obtain rfl := List.mem_singleton.mp member
  exact verifyEntry_signature lawful issuance.opts.key bytes 0

end AshA2A.Passport
