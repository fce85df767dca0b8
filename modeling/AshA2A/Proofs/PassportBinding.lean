import AshA2A.Json.Spelling
import AshA2A.Proofs.Passport

/-! What a passport that verifies has in common with an issued one, where no signature is
made without the key. -/

namespace AshA2A.Passport

open Json (record plainly orderly)
open Protocol Sa2aCrypto
open AgentCard (unlessNil)

/-! ## Passports that were read -/

/-- What `from_json/1` makes of a decoded map. -/
def Received (presented : Document) : Prop := ∃ map : Json, fromWire map.lastWins = .ok presented

theorem received_of_fromJsonWithin {host : Host} {bound : Nat} {binary : Bytes} {presented : Document}
    (read : fromJsonWithin host bound binary = .ok presented) : Received presented := by
  induction bound generalizing binary with
  | zero => cases read
  | succ bound ih =>
    unfold fromJsonWithin at read
    split at read
    · exact ih read
    next map _ decoded =>
      obtain ⟨before, _, rfl⟩ := Option.map_eq_some_iff.mp decoded
      exact ⟨before, read⟩
    · cases read

theorem received_of_fromJson {host : Host} {binary : Bytes} {presented : Document}
    (read : fromJson host binary = .ok presented) : Received presented :=
  received_of_fromJsonWithin read

/-- No object in the passport repeats a key. -/
structure Plain (passport : Document) : Prop where
  subject : passport.subject.read plainly = passport.subject
  attestations : passport.attestations.map Json.lastWins = passport.attestations
  evidence : passport.evidence.map Json.lastWins = passport.evidence
  merkle : passport.merkle.lastWins = passport.merkle
  expiresAt : passport.expiresAt.lastWins = passport.expiresAt

theorem member_lastWins {map value : Json} {key : String} (found : map.lastWins.get? key = some value) :
    value.lastWins = value := by
  have found := (plainly.get?_value map key).symm.trans found
  obtain ⟨before, _, rfl⟩ := Option.map_eq_some_iff.mp found
  exact Json.lastWins_lastWins before

theorem decodeSubject_ok {subject : Json} {card : AgentCard} (decoded : decodeSubject subject = .ok card) :
    AgentCard.decodeAgentCard subject = .ok card := by
  unfold decodeSubject at decoded
  split at decoded
  next given => cases decoded; exact given
  · cases decoded
  · cases decoded

theorem mapListMember_plain {map : Json} {name : String} {entries : List Json}
    (listed : mapListMember map.lastWins name = .ok entries) : entries.map Json.lastWins = entries := by
  unfold mapListMember at listed
  split at listed
  · split at listed
    · cases listed; rfl
    · cases listed
  next items found =>
    split at listed
    · cases listed
      have whole := member_lastWins found
      rw [Json.lastWins, Json.lastWinsItems_map] at whole
      exact Json.array.inj whole
    · cases listed
  · cases listed

theorem merkleMember_plain {map merkle : Json} (carried : merkleMember map.lastWins = .ok merkle) :
    merkle.lastWins = merkle := by
  unfold merkleMember at carried
  split at carried
  next found =>
    split at carried
    · split at carried
      · cases carried
        exact member_lastWins found
      · cases carried
    · cases carried
  · cases carried

theorem Received.plain {presented : Document} (received : Received presented) : Plain presented := by
  obtain ⟨map, read⟩ := received
  unfold fromWire at read
  split at read
  next =>
    simp only [bind_ok_iff] at read
    obtain ⟨id, _, issuer, _, subject, placed, card, decoded, attestations, attested, evidence, shown, merkle, pinned,
      issuedAt, _, same⟩ := read
    cases Except.ok.inj same
    have fixed : subject.lastWins = subject := by
      unfold objectMember at placed
      split at placed
      next found => cases placed; exact member_lastWins found
      · cases placed
    refine ⟨?_, mapListMember_plain attested, mapListMember_plain shown, merkleMember_plain pinned, ?_⟩
    · have decoded := decodeSubject_ok decoded
      have again : AgentCard.decodeAgentCard subject.lastWins = .ok (card.read plainly) :=
        AgentCard.decodeAgentCard_read plainly decoded
      rw [fixed, decoded] at again
      exact (Except.ok.inj again).symm
    · show (AgentCard.getOr map.lastWins "expiresAt" .null).lastWins = AgentCard.getOr map.lastWins "expiresAt" .null
      rw [AgentCard.getOr]
      cases found : map.lastWins.get? "expiresAt" with
      | none => simp [Json.lastWins]
      | some value => exact member_lastWins found
  · cases read

/-! ## Equal canonical bytes -/

/-- The content in which a presented passport agrees with an issued one, as `==` compares. -/
structure Carries (presented issued : Document) : Prop where
  subject : presented.subject.read orderly = issued.subject.read orderly
  attestations : presented.attestations.map Json.norm = issued.attestations.map Json.norm
  evidence : presented.evidence.map Json.norm = issued.evidence.map Json.norm
  root : (presented.merkle.get? "root").map Json.norm = (issued.merkle.get? "root").map Json.norm
  expiresAt : presented.expiresAt.Same issued.expiresAt

theorem signedMembers_same {host : Host} (lawful : host.Lawful) {first second : Document} {text other : Json}
    (same : host.canonical (record (signedMembers first text)).lastWins =
      host.canonical (record (signedMembers second other)).lastWins) (key : String) :
    ((signedMembers first text).lookup key).join.map (Json.norm ∘ Json.lastWins) =
      ((signedMembers second other).lookup key).join.map (Json.norm ∘ Json.lastWins) := by
  have found : ∀ (passport : Document) (text : Json),
      (record (signedMembers passport text)).lastWins.norm.get? key =
        ((signedMembers passport text).lookup key).join.map (Json.norm ∘ Json.lastWins) := by
    intro passport text
    have distinct : ((signedMembers passport text).map Prod.fst).Nodup := by simp [signedMembers]
    have ordered := orderly.get?_value (record (signedMembers passport text)).lastWins key
    have plain := plainly.get?_value (record (signedMembers passport text)) key
    rw [← Option.map_map, ← Json.get?_record distinct]
    exact ordered.trans (congrArg _ plain)
  rw [← found, ← found, lawful.canonical _ _ same]

theorem norm_array (items : List Json) : (Json.array items).norm = .array (items.map Json.norm) :=
  orderly.array items

theorem items_same {first second : List Json} (plain : first.map Json.lastWins = first)
    (other : second.map Json.lastWins = second)
    (same : some (Json.norm (Json.lastWins (.array (first.map Json.lastWins)))) =
      some (Json.norm (Json.lastWins (.array (second.map Json.lastWins))))) :
    first.map Json.norm = second.map Json.norm := by
  rw [Json.lastWins, Json.lastWins, Json.lastWinsItems_map, Json.lastWinsItems_map, plain, plain, other, other,
    norm_array, norm_array, Option.some.injEq, Json.array.injEq] at same
  exact same

theorem expiry_same {first second : Json} (plain : first.lastWins = first) (other : second.lastWins = second)
    (same : (unlessNil first).map (Json.norm ∘ Json.lastWins) = (unlessNil second).map (Json.norm ∘ Json.lastWins)) :
    first.Same second := by
  have read : ∀ value : Json, value.lastWins = value →
      (unlessNil value).map (Json.norm ∘ Json.lastWins) = unlessNil value.norm := by
    intro value plain
    have once : (unlessNil value).map Json.lastWins = unlessNil value :=
      (AgentCard.unlessNil_read plainly value).symm.trans (congrArg unlessNil plain)
    rw [← Option.map_map, once]
    exact (AgentCard.unlessNil_read orderly value).symm
  rw [read first plain, read second other] at same
  rw [Json.Same, ← AgentCard.unlessNil_getD first.norm, ← AgentCard.unlessNil_getD second.norm, same]

theorem encode_plain {card : AgentCard} {text : Json} (plain : card.read plainly = card)
    (encoded : AgentCard.encodeAgentCard card = .ok text) : text.lastWins = text := by
  have moved := AgentCard.encodeAgentCard_read AgentCard.plainly_inPlace card
  rw [plain, encoded] at moved
  exact (Except.ok.inj moved).symm

/-- Two cards of one encoding, where neither holds more than it shows. -/
theorem subject_same {first second : AgentCard} {text other : Json} (settled : first.Settled)
    (shown : second.Settled) (encoded : AgentCard.encodeAgentCard first = .ok text)
    (written : AgentCard.encodeAgentCard second = .ok other) (same : text.Same other) :
    first.read orderly = second.read orderly := by
  have decoded : ∀ {card : AgentCard} {text : Json}, card.Settled → AgentCard.encodeAgentCard card = .ok text →
      AgentCard.decodeAgentCard text.norm = .ok (card.read orderly) := by
    intro card text settled encoded
    obtain ⟨again, whole, back⟩ := AgentCard.decode_encode settled
    cases encoded.symm.trans whole
    exact AgentCard.decodeAgentCard_read orderly back
  have back := decoded settled encoded
  rw [same, decoded shown written] at back
  exact (Except.ok.inj back).symm

theorem Carries.settled {presented issued : Document} (carried : Carries presented issued)
    (shown : issued.subject.Settled) : presented.subject.Settled := by
  have settled : (presented.subject.read orderly).Settled := carried.subject ▸ shown.read
  exact settled.of_read orderly_keeps

variable {host : Host} (lawful : host.Lawful)

include lawful

/-- The signed bytes decide all but what the encoding of the card leaves out. -/
theorem carries_of_settled {presented issued : Document} (plain : Plain presented) (other : Plain issued)
    (settled : presented.subject.Settled) (shown : issued.subject.Settled) {bytes : Bytes}
    (canonical : canonicalBytes host presented = .ok bytes) (signed : canonicalBytes host issued = .ok bytes) :
    Carries presented issued := by
  obtain ⟨text, encoded, rfl⟩ := (canonicalBytes_ok_iff lawful).mp canonical
  obtain ⟨written, whole, same⟩ := (canonicalBytes_ok_iff lawful).mp signed
  have each := signedMembers_same lawful same
  have subject : text.Same written := by
    have same : some text.lastWins.lastWins.norm = some written.lastWins.lastWins.norm := each "subject"
    rw [encode_plain plain.subject encoded, encode_plain plain.subject encoded, encode_plain other.subject whole,
      encode_plain other.subject whole] at same
    exact Option.some.inj same
  have merkle : presented.merkle.norm = issued.merkle.norm := by
    have same : some presented.merkle.lastWins.norm = some issued.merkle.lastWins.norm := each "merkle"
    rw [plain.merkle, other.merkle] at same
    exact Option.some.inj same
  have root : ∀ merkle : Json, merkle.norm.get? "root" = (merkle.get? "root").map Json.norm :=
    fun merkle => orderly.get?_value merkle "root"
  exact {
    subject := subject_same settled shown encoded whole subject
    attestations := items_same plain.attestations other.attestations (each "attestations")
    evidence := items_same plain.evidence other.evidence (each "evidence")
    root := by rw [← root, ← root, merkle]
    expiresAt := expiry_same plain.expiresAt other.expiresAt (each "expiresAt") }

omit lawful

/-! ## Signatures -/

/-- The issuer's key made a tag of this message. -/
def Issuance.Signed (host : Host) (issuance : Issuance) (message : Bytes) : Prop :=
  ∃ passport bytes, issuance.passport host = .ok passport ∧ canonicalBytes host passport = .ok bytes ∧
    message = signingInput (protectedText host bytes) bytes

/-- No tag under the key is among the presented signatures but those of issued passports. -/
def Unforgeable (host : Host) (key : Bytes) (log : List Issuance) (presented : Document) : Prop :=
  ∀ entries, presented.signatures = .array entries → ∀ entry ∈ entries, ∀ protectedB64 signatureB64 signature bytes,
    entry.string? "protected" = some protectedB64 → entry.string? "signature" = some signatureB64 →
    Base64Url.decode signatureB64 = some signature → canonicalBytes host presented = .ok bytes →
    signature = host.hmac key (signingInput protectedB64 bytes) →
    ∃ issuance ∈ log, issuance.opts.key = key ∧ issuance.Signed host (signingInput protectedB64 bytes)

/-- Some passport issued under the key has this content. -/
def Bound (host : Host) (key : Bytes) (log : List Issuance) (presented : Document) : Prop :=
  ∃ issuance ∈ log, issuance.opts.key = key ∧ ∃ passport issued, issuance.passport host = .ok passport ∧
    transport host passport = .ok issued ∧ Carries presented issued

theorem verifyEntry_ok {key bytes : Bytes} {digest : String} {entry : Json} {index : Nat}
    (verified : verifyEntry host key bytes digest entry index = .ok ()) :
    ∃ protectedB64 header signatureB64, entry.string? "protected" = some protectedB64 ∧
      Base64Url.decode protectedB64 = some header ∧ entry.string? "signature" = some signatureB64 ∧
      Base64Url.decode signatureB64 = some (host.hmac key (signingInput protectedB64 bytes)) := by
  have member : ∀ {name text : String}, stringSigMember entry name index = .ok text → entry.string? name = some text := by
    intro name text given
    unfold stringSigMember at given
    split at given
    next found => cases given; exact found
    · cases given
  have decoded : ∀ {text : String} {bytes : Bytes}, b64urlDecode text index = .ok bytes →
      Base64Url.decode text = some bytes := by
    intro text bytes given
    unfold b64urlDecode at given
    split at given
    next found => cases given; exact found
    · cases given
  unfold verifyEntry at verified
  split at verified
  · simp only [bind_ok_iff] at verified
    obtain ⟨protectedB64, named, signatureB64, shown, header, read, ⟨_, _⟩, _, signature, tag, checked⟩ := verified
    refine ⟨protectedB64, header, signatureB64, member named, decoded read, member shown, ?_⟩
    split at checked
    · cases checked
    · split at checked
      · cases checked
      · split at checked
        · cases checked
        next same => rw [not_not.mp same]; exact decoded tag
  · cases verified

theorem signed_entry {passport : Document} {key : Bytes} (nonempty : passport.signatures ≠ .object [])
    (checked : checkSignatures host passport key = .ok ()) :
    ∃ entry entries bytes, passport.signatures = .array (entry :: entries) ∧
      canonicalBytes host passport = .ok bytes ∧
      verifyEntry host key bytes (sha256Hex host bytes) entry 0 = .ok () := by
  unfold checkSignatures at checked
  split at checked
  · cases checked
  next entries some_signed given =>
    obtain ⟨bytes, canonical, each⟩ := bind_ok_iff.mp checked
    cases entries with
    | nil => exact absurd rfl some_signed
    | cons entry rest => exact ⟨entry, rest, bytes, given, canonical, forM_ok_iff.mp each (entry, 0) (by simp)⟩
  next entries given =>
    obtain ⟨_, _, rest⟩ := bind_ok_iff.mp checked
    cases entries with
    | nil => exact absurd given nonempty
    | cons _ _ => cases rest
  · cases checked

theorem eq_of_stop {stop : UInt8} {front back bytes other : Bytes} (free : stop ∉ back)
    (same : front ++ stop :: bytes = back ++ stop :: other) (longer : front.length ≤ back.length) : bytes = other := by
  obtain ⟨rest, split, tail⟩ | ⟨rest, split, tail⟩ := List.append_eq_append_iff.mp same
  · cases rest with
    | nil => exact List.tail_eq_of_cons_eq tail
    | cons byte rest =>
      obtain ⟨rfl, _⟩ := List.cons.inj tail
      exact absurd (split ▸ List.mem_append_right front (List.mem_cons_self ..)) free
  · have empty : rest = [] := by
      rw [split, List.length_append] at longer
      exact List.length_eq_zero_iff.mp (by omega)
    subst empty
    exact (List.tail_eq_of_cons_eq tail).symm

theorem signingInput_inj {first second : String} {bytes other header headed : Bytes}
    (read : Base64Url.decode first = some header) (back : Base64Url.decode second = some headed)
    (same : signingInput first bytes = signingInput second other) : bytes = other := by
  obtain shorter | longer := Nat.le_total (utf8 first).length (utf8 second).length
  · exact eq_of_stop (Base64Url.free_of_decode back) same shorter
  · exact (eq_of_stop (Base64Url.free_of_decode read) same.symm longer).symm

/-! ## What a verified passport is bound to -/

theorem checked_of_verify {presented : Document} {key : Bytes} {now : Int}
    (verified : verify host presented key now = .ok ()) : checkSignatures host presented key = .ok () := by
  simp only [verify, bind_ok_iff] at verified
  obtain ⟨_, _, _, _, _, _, _, _, checked⟩ := verified
  exact checked

include lawful

theorem subject_issued {issuance : Issuance} {passport : Document} (issued : issuance.passport host = .ok passport) :
    passport.subject = issuance.card := by
  obtain ⟨_, _, _, rfl⟩ := issue_ok lawful issued
  rfl

theorem transport_received {issuance : Issuance} {passport issued : Document}
    (made : issuance.passport host = .ok passport) (moved : transport host passport = .ok issued) :
    Received issued ∧ issued.subject.Settled := by
  obtain ⟨text, _, read⟩ := bind_ok_iff.mp moved
  refine ⟨received_of_fromJson read, ?_⟩
  cases (transport_issued lawful made).symm.trans moved
  exact issuance.typed.settled.read

theorem bound_iff {presented : Document} {key : Bytes} {now : Int} {log : List Issuance}
    (received : Received presented) (signed : presented.signatures ≠ .object [])
    (verified : verify host presented key now = .ok ()) (unforgeable : Unforgeable host key log presented) :
    Bound host key log presented ↔ presented.subject.Settled := by
  constructor
  · rintro ⟨issuance, _, _, passport, issued, made, moved, carried⟩
    exact carried.settled (transport_received lawful made moved).2
  · intro settled
    obtain ⟨entry, entries, bytes, listed, canonical, checked⟩ := signed_entry signed (checked_of_verify verified)
    obtain ⟨protectedB64, header, signatureB64, named, read, shown, tag⟩ := verifyEntry_ok checked
    obtain ⟨issuance, logged, keyed, passport, covered, made, signable, message⟩ := unforgeable _ listed entry
      (List.mem_cons_self ..) protectedB64 signatureB64 _ bytes named shown tag canonical rfl
    have same : bytes = covered := signingInput_inj read (Base64Url.decode_encode _) message
    subst same
    have moved := transport_issued lawful made
    obtain ⟨back, shows⟩ := transport_received lawful made moved
    have carries := carries_of_settled lawful received.plain back.plain settled shows canonical
      (canonicalBytes_delivered lawful (subject_issued lawful made) passport.signatures signable)
    exact ⟨issuance, logged, keyed, passport, _, made, moved, carries⟩

/-! ## A passport without signatures -/

/-- The map of signatures is gone through and has nothing to check. -/
theorem unsigned_verifies {issuance : Issuance} {passport : Document} (issued : issuance.passport host = .ok passport)
    (named : passport.id ≠ "") (key : Bytes) (now : Int) (unexpired : ∀ expiry ∈ issuance.opts.expiresAt, now ≤ expiry) :
    let forged := (passport.about (issuance.card.settle.read plainly)).under (.object [])
    Received forged ∧ forged.subject.Settled ∧ verify host forged key now = .ok () := by
  intro forged
  have verified := (verify_issued_iff lawful issued key unexpired (.object [])).mpr
  obtain ⟨accepted, bytes, canonical, rfl⟩ := issue_ok lawful issued
  obtain ⟨text, encoded, _⟩ := (canonicalBytes_ok_iff lawful).mp canonical
  have same := canonicalBytes_delivered lawful rfl (.object []) canonical
  have none : (Json.object []).lastWins = .object [] := by simp [Json.lastWins, Json.lastWinsEntries]
  have read := fromWire_wire lawful issuance.typed accepted (.object []) encoded
  rw [none] at read
  exact ⟨⟨_, read⟩, issuance.typed.settled.read, verified ⟨named, bind_ok_iff.mpr ⟨bytes, same, rfl⟩⟩⟩

omit lawful

theorem unforgeable_unsigned {presented : Document} {key : Bytes} {log : List Issuance}
    (unsigned : presented.signatures = .object []) : Unforgeable host key log presented :=
  fun _ listed => by rw [unsigned] at listed; cases listed

theorem not_bound_nil {presented : Document} {key : Bytes} : ¬ Bound host key [] presented :=
  fun ⟨_, member, _⟩ => List.not_mem_nil member

include lawful in
theorem canonicalBytes_under {passport : Document} (signatures : Json) {bytes : Bytes}
    (canonical : canonicalBytes host passport = .ok bytes) :
    canonicalBytes host (passport.under signatures) = .ok bytes := by
  obtain ⟨text, encoded, same⟩ := (canonicalBytes_ok_iff lawful).mp canonical
  exact (canonicalBytes_ok_iff lawful).mpr ⟨text, encoded, same⟩

include lawful in
/-- What was issued is presented with no signature but its own. -/
theorem unforgeable_delivered {issuance : Issuance} {passport issued : Document} {log : List Issuance}
    (made : issuance.passport host = .ok passport) (moved : transport host passport = .ok issued)
    (logged : issuance ∈ log) : Unforgeable host issuance.opts.key log issued := by
  have delivered := (transport_issued lawful made).symm.trans moved
  obtain ⟨_, bytes, canonical, rfl⟩ := issue_ok lawful made
  cases delivered
  intro entries listed entry member protectedB64 _ _ again named _ _ signable _
  cases listed
  obtain rfl := List.mem_singleton.mp member
  cases Option.some.inj named
  have same := canonicalBytes_delivered lawful rfl (.array [signatureEntry host issuance.opts.key bytes]) canonical
  cases same.symm.trans signable
  exact ⟨issuance, logged, rfl, _, bytes, made, canonicalBytes_under lawful _ canonical, rfl⟩

/-! ## Delivery and content -/

/-- Whoever presents the passport, it says what was issued. -/
def Binding (host : Host) (presented : Document) : Prop :=
  ∀ key now log, verify host presented key now = .ok () → Unforgeable host key log presented →
    Bound host key log presented

def bareCard : AgentCard :=
  { name := .string "agent", description := .string "", url := .string "https://agent", version := .string "1"
    skills := [] }

theorem bareCard_typed : bareCard.Typed where
  name := rfl
  description := rfl
  url := rfl
  version := rfl
  skills _ member := absurd member List.not_mem_nil
  provider _ given := nomatch given
  documentationUrl := .inl rfl
  iconUrl := .inl rfl
  preferredTransport := .inl rfl
  protocolVersion := .inr rfl
  capabilities := ⟨nofun, nofun, nofun, nofun, nofun⟩
  defaultInputModes := rfl
  defaultOutputModes := rfl
  supportedInterfaces _ member := absurd member List.not_mem_nil
  securitySchemes _ member := absurd member List.not_mem_nil
  security _ member := absurd member List.not_mem_nil
  signatures := ⟨[], rfl, fun _ member => absurd member List.not_mem_nil⟩

/-- One attestation of nothing, for good. -/
def bareIssuance : Issuance where
  card := bareCard
  typed := bareCard_typed
  attestations := [.object []]
  evidence := []
  opts := { key := [], issuer := "issuer", now := 0, id := some "id" }

include lawful

theorem named_iff {issuance : Issuance} {passport : Document} (issued : issuance.passport host = .ok passport) :
    passport.id ≠ "" ↔ issuance.opts.id ≠ some "" := by
  obtain ⟨_, _, _, rfl⟩ := issue_ok lawful issued
  show issuance.opts.id.getD _ ≠ "" ↔ _
  cases issuance.opts.id with
  | none => simp [String.append_eq_empty_iff]
  | some id => simp

theorem bareIssuance_issued : ∃ passport, bareIssuance.passport host = .ok passport :=
  issue_accepted lawful bareCard_typed ⟨nofun, ⟨nofun, rfl⟩, rfl⟩ fun _ given => nomatch given

/-- A passport that verifies under the issuer's key though nobody signed anything. -/
theorem unsigned_not_binding : ∃ forged, Received forged ∧ forged.signatures = .object [] ∧ forged.subject.Settled ∧
    ¬ Binding host forged := by
  obtain ⟨passport, issued⟩ := bareIssuance_issued lawful
  have named : passport.id ≠ "" := (named_iff lawful issued).mpr (by decide)
  obtain ⟨received, settled, verified⟩ :=
    unsigned_verifies lawful issued named [] 0 fun _ given => nomatch given
  exact ⟨_, received, rfl, settled, fun binding => not_bound_nil (binding [] 0 [] verified (unforgeable_unsigned rfl))⟩

theorem delivered_and_bound :
    (∀ (issuance : Issuance) passport now, issuance.passport host = .ok passport →
      (∀ expiry ∈ issuance.opts.expiresAt, now ≤ expiry) →
      ((do verify host (← transport host passport) issuance.opts.key now) = .ok () ↔ issuance.opts.id ≠ some "")) ∧
    (∀ signatures, (∀ presented, Received presented → presented.signatures = signatures →
      presented.subject.Settled → Binding host presented) ↔ signatures ≠ .object []) ∧
    ∀ presented key now log, Received presented → presented.signatures ≠ .object [] →
      verify host presented key now = .ok () → Unforgeable host key log presented →
      (Bound host key log presented ↔ presented.subject.Settled) := by
  refine ⟨?_, ?_, ?_⟩
  · intro issuance passport now issued unexpired
    exact (verify_delivered_iff lawful issued unexpired).trans (named_iff lawful issued)
  · intro signatures
    constructor
    · rintro binds rfl
      obtain ⟨forged, received, unsigned, settled, loose⟩ := unsigned_not_binding lawful
      exact loose (binds forged received unsigned settled)
    · rintro signed presented received rfl settled key now log verified unforgeable
      exact (bound_iff lawful received signed verified unforgeable).mpr settled
  · intro presented key now log received signed verified unforgeable
    exact bound_iff lawful received signed verified unforgeable

omit lawful

/-- Libraries whose texts spell out what they stand for. -/
noncomputable def spelledHost : Host where
  print := Json.Spelling.json
  decode := Json.Spelling.read
  canonical json := Json.Spelling.json json.norm
  sha256 _ := List.replicate 32 0
  hmac key message := key ++ message
  toIso8601 instant := String.ofList (List.replicate (Equiv.intEquivNat instant) '0')
  fromIso8601 text := some (Equiv.intEquivNat.symm text.toList.length)

theorem spelledHost_lawful : spelledHost.Lawful where
  decode_print := Json.Spelling.read_json
  canonical _ _ same := Json.Spelling.json_injective same
  sha256_length _ := List.length_replicate
  fromIso8601 instant := by simp [spelledHost]

theorem delivered_and_bound_spelled : ∃ passport issued, bareIssuance.passport spelledHost = .ok passport ∧
    transport spelledHost passport = .ok issued ∧ verify spelledHost issued bareIssuance.opts.key 0 = .ok () ∧
    Bound spelledHost bareIssuance.opts.key [bareIssuance] issued := by
  obtain ⟨delivered, _, bound⟩ := delivered_and_bound spelledHost_lawful
  obtain ⟨passport, made⟩ := bareIssuance_issued spelledHost_lawful
  have verified := (delivered bareIssuance passport 0 made fun _ given => nomatch given).mpr (by decide)
  obtain ⟨issued, moved, verified⟩ := bind_ok_iff.mp verified
  obtain ⟨received, settled⟩ := transport_received spelledHost_lawful made moved
  have signed : issued.signatures ≠ .object [] := by
    cases (transport_issued spelledHost_lawful made).symm.trans moved
    obtain ⟨_, _, _, rfl⟩ := issue_ok spelledHost_lawful made
    exact nofun
  have unforgeable := unforgeable_delivered spelledHost_lawful made moved (List.mem_singleton_self bareIssuance)
  exact ⟨passport, issued, made, moved, verified, (bound issued _ 0 _ received signed verified unforgeable).mpr settled⟩

/-- Nobody signed the passport, and its signatures are an empty map. -/
theorem unsigned_admitted : ∃ forged, Received forged ∧ forged.signatures = .object [] ∧
    verify spelledHost forged [] 0 = .ok () ∧ Unforgeable spelledHost [] [] forged ∧
    ¬ Bound spelledHost [] [] forged := by
  obtain ⟨passport, issued⟩ := bareIssuance_issued spelledHost_lawful
  have named : passport.id ≠ "" := (named_iff spelledHost_lawful issued).mpr (by decide)
  obtain ⟨received, _, verified⟩ :=
    unsigned_verifies spelledHost_lawful issued named [] 0 fun _ given => nomatch given
  exact ⟨_, received, rfl, verified, unforgeable_unsigned rfl, not_bound_nil⟩

end AshA2A.Passport
