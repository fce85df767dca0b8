import AshA2A.Proofs.CardReading
import AshA2A.Sa2aCrypto.Registry.File

/-! What the keys of a registry document say, and what each mutation does to the view. -/

namespace AshA2A

namespace Json

variable {json : Json} {key : String}

theorem string?_iff {text : String} : json.string? key = some text ↔ json.get? key = some (.string text) := by
  unfold string?
  split
  next value given => rw [given]; simp
  next other => exact iff_of_false (by simp) (other text)

theorem nat?_iff {value : Nat} : json.nat? key = some value ↔ json.get? key = some (.int value) := by
  unfold nat?
  split
  next given => rw [given]; simp [Int.ofNat_eq_natCast]
  next other => exact iff_of_false (by simp) (other value)

end Json

namespace Sa2aCrypto

theorem KeyState.ofName_iff {text : String} {state : KeyState} : KeyState.ofName text = some state ↔ state.name = text := by
  constructor
  · intro found
    unfold ofName at found
    simpa using List.find?_some found
  · rintro rfl
    cases state <;> decide

theorem Tier.ofName_iff {text : String} {tier : Tier} : Tier.ofName text = some tier ↔ tier.name = text := by
  constructor
  · intro found
    unfold ofName at found
    simpa using List.find?_some found
  · rintro rfl
    cases tier <;> decide

namespace Registry

theorem b64_iff {text : String} {bytes : Bytes} : b64 text = some bytes ↔ Base64.encode bytes = text := by
  rw [b64, Option.filter_eq_some_iff]
  constructor
  · rintro ⟨_, same⟩
    exact of_decide_eq_true same
  · rintro rfl
    exact ⟨Base64Url.decode_encode bytes, decide_eq_true rfl⟩

section Checks

variable {ε α : Type} {failure : ε}

@[simp] theorem expect_ok {given : Option α} {value : α} : expect failure given = .ok value ↔ given = some value := by
  cases given <;> simp [expect]

@[simp] theorem ensure_ok {holds : Bool} {done : Unit} : ensure failure holds = .ok done ↔ holds = true := by
  cases holds <;> simp [ensure]

@[simp] theorem refusing_ok {given : Except String α} {value : α} : refusing given = .ok value ↔ given = .ok value := by
  cases given <;> simp [refusing, Except.mapError]

end Checks

@[simp] theorem pure_ok {ε α : Type} {given value : α} : (pure given : Except ε α) = .ok value ↔ given = value := by
  simp [pure, Except.pure]

/-- A number or nothing, as it is stored. -/
def orNil : Option Int → Json
  | none => .null
  | some value => .int value

theorem intOrNil_iff {json : Json} {value : Option Int} : intOrNil json = some value ↔ json = orNil value := by
  cases json <;> cases value <;> simp [intOrNil, orNil]

/-- What a mutation may change of an entry. -/
def Entry.amended (entry : Entry) (state : KeyState) (notAfter : Option Int) (revocationEpoch : Nat) : Entry :=
  { entry with record := { entry.record with state, notAfter, revocationEpoch } }

/-- The entry as the JSON library reads it back. -/
def Entry.read (reading : Json.Reading) (entry : Entry) : Entry :=
  { entry with attestation := reading.value entry.attestation }

/-- The entry that a record stands for. -/
def Candidate.entry (candidate : Candidate) (opts : Options) (clock : Int) (epoch : Nat) : Option Entry := do
  let custodyTier ← candidate.custodyTier
  let state ← candidate.state
  let .string custodianId := candidate.custodianId | none
  let notAfter ← intOrNil candidate.notAfter
  let activatedAt ← intOrNil (activation state opts clock)
  return {
    record := { candidate with custodianId, custodyTier, state, revocationEpoch := epoch, notAfter }
    activatedAt
    attestation := opts.attestation.val }

/-! ## Stored keys -/

/-- What a key of the document says. -/
structure Stored (host : Host) (epoch : Nat) (key : Json) (entry : Entry) : Prop where
  fields : key.hasKeys fields
  kid : key.get? "kid" = some (.string entry.record.kid)
  custodian : key.get? "custodian_id" = some (.string entry.record.custodianId)
  tier : key.get? "custody_tier" = some (.string entry.record.custodyTier.name)
  state : key.get? "state" = some (.string entry.record.state.name)
  alg : key.get? "alg" = some (.string entry.record.alg)
  registered : (Suite.profileOf entry.record.alg).isSome
  spki : ∃ der, key.get? "spki_der" = some (.string (Base64.encode der)) ∧
    Spki.decode entry.record.alg der = some entry.record.publicKey
  identity : KeyRef.kid host.sha256 entry.record.alg entry.record.publicKey = some entry.record.kid
  notAfter : key.get? "not_after" = some (orNil entry.record.notAfter)
  activatedAt : key.get? "activated_at" = some (orNil entry.activatedAt)
  revocationEpoch : key.get? "revocation_epoch" = some (.int entry.record.revocationEpoch)
  bounded : entry.record.revocationEpoch ≤ epoch
  attestation : key.get? "attestation" = some entry.attestation

variable {host : Host} {epoch : Nat} {key : Json} {entry : Entry}

theorem decodeKey_iff : decodeKey host epoch key = .ok entry ↔ Stored host epoch key entry := by
  simp only [decodeKey, bind_ok_iff, expect_ok, ensure_ok, pure_ok, Option.bind_eq_some_iff, Option.filter_eq_some_iff,
    Json.string?_iff, Json.nat?_iff, KeyState.ofName_iff, Tier.ofName_iff, b64_iff, intOrNil_iff, decide_eq_true_eq]
  constructor
  · rintro ⟨_, fields, kid, kidGiven, custodianId, custodianGiven, tier, ⟨_, tierGiven, rfl⟩, state, ⟨_, stateGiven, rfl⟩,
      alg, ⟨algGiven, registered⟩, der, ⟨_, derGiven, rfl⟩, publicKey, decoded, identity, identified, _, rfl, notAfter,
      ⟨_, notAfterGiven, rfl⟩, activatedAt, ⟨_, activatedGiven, rfl⟩, revocationEpoch, ⟨epochGiven, bounded⟩, rfl⟩
    have attested : (key.get? "attestation").isSome := (Json.hasKeys_iff.mp fields).1 _ (by decide)
    obtain ⟨attestation, given⟩ := Option.isSome_iff_exists.mp attested
    exact ⟨fields, kidGiven, custodianGiven, tierGiven, stateGiven, algGiven, registered, ⟨der, derGiven, decoded⟩,
      identified, notAfterGiven, activatedGiven, epochGiven, bounded, by simp [given]⟩
  · intro stored
    obtain ⟨der, derGiven, decoded⟩ := stored.spki
    exact ⟨(), stored.fields, _, stored.kid, _, stored.custodian, _, ⟨_, stored.tier, rfl⟩, _, ⟨_, stored.state, rfl⟩, _,
      ⟨stored.alg, stored.registered⟩, der, ⟨_, derGiven, rfl⟩, _, decoded, _, stored.identity, (), rfl, _,
      ⟨_, stored.notAfter, rfl⟩, _, ⟨_, stored.activatedAt, rfl⟩, _, ⟨stored.revocationEpoch, stored.bounded⟩,
      by rw [stored.attestation]; rfl⟩

namespace Stored

theorem mono {later : Nat} (stored : Stored host epoch key entry) (le : epoch ≤ later) : Stored host later key entry :=
  { stored with bounded := stored.bounded.trans le }

theorem unique {later : Nat} {other : Entry} (stored : Stored host epoch key entry) (again : Stored host later key other) :
    entry = other := by
  have first := decodeKey_iff.mpr (stored.mono (Nat.le_max_left epoch later))
  have second := decodeKey_iff.mpr (again.mono (Nat.le_max_right epoch later))
  exact Except.ok.inj (first.symm.trans second)

theorem named (stored : Stored host epoch key entry) : kidOf key = entry.record.kid := by
  rw [kidOf, Json.string?_iff.mpr stored.kid, Option.getD_some]

theorem stateOf (stored : Stored host epoch key entry) : stateOf key = .ok (some entry.record.state) := by
  rw [Registry.stateOf, Json.string?_iff.mpr stored.state]
  exact congrArg Except.ok (KeyState.ofName_iff.mpr rfl)

/-- A key of which only members that a mutation may change are others. -/
theorem amended {later : Nat} {next : Json} {state : KeyState} {notAfter : Option Int} {revocationEpoch : Nat}
    (stored : Stored host epoch key entry) (fields : next.hasKeys Registry.fields)
    (frame : ∀ field, field ∉ ["state", "not_after", "revocation_epoch"] → next.get? field = key.get? field)
    (stateGiven : next.get? "state" = some (.string state.name))
    (notAfterGiven : next.get? "not_after" = some (orNil notAfter))
    (epochGiven : next.get? "revocation_epoch" = some (.int revocationEpoch)) (bounded : revocationEpoch ≤ later) :
    Stored host later next (entry.amended state notAfter revocationEpoch) := by
  obtain ⟨der, derGiven, decoded⟩ := stored.spki
  exact {
    fields
    kid := (frame _ (by decide)).trans stored.kid
    custodian := (frame _ (by decide)).trans stored.custodian
    tier := (frame _ (by decide)).trans stored.tier
    state := stateGiven
    alg := (frame _ (by decide)).trans stored.alg
    registered := stored.registered
    spki := ⟨der, (frame _ (by decide)).trans derGiven, decoded⟩
    identity := stored.identity
    notAfter := notAfterGiven
    activatedAt := (frame _ (by decide)).trans stored.activatedAt
    revocationEpoch := epochGiven
    bounded
    attestation := (frame _ (by decide)).trans stored.attestation }

/-- The key as it is read back. -/
theorem read {reading : Json.Reading} (integer : ∀ number, reading.value (.int number) = .int number)
    (stored : Stored host epoch key entry) : Stored host epoch (reading.value key) (entry.read reading) := by
  obtain ⟨der, derGiven, decoded⟩ := stored.spki
  have kept : ∀ {field value}, key.get? field = some value → reading.value value = value →
      (reading.value key).get? field = some value := by
    intro field value given fixed
    rw [reading.get?_value, given, Option.map_some, fixed]
  have nil : ∀ value, reading.value (orNil value) = orNil value := by
    intro value
    cases value
    · exact reading.null
    · exact integer _
  exact {
    fields := reading.hasKeys_value stored.fields
    kid := kept stored.kid (reading.string _)
    custodian := kept stored.custodian (reading.string _)
    tier := kept stored.tier (reading.string _)
    state := kept stored.state (reading.string _)
    alg := kept stored.alg (reading.string _)
    registered := stored.registered
    spki := ⟨der, kept derGiven (reading.string _), decoded⟩
    identity := stored.identity
    notAfter := kept stored.notAfter (nil _)
    activatedAt := kept stored.activatedAt (nil _)
    revocationEpoch := kept stored.revocationEpoch (integer _)
    bounded := stored.bounded
    attestation := by rw [reading.get?_value, stored.attestation]; rfl }

/-- What is stored of a record is the record. -/
theorem enrolled {candidate : Candidate} {tier : Tier} {state : KeyState} {opts : Options} {clock : Int}
    (candidateTier : candidate.custodyTier = some tier) (candidateState : candidate.state = some state)
    (encoded : encodeRecord candidate tier state epoch opts clock = .ok key) (stored : Stored host epoch key entry) :
    candidate.entry opts clock epoch = some entry := by
  simp only [encodeRecord, bind_ok_iff, expect_ok, pure_ok] at encoded
  obtain ⟨spki, given, rfl⟩ := encoded
  obtain ⟨der, derGiven, decoded⟩ := stored.spki
  have kid : some (Json.string candidate.kid) = some (.string entry.record.kid) := stored.kid
  have custodian : some candidate.custodianId = some (.string entry.record.custodianId) := stored.custodian
  have tierGiven : some (Json.string tier.name) = some (.string entry.record.custodyTier.name) := stored.tier
  have stateGiven : some (Json.string state.name) = some (.string entry.record.state.name) := stored.state
  have alg : some (Json.string candidate.alg) = some (.string entry.record.alg) := stored.alg
  have notAfter : some candidate.notAfter = some (orNil entry.record.notAfter) := stored.notAfter
  have activatedAt : some (activation state opts clock) = some (orNil entry.activatedAt) := stored.activatedAt
  have revocationEpoch : some (Json.int epoch) = some (.int entry.record.revocationEpoch) := stored.revocationEpoch
  have attestation : some opts.attestation.val = some entry.attestation := stored.attestation
  have derGiven : some (Json.string (Base64.encode spki)) = some (.string (Base64.encode der)) := derGiven
  simp only [Option.some.injEq, Json.string.injEq] at kid custodian tierGiven stateGiven alg notAfter activatedAt derGiven
  simp only [Option.some.injEq, Json.int.injEq, Int.natCast_inj] at revocationEpoch attestation
  have tiers : tier = entry.record.custodyTier :=
    Option.some.inj ((Tier.ofName_iff.mpr tierGiven).symm.trans (Tier.ofName_iff.mpr rfl))
  have states : state = entry.record.state :=
    Option.some.inj ((KeyState.ofName_iff.mpr stateGiven).symm.trans (KeyState.ofName_iff.mpr rfl))
  have ders : spki = der := by
    have same := congrArg Base64Url.decode derGiven
    rwa [Base64Url.decode_encode, Base64Url.decode_encode, Option.some.injEq] at same
  have publicKey : candidate.publicKey = entry.record.publicKey := by
    have decodes := Spki.encoded decoded
    rw [← alg, ← ders] at decodes
    exact KeyRef.spki_injective given decodes
  simp only [Candidate.entry, candidateTier, candidateState, custodian, Option.bind_eq_bind, Option.bind_some,
    intOrNil_iff.mpr notAfter, intOrNil_iff.mpr activatedAt, attestation]
  rw [kid, alg, tiers, states, publicKey, revocationEpoch]
  rfl

end Stored

end Registry

end Sa2aCrypto

end AshA2A
