import AshA2A.Json.TermOrder
import AshA2A.Sa2aCrypto.Registry.File
import AshA2A.UniqueBy
import Mathlib.Data.List.MinMax

/-! The quorum of signers: verified signatures over one effect, counted once for each custodian. -/

namespace AshA2A.Sa2aCrypto

def Tier.rank : Tier → Nat
  | .i1 => 1
  | .i2 => 2
  | .i3 => 3
  | .i4 => 4

/-- A registry view that answers with the record of the kid it was asked for. -/
structure KeyedView where
  lookup : Registry
  named : ∀ kid key, lookup kid = some key → key.kid = kid

namespace Registry

/-- `Static.view/1`: the last record of a kid is kept. -/
def Static.view (records : List KeyRecord) : KeyedView where
  lookup kid := records.reverse.find? fun key => key.kid = kid
  named kid key found := by simpa using List.find?_some found

theorem load_named {host : Host} {file : Option Bytes} {pin : String} {view : View} (loaded : load host file pin = .ok view)
    {kid : String} {entry : Entry} (found : view.entry kid = some entry) : entry.record.kid = kid := by
  simp only [load, bind_ok_iff] at loaded
  obtain ⟨_, _, _, _, _, _, entries, _, same⟩ := loaded
  rw [← Except.ok.inj same] at found
  simpa using List.find?_some found

/-- `File.lookup/2` of a view that was loaded. -/
def fileView {host : Host} {file : Option Bytes} {pin : String} {view : View} (loaded : load host file pin = .ok view) :
    KeyedView where
  lookup kid := (view.entry kid).map Entry.record
  named kid key found := by
    obtain ⟨entry, known, rfl⟩ := Option.map_eq_some_iff.mp found
    exact load_named loaded known

end Registry

namespace Quorum

open UniqueBy

structure Policy where
  k : Int
  /-- Absent where it is none of the tiers. -/
  tier : Option Tier := some .i1
  audience : Option String
  /-- The clock, where the policy gives no time. -/
  now : Int
  epoch : Option Int := none
  signerKids : Option (List String) := none
  effectDigest : Option Json := none
  requiredProfile : Profile := .classical
  allowedAlgs : Option (List String) := none

def Policy.verifyOpts (policy : Policy) : Options :=
  ⟨policy.now, policy.audience, policy.requiredProfile, policy.allowedAlgs⟩

/-- An item of the list: an envelope, absent where `Envelope.from_map/1` refuses it, which may be paired with its bytes. -/
structure Item where
  envelope : Option Envelope
  bytes : Option Bytes := none

inductive Message where
  | bytes (bytes : Bytes)
  | byKid (table : String → Option Bytes)
  /-- Absent where the function raises or answers no binary. -/
  | byEnvelope (function : Option Envelope → Option Bytes)
  | other

structure Answer where
  k : Int
  signers : List Standing
  custodians : List String
  tier : Option Tier
  effectDigest : Json

def policy (given : Policy) : Except String (Int × Tier) :=
  if 0 < given.k then
    match given.tier, given.audience with
    | some tier, some _ => .ok (given.k, tier)
    | _, _ => .error "invalid_policy"
  else .error "invalid_policy"

def pair (item : Item) : Message → Option Bytes
  | message =>
    match item.bytes, message with
    | some bytes, _ => some bytes
    | none, .bytes bytes => some bytes
    | none, .byEnvelope function => function item.envelope
    | none, .byKid table => (item.envelope.map Envelope.kid).bind table
    | none, .other => none

section Verified
variable (host : Host) (message : Message) (view : KeyedView) (policy : Policy)

/-- The standing of a verified signature with the effect that was signed; an envelope that does not verify is ignored. -/
def verified (item : Item) : List (Standing × Json) :=
  match item.envelope, pair item message with
  | some envelope, some bytes =>
    match verifyEnvelope host envelope bytes view.lookup policy.verifyOpts, SignedMessage.parse host.library bytes with
    | .ok standing, .ok json => ((json.get? "effect_digest").map fun digest => (standing, digest)).toList
    | _, _ => []
  | _, _ => []

def allowedKid (kid : String) : Bool := policy.signerKids.all fun kids => kid ∈ kids

def epochOk (epoch : Nat) : Bool := policy.epoch.all fun limit => (epoch : Int) ≤ limit

def eligible (minTier : Tier) (standing : Standing) : Bool :=
  minTier.rank ≤ standing.tier.rank && allowedKid policy standing.kid &&
    match view.lookup standing.kid with
    | some key => key.state ∉ [.compromised, .destroyed] && epochOk policy key.revocationEpoch
    | none => false

end Verified

/-- The order of custodians and then of kids, as binaries. -/
def signerRank (standing : Standing) : List Nat ×ₗ List Nat :=
  toLex (Registry.rank standing.custodianId, Registry.rank standing.kid)

def distinct (signers : List Standing) : List Standing :=
  uniqBy Standing.custodianId (sortBy signerRank (uniqBy Standing.kid signers))

section Evaluate
variable (host : Host) (message : Message) (view : KeyedView)

def digestOk (policy : Policy) (digest : Json) : Bool := policy.effectDigest.all fun want => digest.norm = want.norm

/-- `Enum.group_by/3`. -/
def groupBy (pairs : List (Standing × Json)) : List (Json × List Standing) :=
  (uniqBy id (pairs.map Prod.snd)).map fun digest =>
    (digest, (pairs.filter fun pair => pair.2 = digest).map Prod.fst)

/-- The groups of more signers come first; among those of as many, the order of the digests decides. -/
def groupRank (group : Json × List Standing) : Int ×ₗ Json := toLex (-(group.2.length : Int), group.1)

def countable (policy : Policy) (minTier : Tier) (envelopes : List Item) : List (Standing × Json) :=
  (envelopes.flatMap (verified host message view policy)).filter fun (standing, digest) =>
    eligible view policy minTier standing && digestOk policy digest

def groups (policy : Policy) (minTier : Tier) (envelopes : List Item) : List (Json × List Standing) :=
  sortBy groupRank ((groupBy (countable host message view policy minTier envelopes)).map fun (digest, signers) =>
    (digest, distinct signers))

def evaluate (envelopes : List Item) (policy : Policy) : Except String Answer := do
  let (k, minTier) ← Quorum.policy policy
  match groups host message view policy minTier envelopes with
  | [] => .error "quorum_not_met"
  | (digest, signers) :: _ =>
    if k ≤ signers.length then
      .ok ⟨k, signers, signers.map Standing.custodianId, (signers.map Standing.tier).argmin Tier.rank, digest⟩
    else .error "quorum_not_met"

end Evaluate

end Quorum

end AshA2A.Sa2aCrypto
