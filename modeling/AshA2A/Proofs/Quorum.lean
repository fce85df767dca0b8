import AshA2A.Proofs.Standing
import AshA2A.Sa2aCrypto.Registry.Quorum
import Mathlib.Data.Finset.Card

/-! A quorum is what the distinct custodians of verified signatures make it. -/

namespace AshA2A.Sa2aCrypto.Quorum

open UniqueBy

section Approvals
variable {host : Host} {message : Message} {view : KeyedView} {policy : Policy} {minTier : Tier} {standing : Standing}
  {digest : Json} {item : Item}

/-- The item is an envelope that verifies over bytes of this effect. -/
def Approves (host : Host) (message : Message) (view : KeyedView) (policy : Policy) (item : Item) (standing : Standing)
    (digest : Json) : Prop :=
  ∃ envelope bytes json, item.envelope = some envelope ∧ pair item message = some bytes ∧
    verifyEnvelope host envelope bytes view.lookup policy.verifyOpts = .ok standing ∧
    SignedMessage.parse host.library bytes = .ok json ∧ json.get? "effect_digest" = some digest

/-- The signer is of the tier, on the list, not revoked and not of a later epoch. -/
structure Eligible (view : KeyedView) (policy : Policy) (minTier : Tier) (standing : Standing) : Prop where
  tier : minTier.rank ≤ standing.tier.rank
  listed : ∀ kids, policy.signerKids = some kids → standing.kid ∈ kids
  usable : ∃ key, view.lookup standing.kid = some key ∧ key.state ≠ .compromised ∧ key.state ≠ .destroyed ∧
    ∀ epoch, policy.epoch = some epoch → (key.revocationEpoch : Int) ≤ epoch

theorem mem_verified : (standing, digest) ∈ verified host message view policy item ↔
    Approves host message view policy item standing digest := by
  unfold verified Approves
  cases item.envelope with
  | none => simp
  | some envelope =>
    cases pair item message with
    | none => simp
    | some bytes =>
      cases valid : verifyEnvelope host envelope bytes view.lookup policy.verifyOpts with
      | error code => simp [valid]
      | ok known =>
        cases parsed : SignedMessage.parse host.library bytes with
        | error code => simp [valid, parsed]
        | ok json =>
          cases signed : json.get? "effect_digest" with
          | none => simp [valid, parsed, signed]
          | some given => simp [valid, parsed, signed, eq_comm]

theorem eligible_iff : eligible view policy minTier standing = true ↔ Eligible view policy minTier standing := by
  unfold eligible allowedKid epochOk
  constructor
  · intro holds
    rw [Bool.and_eq_true, Bool.and_eq_true, decide_eq_true_iff] at holds
    obtain ⟨⟨tier, listed⟩, usable⟩ := holds
    refine ⟨tier, fun kids given => by simpa [given] using listed, ?_⟩
    split at usable
    next key known =>
      simp only [List.mem_cons, List.not_mem_nil, or_false, not_or, Bool.and_eq_true, decide_eq_true_iff,
        Option.all_eq_true] at usable
      exact ⟨key, known, usable.1.1, usable.1.2, fun epoch given => usable.2 epoch given⟩
    next => cases usable
  · rintro ⟨tier, listed, key, known, compromised, destroyed, epoch⟩
    rw [known]
    simp only [Bool.and_eq_true, decide_eq_true_iff, Option.all_eq_true, List.mem_cons, List.not_mem_nil, or_false, not_or]
    exact ⟨⟨tier, listed⟩, ⟨compromised, destroyed⟩, epoch⟩

/-- The standing says what the registry says of its kid. -/
theorem approves_standing (approves : Approves host message view policy item standing digest) :
    ∃ key, view.lookup standing.kid = some key ∧ standing = ⟨key.kid, key.custodianId, key.custodyTier, key.revocationEpoch⟩ := by
  obtain ⟨envelope, bytes, _, _, _, valid, _, _⟩ := approves
  obtain ⟨key, found, same⟩ := verifyEnvelope_standing valid
  rw [same]
  exact ⟨key, by rw [view.named _ _ found, found], rfl⟩

theorem approves_unique {other : Standing} {another : Item} {second : Json}
    (one : Approves host message view policy item standing digest)
    (two : Approves host message view policy another other second) (same : standing.kid = other.kid) : standing = other := by
  obtain ⟨key, known, standing_eq⟩ := approves_standing one
  obtain ⟨key', known', other_eq⟩ := approves_standing two
  rw [same, known'] at known
  obtain rfl := Option.some.inj known
  rw [standing_eq, other_eq]

end Approvals

/-! ## The signers of an effect -/

section Distinct
variable {signers others : List Standing}

def OnePerKid (signers : List Standing) : Prop := ∀ first ∈ signers, ∀ second ∈ signers, first.kid = second.kid → first = second

theorem rank_injective : Function.Injective Registry.rank :=
  (List.map_injective_iff.mpr fun _ _ => UInt8.toNat_inj.mp).comp utf8_injective

theorem signerRank_kid {first second : Standing} (same : signerRank first = signerRank second) : first.kid = second.kid :=
  rank_injective (Prod.ext_iff.mp (toLex.injective same)).2

theorem distinct_subset {signer : Standing} (member : signer ∈ distinct signers) : signer ∈ signers :=
  mem_of_uniqBy (mem_sortBy.mp (mem_of_uniqBy member))

theorem distinct_nodup : ((distinct signers).map Standing.custodianId).Nodup := uniqBy_nodup

theorem distinct_custodians (one : OnePerKid signers) {custodian : String} :
    custodian ∈ (distinct signers).map Standing.custodianId ↔ ∃ signer ∈ signers, signer.custodianId = custodian := by
  rw [distinct, uniqBy_keys, List.mem_map]
  simp only [mem_sortBy, mem_uniqBy_iff one]

/-- Repetitions and the order of the signers do not matter. -/
theorem distinct_eq (one : OnePerKid signers) (same : ∀ signer, signer ∈ signers ↔ signer ∈ others) :
    distinct signers = distinct others := by
  have other : OnePerKid others := fun first member second among =>
    one first ((same first).mpr member) second ((same second).mpr among)
  have kept (signer : Standing) : signer ∈ uniqBy Standing.kid signers ↔ signer ∈ uniqBy Standing.kid others := by
    rw [mem_uniqBy_iff one, mem_uniqBy_iff other, same]
  have sorted : sortBy signerRank (uniqBy Standing.kid signers) = sortBy signerRank (uniqBy Standing.kid others) :=
    sortBy_eq (uniqBy_nodup.of_map _) (uniqBy_nodup.of_map _) kept fun first member second among equal =>
      one first (mem_of_uniqBy member) second (mem_of_uniqBy among) (signerRank_kid equal)
  rw [distinct, sorted, distinct]

end Distinct

/-! ## The groups -/

section Groups
variable {host : Host} {message : Message} {view : KeyedView} {policy : Policy} {minTier : Tier}
  {envelopes others : List Item} {standing : Standing} {digest : Json}

/-- The list has a verified signature of this eligible signer over this effect, which is the pinned one where one is. -/
def Counts (host : Host) (message : Message) (view : KeyedView) (policy : Policy) (minTier : Tier) (envelopes : List Item)
    (digest : Json) (standing : Standing) : Prop :=
  (∃ item ∈ envelopes, Approves host message view policy item standing digest) ∧ Eligible view policy minTier standing ∧
    ∀ want, policy.effectDigest = some want → digest.Same want

def signersOf (pairs : List (Standing × Json)) (digest : Json) : List Standing :=
  (pairs.filter fun pair => pair.2 = digest).map Prod.fst

theorem mem_countable : (standing, digest) ∈ countable host message view policy minTier envelopes ↔
    Counts host message view policy minTier envelopes digest standing := by
  simp only [countable, Counts, List.mem_filter, List.mem_flatMap, mem_verified, Bool.and_eq_true, eligible_iff, digestOk,
    Option.all_eq_true, decide_eq_true_eq, Json.Same]

theorem mem_signersOf {pairs : List (Standing × Json)} : standing ∈ signersOf pairs digest ↔ (standing, digest) ∈ pairs := by
  rw [signersOf, List.mem_map]
  constructor
  · rintro ⟨⟨signer, signed⟩, member, rfl⟩
    obtain ⟨among, same⟩ := List.mem_filter.mp member
    rwa [← of_decide_eq_true same]
  · exact fun member => ⟨_, List.mem_filter.mpr ⟨member, decide_eq_true rfl⟩, rfl⟩

theorem signersOf_counts : standing ∈ signersOf (countable host message view policy minTier envelopes) digest ↔
    Counts host message view policy minTier envelopes digest standing := mem_signersOf.trans mem_countable

theorem signersOf_one : OnePerKid (signersOf (countable host message view policy minTier envelopes) digest) := by
  intro first member second among same
  obtain ⟨⟨item, _, one⟩, _⟩ := signersOf_counts.mp member
  obtain ⟨⟨other, _, two⟩, _⟩ := signersOf_counts.mp among
  exact approves_unique one two same

theorem mem_groups {signers : List Standing} : (digest, signers) ∈ groups host message view policy minTier envelopes ↔
    (∃ standing, Counts host message view policy minTier envelopes digest standing) ∧
      signers = distinct (signersOf (countable host message view policy minTier envelopes) digest) := by
  rw [groups, mem_sortBy, groupBy, List.map_map, List.mem_map]
  constructor
  · rintro ⟨given, member, same⟩
    obtain ⟨rfl, rfl⟩ := Prod.ext_iff.mp same
    obtain ⟨⟨standing, digest⟩, among, rfl⟩ := List.mem_map.mp (mem_of_uniqBy member)
    exact ⟨⟨standing, mem_countable.mp among⟩, rfl⟩
  · rintro ⟨⟨standing, counts⟩, rfl⟩
    have known : digest ∈ (uniqBy id ((countable host message view policy minTier envelopes).map Prod.snd)).map id :=
      uniqBy_keys.mpr (by simpa using ⟨standing, mem_countable.mpr counts⟩)
    exact ⟨digest, by simpa using known, rfl⟩

/-- Only the set of the items matters. -/
theorem groups_eq (same : ∀ item, item ∈ envelopes ↔ item ∈ others) :
    groups host message view policy minTier envelopes = groups host message view policy minTier others := by
  have counted (standing : Standing) (digest : Json) : Counts host message view policy minTier envelopes digest standing ↔
      Counts host message view policy minTier others digest standing := by
    simp only [Counts, same]
  have signers (digest : Json) : distinct (signersOf (countable host message view policy minTier envelopes) digest) =
      distinct (signersOf (countable host message view policy minTier others) digest) :=
    distinct_eq signersOf_one fun standing => by rw [signersOf_counts, signersOf_counts, counted]
  have apart (items : List Item) : ((groupBy (countable host message view policy minTier items)).map
      (Prod.map id distinct)).Nodup := by
    refine List.Nodup.of_map Prod.fst ?_
    rw [groupBy, List.map_map, List.map_map]
    exact uniqBy_nodup
  have members (items : List Item) (group : Json × List Standing) : group ∈ (groupBy (countable host message view policy minTier
      items)).map (Prod.map id distinct) ↔
        group ∈ groups host message view policy minTier items := mem_sortBy.symm
  refine sortBy_eq (apart envelopes) (apart others) (fun group => ?_) fun first member second among equal => ?_
  · refine (members envelopes group).trans (Iff.trans ?_ (members others group).symm)
    obtain ⟨digest, list⟩ := group
    rw [mem_groups, mem_groups, signers]
    simp only [counted]
  · have digests : first.1 = second.1 := (Prod.ext_iff.mp (toLex.injective equal)).2
    refine Prod.ext digests ?_
    rw [(mem_groups.mp ((members envelopes _).mp member)).2, (mem_groups.mp ((members envelopes _).mp among)).2, digests]

end Groups

/-! ## The quorum -/

section Evaluated
variable {host : Host} {message : Message} {view : KeyedView} {policy : Policy} {k : Int} {minTier : Tier}
  {envelopes others : List Item} {answer : Answer}

theorem policy_positive (valid : Quorum.policy policy = .ok (k, minTier)) : 0 < k := by
  unfold Quorum.policy at valid
  split at valid
  next positive =>
    split at valid
    · rwa [← (Prod.mk.inj (Except.ok.inj valid)).1]
    · cases valid
  next => cases valid

theorem evaluate_iff (valid : Quorum.policy policy = .ok (k, minTier)) :
    evaluate host message view envelopes policy = .ok answer ↔ ∃ digest signers rest,
      groups host message view policy minTier envelopes = (digest, signers) :: rest ∧ k ≤ signers.length ∧
      answer = ⟨k, signers, signers.map Standing.custodianId, (signers.map Standing.tier).argmin Tier.rank, digest⟩ := by
  rw [evaluate, valid]
  simp only [Bind.bind, Except.bind]
  cases groups host message view policy minTier envelopes with
  | nil => simp
  | cons group rest =>
    obtain ⟨digest, signers⟩ := group
    dsimp only
    split
    next enough => simp [enough, eq_comm]
    next few => simp [few]

/-- The custodians of the signers that count for an effect. -/
def Backed (host : Host) (message : Message) (view : KeyedView) (policy : Policy) (minTier : Tier) (envelopes : List Item)
    (digest : Json) (custodians : Finset String) : Prop :=
  ∀ custodian ∈ custodians, ∃ standing, Counts host message view policy minTier envelopes digest standing ∧
    standing.custodianId = custodian

theorem evaluate_met (valid : Quorum.policy policy = .ok (k, minTier)) :
    (∃ answer, evaluate host message view envelopes policy = .ok answer) ↔
      ∃ digest custodians, Backed host message view policy minTier envelopes digest custodians ∧ k ≤ custodians.card := by
  simp only [evaluate_iff valid]
  constructor
  · rintro ⟨_, digest, signers, rest, groups_eq, enough, _⟩
    obtain ⟨_, same⟩ := mem_groups.mp (groups_eq ▸ List.mem_cons_self)
    refine ⟨digest, (signers.map Standing.custodianId).toFinset, fun custodian member => ?_, ?_⟩
    · rw [List.mem_toFinset, same] at member
      obtain ⟨signer, among, named⟩ := (distinct_custodians signersOf_one).mp member
      exact ⟨signer, signersOf_counts.mp among, named⟩
    · rwa [List.toFinset_card_of_nodup (same ▸ distinct_nodup), List.length_map]
  · rintro ⟨digest, custodians, backed, enough⟩
    have some : 0 < custodians.card := Int.natCast_pos.mp (lt_of_lt_of_le (policy_positive valid) enough)
    obtain ⟨custodian, among⟩ := Finset.card_pos.mp some
    obtain ⟨standing, counts, _⟩ := backed custodian among
    have member := mem_groups.mpr ⟨⟨standing, counts⟩, rfl⟩
    have covered : custodians ⊆ ((distinct (signersOf (countable host message view policy minTier envelopes) digest)).map
        Standing.custodianId).toFinset := by
      intro custodian among
      obtain ⟨standing, counts, named⟩ := backed custodian among
      exact List.mem_toFinset.mpr ((distinct_custodians signersOf_one).mpr ⟨standing, signersOf_counts.mpr counts, named⟩)
    have size := Finset.card_le_card covered
    rw [List.toFinset_card_of_nodup distinct_nodup, List.length_map] at size
    cases groups_eq : groups host message view policy minTier envelopes with
    | nil => exact absurd (groups_eq ▸ member) List.not_mem_nil
    | cons group rest =>
      obtain ⟨best, signers⟩ := group
      refine ⟨_, best, signers, rest, rfl, ?_, rfl⟩
      have most := sortBy_head groups_eq (mem_sortBy.mp member)
      have length : -(signers.length : Int) ≤
          -((distinct (signersOf (countable host message view policy minTier envelopes) digest)).length : Int) := by
        rcases Prod.Lex.toLex_le_toLex.mp most with less | ⟨same, _⟩
        · exact le_of_lt less
        · exact le_of_eq same
      omega

/-- A valid policy is met just when one effect has signers of so many custodians, which are listed once each; only the set of
the envelopes matters, and more of them do no harm. -/
structure Exact (host : Host) (message : Message) (view : KeyedView) (envelopes : List Item) (policy : Policy) (k : Int)
    (minTier : Tier) : Prop where
  met : (∃ answer, evaluate host message view envelopes policy = .ok answer) ↔
    ∃ digest custodians, Backed host message view policy minTier envelopes digest custodians ∧ k ≤ custodians.card
  listed : ∀ answer, evaluate host message view envelopes policy = .ok answer → k ≤ answer.signers.length ∧
    answer.custodians = answer.signers.map Standing.custodianId ∧ answer.custodians.Nodup ∧
    (∀ signer ∈ answer.signers, Counts host message view policy minTier envelopes answer.effectDigest signer) ∧
    ∀ signer, Counts host message view policy minTier envelopes answer.effectDigest signer →
      signer.custodianId ∈ answer.custodians
  same : ∀ others, (∀ item, item ∈ others ↔ item ∈ envelopes) →
    evaluate host message view others policy = evaluate host message view envelopes policy
  more : ∀ others, envelopes ⊆ others → (∃ answer, evaluate host message view envelopes policy = .ok answer) →
    ∃ answer, evaluate host message view others policy = .ok answer

end Evaluated

theorem evaluate_exact (host : Host) (message : Message) (view : KeyedView) (envelopes : List Item)
    (policy : Policy) {k : Int} {minTier : Tier} (valid : Quorum.policy policy = .ok (k, minTier)) :
    Exact host message view envelopes policy k minTier where
  met := evaluate_met valid
  listed answer met := by
    obtain ⟨digest, signers, rest, groups_eq, enough, rfl⟩ := (evaluate_iff valid).mp met
    obtain ⟨_, rfl⟩ := mem_groups.mp (groups_eq ▸ List.mem_cons_self)
    refine ⟨enough, rfl, distinct_nodup, fun signer member => signersOf_counts.mp (distinct_subset member), ?_⟩
    intro signer counts
    exact (distinct_custodians signersOf_one).mpr ⟨signer, signersOf_counts.mpr counts, rfl⟩
  same others items := by
    rw [evaluate, evaluate, valid]
    simp only [Bind.bind, Except.bind, groups_eq items]
  more others subset met := by
    obtain ⟨digest, custodians, backed, enough⟩ := (evaluate_met valid).mp met
    refine (evaluate_met valid).mpr ⟨digest, custodians, fun custodian member => ?_, enough⟩
    obtain ⟨standing, ⟨⟨item, among, approves⟩, rest⟩, named⟩ := backed custodian member
    exact ⟨standing, ⟨⟨item, subset among, approves⟩, rest⟩, named⟩

/-- A runtime without a provider for the suites. -/
def bareHost : Host where
  library := ⟨fun _ => none, fun _ => none⟩
  sha256 _ := ""
  kidOf _ _ := none
  supports _ := false
  verify _ _ _ _ := .error "provider_required"

def approval : Envelope where
  v := 1
  alg := "ES256"
  kid := "kid-1"
  profile := some .classical
  signedBytesDigest := "sha256:"
  signature := [1]
  nonce := "n"
  notBefore := 0
  expires := 10
  audience := "actuator"

theorem evaluate_exact_bare :
    Exact bareHost (.bytes []) (Registry.Static.view []) [⟨some approval, none⟩, ⟨none, none⟩]
      { k := 1, audience := some "actuator", now := 5 } 1 .i1 :=
  evaluate_exact _ _ _ _ _ rfl

end AshA2A.Sa2aCrypto.Quorum
