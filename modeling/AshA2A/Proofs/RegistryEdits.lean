import AshA2A.Proofs.RegistryEntries

/-! Each mutation of the document is the mutation of its view. -/

namespace AshA2A.Sa2aCrypto.Registry

variable {host : Host} {doc next : Doc} {entries later : List Entry} {entry : Entry} {kid : String}

/-- The document has a key that says this. -/
def Has (host : Host) (doc : Doc) (entry : Entry) : Prop := ∃ key ∈ doc.keys, Stored host doc.epoch key entry

def lookup (entries : List Entry) (kid : String) : Option Entry := entries.find? fun entry => entry.record.kid = kid

/-! ## Decoded documents -/

theorem decodeEntries_iff : decodeEntries host doc = .ok entries ↔
    doc.keys.mapM (decodeKey host doc.epoch) = .ok entries ∧
      ∃ kids, doc.keys.mapM (·.string? "kid") = some kids ∧
        kids.Pairwise (fun first second => rank first ≤ rank second) ∧ kids.Nodup := by
  unfold decodeEntries
  split
  next none_named => exact iff_of_false (by simp) (by simp [none_named])
  next kids named =>
    rw [named]
    split
    next ordered => exact ⟨fun decoded => ⟨decoded, kids, rfl, ordered⟩, And.left⟩
    next unordered =>
      refine iff_of_false (by simp) ?_
      rintro ⟨_, _, ⟨⟩, ordered⟩
      exact unordered ordered

theorem has_iff (decoded : decodeEntries host doc = .ok entries) : entry ∈ entries ↔ Has host doc entry := by
  obtain ⟨pairs, keys, rfl, each⟩ := mapM_ok_iff.mp (decodeEntries_iff.mp decoded).1
  unfold Has
  rw [keys]
  constructor
  · intro member
    obtain ⟨pair, given, rfl⟩ := List.mem_map.mp member
    exact ⟨pair.1, List.mem_map_of_mem given, decodeKey_iff.mp (each pair given)⟩
  · rintro ⟨key, member, stored⟩
    obtain ⟨pair, given, rfl⟩ := List.mem_map.mp member
    rw [stored.unique (decodeKey_iff.mp (each pair given))]
    exact List.mem_map_of_mem given

theorem stored_of_mem (decoded : decodeEntries host doc = .ok entries) {key : Json} (member : key ∈ doc.keys) :
    ∃ entry, Stored host doc.epoch key entry := by
  obtain ⟨pairs, keys, _, each⟩ := mapM_ok_iff.mp (decodeEntries_iff.mp decoded).1
  obtain ⟨pair, given, rfl⟩ := List.mem_map.mp (keys ▸ member)
  exact ⟨pair.2, decodeKey_iff.mp (each pair given)⟩

theorem kids_nodup (decoded : decodeEntries host doc = .ok entries) : (entries.map (·.record.kid)).Nodup := by
  obtain ⟨read, kids, named, _, distinct⟩ := decodeEntries_iff.mp decoded
  obtain ⟨pairs, keys, rfl, each⟩ := mapM_ok_iff.mp read
  have names : ∀ pairs : List (Json × Entry), (∀ pair ∈ pairs, decodeKey host doc.epoch pair.1 = .ok pair.2) →
      (pairs.map Prod.fst).mapM (·.string? "kid") = some ((pairs.map Prod.snd).map (·.record.kid)) := by
    intro pairs each
    induction pairs with
    | nil => rfl
    | cons pair pairs ih =>
      obtain ⟨first, each⟩ := List.forall_mem_cons.mp each
      rw [List.map_cons, List.mapM_cons, Json.string?_iff.mpr (decodeKey_iff.mp first).kid, ih each]
      rfl
  rw [keys, names pairs each] at named
  exact Option.some.inj named ▸ distinct

/-- The view of the document. -/
def Shows (host : Host) (doc : Doc) (view : String → Option Entry) : Prop :=
  ∀ kid entry, view kid = some entry ↔ Has host doc entry ∧ entry.record.kid = kid

theorem Shows.unique {view other : String → Option Entry} (shows : Shows host doc view) (again : Shows host doc other) :
    view = other := funext fun kid => Option.ext fun entry => (shows kid entry).trans (again kid entry).symm

theorem shows_lookup (decoded : decodeEntries host doc = .ok entries) : Shows host doc (lookup entries) := by
  intro kid entry
  rw [← has_iff decoded]
  constructor
  · intro found
    exact ⟨List.mem_of_find?_eq_some found, by unfold lookup at found; simpa using List.find?_some found⟩
  · rintro ⟨member, rfl⟩
    cases found : lookup entries entry.record.kid with
    | none => exact absurd (List.find?_eq_none.mp found entry member) (by simp)
    | some other =>
      have same : other.record.kid = entry.record.kid := by
        unfold lookup at found
        simpa using List.find?_some found
      rw [List.inj_on_of_nodup_map (kids_nodup decoded) (List.mem_of_find?_eq_some found) member same]

theorem Shows.none {view : String → Option Entry} (shows : Shows host doc view)
    (free : ∀ key ∈ doc.keys, key.get? "kid" ≠ some (.string kid)) : view kid = none := by
  refine Option.eq_none_iff_forall_ne_some.mpr fun entry found => ?_
  obtain ⟨⟨key, member, stored⟩, rfl⟩ := (shows kid entry).mp found
  exact free key member stored.kid

/-- With a later epoch the document says the same. -/
theorem Shows.raise {view : String → Option Entry} {epoch : Nat} (decoded : decodeEntries host doc = .ok entries)
    (shows : Shows host doc view) (le : doc.epoch ≤ epoch) : Shows host { doc with epoch } view := by
  intro kid entry
  rw [shows kid entry]
  refine and_congr_left fun _ => ⟨?_, ?_⟩
  · rintro ⟨key, member, stored⟩
    exact ⟨key, member, stored.mono le⟩
  · rintro ⟨key, member, stored⟩
    obtain ⟨other, given⟩ := stored_of_mem decoded member
    exact ⟨key, member, given.unique stored ▸ given⟩

/-! ## Finding and putting keys -/

theorem access_named {item name : Json} (given : access item "kid" = .ok name) :
    isText kid name = true ↔ item.get? "kid" = some (.string kid) := by
  unfold access at given
  split at given
  next entries =>
    obtain rfl := Except.ok.inj given
    cases (Json.object entries).get? "kid" with
    | none => simp [isText]
    | some value => cases value <;> simp [isText]
  next =>
    obtain rfl := Except.ok.inj given
    simp [isText, Json.get?, Json.entries]
  next => cases given

theorem findKey_some {items : List Json} {key : Json} (found : findKey kid items = .ok (some key)) :
    key ∈ items ∧ key.get? "kid" = some (.string kid) := by
  induction items with
  | nil => cases found
  | cons item items ih =>
    rw [findKey, bind_ok_iff] at found
    obtain ⟨name, given, found⟩ := found
    split at found
    next named =>
      cases found
      exact ⟨List.mem_cons_self .., (access_named given).mp named⟩
    next =>
      obtain ⟨member, named⟩ := ih found
      exact ⟨List.mem_cons_of_mem _ member, named⟩

theorem findKey_none {items : List Json} (found : findKey kid items = .ok none) :
    ∀ item ∈ items, item.get? "kid" ≠ some (.string kid) := by
  induction items with
  | nil => exact nofun
  | cons item items ih =>
    rw [findKey, bind_ok_iff] at found
    obtain ⟨name, given, found⟩ := found
    split at found
    next => cases found
    next other => exact List.forall_mem_cons.mpr ⟨fun named => other ((access_named given).mpr named), ih found⟩

theorem others_iff {items kept : List Json} (given : others kid items = .ok kept) (item : Json) :
    item ∈ kept ↔ item ∈ items ∧ item.get? "kid" ≠ some (.string kid) := by
  induction items generalizing kept with
  | nil =>
    cases given
    simp
  | cons first items ih =>
    simp only [others, bind_ok_iff, pure_ok] at given
    obtain ⟨name, accessed, rest, tail, rfl⟩ := given
    have named : isText kid name = true ↔ first.get? "kid" = some (.string kid) := access_named accessed
    split
    next same =>
      rw [ih tail, List.mem_cons]
      constructor
      · rintro ⟨member, different⟩
        exact ⟨.inr member, different⟩
      · rintro ⟨rfl | member, different⟩
        · exact absurd (named.mp same) different
        · exact ⟨member, different⟩
    next other =>
      rw [List.mem_cons, List.mem_cons, ih tail]
      constructor
      · rintro (rfl | ⟨member, different⟩)
        · exact ⟨.inl rfl, fun same => other (named.mpr same)⟩
        · exact ⟨.inr member, different⟩
      · rintro ⟨rfl | member, different⟩
        · exact .inl rfl
        · exact .inr ⟨member, different⟩

theorem putKey_ok {key : Json} (put : putKey doc key = .ok next) : next.epoch = doc.epoch ∧
    ∀ item, item ∈ next.keys ↔ item = key ∨ item ∈ doc.keys ∧ item.get? "kid" ≠ some (.string (kidOf key)) := by
  simp only [putKey, bind_ok_iff, pure_ok] at put
  obtain ⟨kept, given, rfl⟩ := put
  refine ⟨rfl, fun item => ?_⟩
  simp only [List.mem_insertionSort, List.mem_append, List.mem_singleton, others_iff given item]
  exact or_comm

theorem putKey_epoch {key : Json} {epoch : Nat} (put : putKey doc key = .ok next) :
    putKey { doc with epoch } key = .ok { next with epoch } := by
  simp only [putKey, bind_ok_iff, pure_ok] at put ⊢
  obtain ⟨kept, given, rfl⟩ := put
  exact ⟨kept, given, rfl⟩

/-- The key takes the place of those of its name. -/
theorem Shows.put {view : String → Option Entry} {key : Json} (shows : Shows host doc view)
    (put : putKey doc key = .ok next) (stored : Stored host doc.epoch key entry) :
    Shows host next (Function.update view entry.record.kid (some entry)) := by
  obtain ⟨epoch, member⟩ := putKey_ok put
  have has (other : Entry) :
      Has host next other ↔ other = entry ∨ Has host doc other ∧ other.record.kid ≠ entry.record.kid := by
    unfold Has
    simp only [member, epoch, stored.named]
    constructor
    · rintro ⟨item, rfl | ⟨kept, different⟩, given⟩
      · exact .inl (given.unique stored)
      · exact .inr ⟨⟨item, kept, given⟩, fun same => different (same ▸ given.kid)⟩
    · rintro (rfl | ⟨⟨item, kept, given⟩, different⟩)
      · exact ⟨key, .inl rfl, stored⟩
      · refine ⟨item, .inr ⟨kept, fun same => different ?_⟩, given⟩
        simpa using given.kid.symm.trans same
  intro kid other
  rw [has, Function.update_apply]
  split
  next same =>
    subst same
    rw [Option.some.injEq]
    constructor
    · rintro rfl
      exact ⟨.inl rfl, rfl⟩
    · rintro ⟨rfl | ⟨_, different⟩, same⟩
      · rfl
      · exact absurd same different
  next different =>
    rw [shows kid other]
    constructor
    · rintro ⟨given, rfl⟩
      exact ⟨.inr ⟨given, different⟩, rfl⟩
    · rintro ⟨rfl | ⟨given, _⟩, rfl⟩
      · exact absurd rfl different
      · exact ⟨given, rfl⟩

/-- No object in the document repeats a key. -/
def Doc.Distinct (doc : Doc) : Prop := ∀ key ∈ doc.keys, key.distinct

theorem Doc.Distinct.put {key : Json} (whole : doc.Distinct) (put : putKey doc key = .ok next) (sound : key.distinct) :
    next.Distinct := by
  intro item member
  obtain rfl | ⟨kept, _⟩ := ((putKey_ok put).2 item).mp member
  · exact sound
  · exact whole item kept

theorem orNil_distinct (value : Option Int) : (orNil value).distinct := by cases value <;> rfl

theorem distinct_enrolled {candidate : Candidate} {tier : Tier} {state : KeyState} {epoch : Nat} {opts : Options}
    {clock : Int} {key : Json} (encoded : encodeRecord candidate tier state epoch opts clock = .ok key)
    (stored : Stored host epoch key entry) : key.distinct := by
  simp only [encodeRecord, bind_ok_iff, expect_ok, pure_ok] at encoded
  obtain ⟨spki, given, rfl⟩ := encoded
  have custodian : some candidate.custodianId = some (.string entry.record.custodianId) := stored.custodian
  have notAfter : some candidate.notAfter = some (orNil entry.record.notAfter) := stored.notAfter
  have activatedAt : some (activation state opts clock) = some (orNil entry.activatedAt) := stored.activatedAt
  rw [Json.distinct_object]
  refine ⟨show fields.Nodup by decide, ?_⟩
  simp only [List.forall_mem_cons]
  refine ⟨rfl, Option.some.inj custodian ▸ rfl, rfl, rfl, rfl, rfl, Option.some.inj activatedAt ▸ orNil_distinct _,
    Option.some.inj notAfter ▸ orNil_distinct _, rfl, opts.attestation.property, List.forall_mem_nil _⟩

/-! ## Mutations -/

section Mutations

variable {view : String → Option Entry} {candidate : Candidate} {opts : Options} {clock : Int}

theorem orElse_ne_null {value other : Json} (given : other ≠ .null) : orElse value other ≠ .null := by
  unfold orElse
  split <;> simp_all

/-- A key that is enrolled as active has its activation recorded. -/
theorem activation_recorded {activatedAt : Option Int} (given : intOrNil (activation .active opts clock) = some activatedAt) :
    activatedAt ≠ none := by
  rintro rfl
  exact orElse_ne_null (orElse_ne_null (by simp)) (intOrNil_iff.mp given)

/-- What an enrolled entry keeps of its record. -/
theorem entry_enrolled {epoch : Nat} (given : candidate.entry opts clock epoch = some entry) :
    entry.record.kid = candidate.kid ∧ some entry.record.state = candidate.state ∧
      (entry.record.state = .active → entry.activatedAt ≠ none) := by
  simp only [Candidate.entry, Option.bind_eq_bind, Option.bind_eq_some_iff] at given
  obtain ⟨tier, _, state, stateGiven, given⟩ := given
  split at given
  next custodian _ =>
    simp only [Option.bind_eq_some_iff] at given
    obtain ⟨notAfter, _, activatedAt, activated, given⟩ := given
    obtain rfl := Option.some.inj given
    refine ⟨rfl, stateGiven.symm, ?_⟩
    rintro (rfl : state = .active)
    exact activation_recorded activated
  next => cases given

theorem fetchKey_ok {key : Json} (fetched : fetchKey doc kid = .ok key) :
    key ∈ doc.keys ∧ key.get? "kid" = some (.string kid) := by
  simp only [fetchKey, bind_ok_iff, expect_ok] at fetched
  obtain ⟨_, found, rfl⟩ := fetched
  exact findKey_some found

theorem absent_ok {done : Unit} (given : absent doc kid = .ok done) :
    ∀ item ∈ doc.keys, item.get? "kid" ≠ some (.string kid) := by
  simp only [absent, bind_ok_iff, ensure_ok, Option.isNone_iff_eq_none] at given
  obtain ⟨_, found, rfl⟩ := given
  exact findKey_none found

theorem check_ok {state target : KeyState} {done : Unit} (given : Lifecycle.check (some state) target = .ok done) :
    Lifecycle.allowed state target = true := by
  simpa [Lifecycle.check] using given

theorem replace_ok {key changed value : Json} {field : String} (given : replace key field value = .ok changed) :
    changed = key.put field value := by
  simp only [replace, bind_ok_iff, pure_ok] at given
  obtain ⟨_, _, rfl⟩ := given
  rfl

/-- The key that is fetched, and what it says. -/
theorem fetched_stored {key : Json} (decoded : decodeEntries host doc = .ok entries) (shows : Shows host doc view)
    (fetched : fetchKey doc kid = .ok key) :
    ∃ entry, Stored host doc.epoch key entry ∧ entry.record.kid = kid ∧ view kid = some entry := by
  obtain ⟨member, named⟩ := fetchKey_ok fetched
  obtain ⟨entry, stored⟩ := stored_of_mem decoded member
  have same : entry.record.kid = kid := by simpa using stored.kid.symm.trans named
  exact ⟨entry, stored, same, (shows kid entry).mpr ⟨⟨key, member, stored⟩, same⟩⟩

theorem enroll_ok (shows : Shows host doc view) (edited : enroll host candidate opts clock doc = .ok next)
    (after : decodeEntries host next = .ok later) :
    ∃ entry, candidate.entry opts clock doc.epoch = some entry ∧ view candidate.kid = none ∧
      (candidate.state = some .preActivation ∨ candidate.state = some .active) ∧ next.epoch = doc.epoch ∧
      Shows host next (Function.update view candidate.kid (some entry)) ∧ (doc.Distinct → next.Distinct) := by
  simp only [enroll, bind_ok_iff] at edited
  obtain ⟨tier, checked, _, free, state, enrollable, key, encoded, put⟩ := edited
  obtain ⟨epoch, member⟩ := putKey_ok put
  simp only [checkRecord, bind_ok_iff, expect_ok, pure_ok] at checked
  obtain ⟨_, tierGiven, _, _, _, _, rfl⟩ := checked
  obtain ⟨entry, stored⟩ := stored_of_mem after ((member key).mpr (.inl rfl))
  rw [epoch] at stored
  have states : candidate.state = some state ∧ (state = .preActivation ∨ state = .active) := by
    unfold Registry.enrollable at enrollable
    split at enrollable <;> simp_all
  have given := Stored.enrolled tierGiven states.1 encoded stored
  refine ⟨entry, given, shows.none (absent_ok free), ?_, epoch, ?_,
    fun whole => whole.put put (distinct_enrolled encoded stored)⟩
  · obtain ⟨same, rfl | rfl⟩ := states
    · exact .inl same
    · exact .inr same
  · rw [← (entry_enrolled given).1]
    exact shows.put put stored

theorem transition_ok {target : KeyState} (before : decodeEntries host doc = .ok entries) (shows : Shows host doc view)
    (edited : transition kid target opts clock doc = .ok next) :
    ∃ entry, view kid = some entry ∧ Lifecycle.allowed entry.record.state target ∧ next.epoch = doc.epoch ∧
      Shows host next (Function.update view kid
        (some (entry.amended target entry.record.notAfter entry.record.revocationEpoch))) ∧
      (doc.Distinct → next.Distinct) := by
  simp only [transition, bind_ok_iff] at edited
  obtain ⟨key, fetched, state, stateGiven, _, checked, changed, replaced, put⟩ := edited
  obtain ⟨entry, stored, rfl, found⟩ := fetched_stored before shows fetched
  obtain rfl := Except.ok.inj (stateGiven.symm.trans stored.stateOf)
  obtain rfl := replace_ok replaced
  have amended : Stored host doc.epoch (key.put "state" (.string target.name))
      (entry.amended target entry.record.notAfter entry.record.revocationEpoch) := by
    refine stored.amended (Json.hasKeys_put stored.fields) ?_ ?_ ?_ ?_ stored.bounded
    · intro field frozen
      rw [Json.get?_put, if_neg (by rintro rfl; simp at frozen)]
    · simp [Json.get?_put, stored.state]
    · simpa [Json.get?_put] using stored.notAfter
    · simpa [Json.get?_put] using stored.revocationEpoch
  -- The field is there with every key, so nothing is put.
  have present : putNew (key.put "state" (.string target.name)) "activated_at" (now opts clock) =
      key.put "state" (.string target.name) := by
    rw [putNew, if_pos (by simp [amended.activatedAt])]
  rw [present, ite_self] at put
  exact ⟨entry, found, check_ok checked, (putKey_ok put).1, shows.put put amended,
    fun whole => whole.put put (Json.distinct_put (whole key (fetchKey_ok fetched).1) rfl)⟩

theorem nextEpoch_ok {epoch later : Nat} (given : nextEpoch opts epoch = .ok later) : epoch < later := by
  unfold nextEpoch at given
  split at given
  next => exact Except.ok.inj given ▸ Nat.lt_succ_self epoch
  next => split at given <;> simp_all
  next => cases given

theorem revoke_ok (before : decodeEntries host doc = .ok entries) (shows : Shows host doc view)
    (edited : revoke kid opts doc = .ok next) :
    ∃ entry epoch, view kid = some entry ∧ nextEpoch opts doc.epoch = .ok epoch ∧
      Lifecycle.allowed entry.record.state .compromised ∧ next.epoch = epoch ∧
      Shows host next (Function.update view kid (some (entry.amended .compromised entry.record.notAfter epoch))) ∧
      (doc.Distinct → next.Distinct) := by
  simp only [revoke, bind_ok_iff, pure_ok] at edited
  obtain ⟨epoch, later, key, fetched, state, stateGiven, _, checked, _, replaced, _, raised, mid, put, rfl⟩ := edited
  obtain ⟨entry, stored, rfl, found⟩ := fetched_stored before shows fetched
  obtain rfl := Except.ok.inj (stateGiven.symm.trans stored.stateOf)
  obtain rfl := replace_ok replaced
  obtain rfl := replace_ok raised
  have amended : Stored host epoch ((key.put "state" (.string KeyState.compromised.name)).put "revocation_epoch" (.int epoch))
      (entry.amended .compromised entry.record.notAfter epoch) := by
    refine stored.amended (Json.hasKeys_put (Json.hasKeys_put stored.fields)) ?_ ?_ ?_ ?_ (Nat.le_refl epoch)
    · intro field frozen
      rw [Json.get?_put, if_neg (by rintro rfl; simp at frozen), Json.get?_put, if_neg (by rintro rfl; simp at frozen)]
    · simp [Json.get?_put, stored.state]
    · simpa [Json.get?_put] using stored.notAfter
    · simp [Json.get?_put, stored.revocationEpoch]
  refine ⟨entry, epoch, found, later, check_ok checked, rfl,
    (shows.raise before (Nat.le_of_lt (nextEpoch_ok later))).put (putKey_epoch put) amended, fun whole => ?_⟩
  have compromised : (key.put "state" (.string KeyState.compromised.name)).distinct :=
    Json.distinct_put (whole key (fetchKey_ok fetched).1) rfl
  have kept : mid.Distinct := whole.put put (Json.distinct_put compromised rfl)
  exact kept

theorem rotate_ok {oldKid : String} (before : decodeEntries host doc = .ok entries) (shows : Shows host doc view)
    (edited : rotate host oldKid candidate opts clock doc = .ok next) (after : decodeEntries host next = .ok later) :
    ∃ old cap notAfter entry, view oldKid = some old ∧ old.record.state = .active ∧
      plus (now opts clock) opts.overlap = some cap ∧ intOrNil (earlier (orNil old.record.notAfter) cap) = some notAfter ∧
      candidate.entry opts clock doc.epoch = some entry ∧ candidate.state = some .active ∧
      view candidate.kid = none ∧ next.epoch = doc.epoch ∧
      Shows host next (Function.update
        (Function.update view oldKid (some (old.amended .active notAfter old.record.revocationEpoch)))
        candidate.kid (some entry)) ∧ (doc.Distinct → next.Distinct) := by
  simp only [rotate, bind_ok_iff, expect_ok, ensure_ok] at edited
  obtain ⟨cap, capGiven, tier, checked, _, rotation, _, free, key, fetched, _, active, _, replaced, mid, first, fresh, encoded,
    second⟩ := edited
  obtain ⟨old, stored, rfl, found⟩ := fetched_stored before shows fetched
  obtain rfl := replace_ok replaced
  simp only [checkRecord, bind_ok_iff, expect_ok, pure_ok] at checked
  obtain ⟨_, tierGiven, _, _, _, _, rfl⟩ := checked
  simp only [Registry.rotation, Bool.and_eq_true, decide_eq_true_eq] at rotation
  have state : old.record.state = .active := by
    have same := stored.state.symm.trans (Json.string?_iff.mp (of_decide_eq_true active))
    simp only [Option.some.injEq, Json.string.injEq] at same
    exact Option.some.inj ((KeyState.ofName_iff.mpr rfl).symm.trans (KeyState.ofName_iff.mpr same.symm))
  obtain ⟨midEpoch, midMember⟩ := putKey_ok first
  obtain ⟨epoch, member⟩ := putKey_ok second
  have different : old.record.kid ≠ candidate.kid := fun same =>
    absent_ok free key (fetchKey_ok fetched).1 (same ▸ (fetchKey_ok fetched).2)
  obtain ⟨entry, given⟩ := stored_of_mem after ((member fresh).mpr (.inl rfl))
  rw [epoch] at given
  have enrolled := Stored.enrolled tierGiven rotation.1 encoded given
  have named := (entry_enrolled enrolled).1
  -- The capped key is decoded with the document that is written, so what it is capped at is an integer.
  obtain ⟨capped, cappedStored⟩ := stored_of_mem after ((member (key.put "not_after" _)).mpr (.inr
    ⟨(midMember _).mpr (.inl rfl), by simp [Json.get?_put, stored.kid, given.named, named, different]⟩))
  have notAfterGiven : (key.put "not_after" _).get? "not_after" = _ := cappedStored.notAfter
  rw [Json.get?_put, if_pos rfl, stored.notAfter, Option.map_some, Option.getD_some, Option.some.injEq] at notAfterGiven
  rw [midEpoch] at enrolled
  refine ⟨old, cap, capped.record.notAfter, entry, found, state, capGiven, intOrNil_iff.mpr notAfterGiven, enrolled,
    rotation.1, shows.none (absent_ok free), epoch.trans midEpoch, ?_, fun whole => ?_⟩
  · have amended : Stored host doc.epoch (key.put "not_after" (earlier ((key.get? "not_after").getD .null) cap))
        (old.amended .active capped.record.notAfter old.record.revocationEpoch) := by
      refine stored.amended (Json.hasKeys_put stored.fields) ?_ ?_ ?_ ?_ stored.bounded
      · intro field frozen
        rw [Json.get?_put, if_neg (by rintro rfl; simp at frozen)]
      · simpa [Json.get?_put, state] using stored.state
      · rw [← notAfterGiven, Json.get?_put, if_pos rfl, stored.notAfter, Option.map_some, Option.getD_some]
      · simpa [Json.get?_put] using stored.revocationEpoch
    rw [← named]
    exact (shows.put first amended).put second given
  · have sound : (earlier ((key.get? "not_after").getD .null) cap).distinct := by
      rw [stored.notAfter, Option.getD_some, notAfterGiven]
      exact orNil_distinct _
    exact (whole.put first (Json.distinct_put (whole key (fetchKey_ok fetched).1) sound)).put second
      (distinct_enrolled encoded given)

end Mutations

end AshA2A.Sa2aCrypto.Registry
