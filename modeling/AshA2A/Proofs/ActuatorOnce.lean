import AshA2A.Proofs.ActuatorFold
import AshA2A.Proofs.FenceSoundness

/-! The actuator enters no effect twice, and what it once bound or left open stays so. -/

namespace AshA2A.Actuator

open Sa2aCrypto Concurrency AppendLog

/-- A claim that the fence lets pass is of a new instance, with no nonce of another one. -/
theorem Fence.run_new {host : Host} {context : Context} {request : Request} {view : View}
    (passed : run host context request view = .ok ()) :
    view.record = none ∧ ∀ signature ∈ request.cert.signatures, ∀ owner,
      view.nonceOwner (signature.kid, signature.nonce) = some owner → owner = request.effect.effectInstanceId := by
  have passes := firstRefusal_ok.mp passed
  have claim := passes (14, check14ClaimOwnership request view) (by simp [checks])
  have completion := passes (15, check15NotCompleted view) (by simp [checks])
  dsimp only at claim completion
  unfold check14ClaimOwnership at claim
  split at claim
  · cases claim
  next native =>
    constructor
    · cases recorded : view.record with
      | none => rfl
      | some record =>
        cases state : record.state <;> simp [check15NotCompleted, recorded, state] at claim completion
    · intro signature member owner given
      by_contra other
      exact native (List.any_eq_true.mpr ⟨signature, member, by simp [given, other]⟩)

namespace Store

variable {host : Host} {allowed : Op → Choice → Disk → Prop} {disk : Disk} {store : Store}
  {events : List Json}

/-! ## What is watched -/

/-- Something about the journal that lasts as long as only some instances are acted on, and
what it means for the records. -/
structure Watch where
  events : List Json → Prop
  records : (String → Option Record) → Prop
  touches : String → Prop
  grows : ∀ (event : Event) (time : Int) (seq : Nat) (prev hash : String) (before : List Json), events before →
    touches event.instanceId ∨ event.kind = "unknown_outcome" →
    events (before ++ [Ledger.line (event.fields time) seq prev hash])
  puts : ∀ before instanceId record, records before → touches instanceId →
    records (Function.update before instanceId (some record))
  fresh : ∀ known instanceId, records known → known instanceId = none → touches instanceId
  restarts : ∀ before folded, events before → Folded.fold before = some folded →
    records fun instanceId => (folded.records.lookup instanceId).map Record.restarted

/-- What a journal says of all that was done so far. -/
structure Facts (watch : Watch) (owned : List ((String × String) × String)) (performed : List String)
    (events : List Json) : Prop where
  watched : watch.events events
  consistent : Consistent events
  owned : ∀ entry ∈ owned, Owned events entry.1 entry.2
  claimed : ∀ instanceId ∈ performed, Claimed events instanceId

variable {watch : Watch}

theorem Facts.append {owned : List ((String × String) × String)} {performed : List String} {event : Event}
    (facts : Facts watch owned performed events) (fits : Fits events event)
    (touched : watch.touches event.instanceId ∨ event.kind = "unknown_outcome")
    (time : Int) (seq : Nat) (prev hash : String) :
    Facts watch owned performed (events ++ [Ledger.line (event.fields time) seq prev hash]) :=
  ⟨watch.grows event time seq prev hash events facts.watched touched, facts.consistent.append fits,
    fun entry member => (facts.owned entry member).append _,
    fun instanceId member => (facts.claimed instanceId member).append _⟩

/-- No effect was entered twice, and no nonce taken for two instances. -/
structure Once (disk : Disk) : Prop where
  performed : disk.performed.Nodup
  owned : ∀ nonce first second, (nonce, first) ∈ disk.owned → (nonce, second) ∈ disk.owned → first = second

theorem Facts.once (facts : Facts watch disk.owned disk.performed events) (performed : disk.performed.Nodup) :
    Once disk :=
  ⟨performed, fun nonce first second left right =>
    facts.consistent nonce first second (facts.owned _ left) (facts.owned _ right)⟩

/-- Before a boot: whatever the journal turns out to say. -/
structure Halted (host : Host) (watch : Watch) (disk : Disk) : Prop where
  once : Once disk
  settled : disk.journal.synced.lines = disk.journal.file.lines
  facts : ∀ chain, Ledger.verify host disk.journal.file = .ok chain →
    Facts watch disk.owned disk.performed chain.events

/-- A stop leaves the disk in good order. -/
def Guarded (host : Host) (watch : Watch) (disk : Disk) : Prop :=
  ∀ left, disk.Survives left → Halted host watch left

theorem Halted.guarded (halted : Halted host watch disk) : Guarded host watch disk := by
  intro left survives
  obtain ⟨⟨synced, shorter, settled⟩, _, _, owned, performed, _, _⟩ := survives
  have same : left.journal.file.lines = disk.journal.file.lines := by
    refine shorter.1.eq_of_length_le ?_
    rw [← halted.settled]
    exact synced.1.length_le
  refine ⟨⟨performed ▸ halted.once.performed, owned ▸ halted.once.owned⟩, by rw [settled], fun chain verified => ?_⟩
  rw [owned, performed]
  exact halted.facts chain ((Ledger.verify_lines same).symm.trans verified)

theorem Tracks.guarded (once : disk.performed.Nodup)
    (tracks : Tracks host (Facts watch disk.owned disk.performed) disk.journal events) :
    Guarded host watch disk := by
  intro left survives
  obtain ⟨⟨synced, shorter, settled⟩, _, _, owned, performed, _, _⟩ := survives
  have both := tracks.holds.once once
  refine ⟨⟨performed ▸ both.performed, owned ▸ both.owned⟩, by rw [settled], fun chain verified => ?_⟩
  rw [owned, performed]
  have accepted : Ledger.verify host ⟨left.journal.file.lines, false⟩ = .ok chain :=
    (Ledger.verify_lines rfl).trans verified
  obtain same | ⟨line, same, facts⟩ := tracks.left _ synced.1 shorter.1 chain accepted
  · exact same ▸ tracks.holds
  · exact same ▸ facts

theorem Tracks.halted (once : disk.performed.Nodup)
    (tracks : Tracks host (Facts watch disk.owned disk.performed) disk.journal events)
    (settled : disk.journal.synced.lines = disk.journal.file.lines) : Halted host watch disk := by
  refine ⟨tracks.holds.once once, settled, fun chain verified => ?_⟩
  obtain same | ⟨line, same, facts⟩ := tracks.left disk.journal.file.lines tracks.begins List.prefix_rfl chain
    ((Ledger.verify_lines rfl).trans verified)
  · exact same ▸ tracks.holds
  · exact same ▸ facts

/-- The store between two of its requests: its memory says what the journal says. -/
structure Serving (host : Host) (watch : Watch) (store : Store) (disk : Disk) (events : List Json) : Prop where
  once : disk.performed.Nodup
  tracks : Tracks host (Facts watch disk.owned disk.performed) disk.journal events
  position : store.jseq = events.length
  claimed : ∀ instanceId, Claimed events instanceId → store.records.lookup instanceId ≠ none
  owners : ∀ nonce instanceId, store.nonceOwner nonce = some instanceId ↔ Owned events nonce instanceId

theorem Serving.guarded (serving : Serving host watch store disk events) : Guarded host watch disk :=
  Tracks.guarded serving.once serving.tracks

/-- Neither the journal nor what was done is other than it was. -/
structure Aside (disk after : Disk) : Prop where
  journal : after.journal = disk.journal
  owned : after.owned = disk.owned
  performed : after.performed = disk.performed

theorem Serving.aside {after : Disk} (serving : Serving host watch store disk events) (aside : Aside disk after) :
    Serving host watch store after events := by
  obtain ⟨journal, owned, performed⟩ := aside
  refine ⟨performed ▸ serving.once, ?_, serving.position, serving.claimed, serving.owners⟩
  rw [journal, owned, performed]
  exact serving.tracks

theorem Serving.ledger (serving : Serving host watch store disk events) (ledger : Ledger) :
    Serving host watch { store with ledger := ledger } disk events :=
  ⟨serving.once, serving.tracks, serving.position, serving.claimed, serving.owners⟩

theorem Serving.insert (serving : Serving host watch store disk events) (instanceId : String) (record : Record) :
    Serving host watch { store with records := store.records.insert instanceId record } disk events := by
  refine ⟨serving.once, serving.tracks, serving.position, fun other claimed => ?_, serving.owners⟩
  by_cases same : other = instanceId
  · simp [same]
  · simpa [AList.lookup_insert_ne same] using serving.claimed other claimed

/-- An effect is entered that is claimed and was not entered before. -/
theorem Serving.enter {instanceId : String} (serving : Serving host watch store disk events)
    (claimed : Claimed events instanceId) (new : instanceId ∉ disk.performed) :
    Serving host watch store { disk with performed := instanceId :: disk.performed } events := by
  refine ⟨List.nodup_cons.mpr ⟨new, serving.once⟩, serving.tracks.weaken ?_ ?_, serving.position, serving.claimed,
    serving.owners⟩
  · intro facts
    exact ⟨facts.watched, facts.consistent, facts.owned, List.forall_mem_cons.mpr ⟨claimed, facts.claimed⟩⟩
  · intro line facts
    exact ⟨facts.watched, facts.consistent, facts.owned,
      List.forall_mem_cons.mpr ⟨claimed.append line, facts.claimed⟩⟩

/-! ## Appends to the journal -/

/-- What an append leaves behind: nothing has changed for the store, or the journal has one
line more. -/
inductive Appended (host : Host) (watch : Watch) (store : Store) (event : Event) (disk : Disk)
    (events : List Json) : Bool × Store → Disk → Prop where
  | failed {last : Disk} (serving : Serving host watch store last events) (owned : last.owned = disk.owned)
      (performed : last.performed = disk.performed) : Appended host watch store event disk events (false, store) last
  | journaled {time : Int} {hash : String} {last : Disk}
      (tracks : Tracks host (Facts watch disk.owned disk.performed) last.journal
        (events ++ [Ledger.line (event.fields time) store.jseq store.jhead hash]))
      (settled : last.journal.synced.lines = last.journal.file.lines) (owned : last.owned = disk.owned)
      (performed : last.performed = disk.performed) :
      Appended host watch store event disk events (true, store.advanced hash) last

theorem Serving.append_upholds {event : Event} (serving : Serving host watch store disk events)
    (fits : Fits events event) (touched : watch.touches event.instanceId ∨ event.kind = "unknown_outcome") :
    machine.Upholds allowed (Guarded host watch) (Appended host watch store event disk events)
      (store.journal host event) disk := by
  have facts := serving.tracks.holds
  have plain := fun time hash => event.line_lastWins time store.jseq store.jhead hash
  have position : ∀ time hash, (Ledger.line (event.fields time) store.jseq store.jhead hash).number? "seq" =
      some (events.length : Rat) := fun time hash => by rw [Ledger.line_seq, serving.position]
  have next := fun time hash => facts.append fits touched time store.jseq store.jhead hash
  have idle : Attended allowed False := nofun
  refine (journal_proceeds idle nofun serving.guarded ?_).upholds.weaken (fun _ guarded => guarded) ?_
  · intro time line hash last chains journaling
    obtain ⟨rfl, _⟩ := Ledger.chained_ok chains
    have written := serving.tracks.write (plain time hash) (position time hash) (next time hash)
    have appended := serving.tracks.append (plain time hash) (position time hash) (next time hash)
    cases journaling with
    | anchored permitted => exact Tracks.guarded serving.once appended
    | handing handing =>
      cases handing with
      | start => exact serving.guarded
      | written permitted => exact Tracks.guarded serving.once (written _)
      | synced permitted => exact Tracks.guarded serving.once appended
  · intro result last _ journaled
    cases journaled with
    | @failed time line hash last chains lost =>
      obtain ⟨rfl, _⟩ := Ledger.chained_ok chains
      have written := serving.tracks.write (plain time hash) (position time hash) (next time hash)
      cases lost with
      | unwritten permitted =>
        exact .failed ⟨serving.once, written _, serving.position, serving.claimed, serving.owners⟩ rfl rfl
      | unsynced permitted failed =>
        exact .failed ⟨serving.once, written _, serving.position, serving.claimed, serving.owners⟩ rfl rfl
    | @durable time line hash anchor chains permitted anchored =>
      obtain ⟨rfl, _⟩ := Ledger.chained_ok chains
      exact .journaled (serving.tracks.append (plain time hash) (position time hash) (next time hash)) rfl rfl rfl

/-- An event that claims nothing leaves the memory of the store in agreement with the journal. -/
theorem Serving.note {event : Event} {time : Int} {hash : String} {last : Disk}
    (serving : Serving host watch store disk events) (other : event.kind ≠ "executing")
    (tracks : Tracks host (Facts watch disk.owned disk.performed) last.journal
      (events ++ [Ledger.line (event.fields time) store.jseq store.jhead hash]))
    (owned : last.owned = disk.owned) (performed : last.performed = disk.performed) :
    Serving host watch (store.advanced hash) last
      (events ++ [Ledger.line (event.fields time) store.jseq store.jhead hash]) := by
  refine ⟨performed ▸ serving.once, ?_, ?_, fun instanceId claimed => ?_, fun nonce instanceId => ?_⟩
  · rw [owned, performed]
    exact tracks
  · simp [advanced, serving.position]
  · exact serving.claimed instanceId ((claimed_append_iff.mp claimed).resolve_right fun claims => other claims.1)
  · rw [owned_append_other other]
    exact serving.owners nonce instanceId

/-- A claim, after the store remembers it. -/
theorem Serving.claim {record : Record} {generation : Nat} {digest : String} {nonces : List (String × String)}
    {time : Int} {hash : String} {last : Disk} (serving : Serving host watch store disk events)
    (fits : Fits events (.executing record.instanceId generation digest nonces))
    (tracks : Tracks host (Facts watch disk.owned disk.performed) last.journal
      (events ++ [Ledger.line ((Event.executing record.instanceId generation digest nonces).fields time) store.jseq
        store.jhead hash]))
    (performed : last.performed = disk.performed) :
    Serving host watch
      { (store.advanced hash).put record with
        nonceOwner := Folded.own store.nonceOwner record.instanceId nonces }
      { last with owned := nonces.map (·, record.instanceId) ++ disk.owned }
      (events ++ [Ledger.line ((Event.executing record.instanceId generation digest nonces).fields time) store.jseq
        store.jhead hash]) := by
  have binds : ∀ nonce instanceId, Owned (events ++
      [Ledger.line ((Event.executing record.instanceId generation digest nonces).fields time) store.jseq
        store.jhead hash]) nonce instanceId ↔
      Owned events nonce instanceId ∨ record.instanceId = instanceId ∧ nonce ∈ nonces :=
    fun nonce instanceId => owned_append_claim
  refine ⟨?_, ?_, ?_, fun instanceId claimed => ?_, fun nonce instanceId => ?_⟩
  · exact performed ▸ serving.once
  · have enlarge : ∀ events, (∀ nonce ∈ nonces, Owned events nonce record.instanceId) →
        Facts watch disk.owned disk.performed events →
        Facts watch (nonces.map (·, record.instanceId) ++ disk.owned) disk.performed events := by
      intro events taken facts
      refine ⟨facts.watched, facts.consistent, fun entry member => ?_, facts.claimed⟩
      obtain member | member := List.mem_append.mp member
      · obtain ⟨nonce, mine, rfl⟩ := List.mem_map.mp member
        exact taken nonce mine
      · exact facts.owned entry member
    have taken := fun nonce mine => (binds nonce record.instanceId).mpr (.inr ⟨rfl, mine⟩)
    dsimp only
    rw [performed]
    exact tracks.weaken (enlarge _ taken) fun line => enlarge _ fun nonce mine => (taken nonce mine).append line
  · simp [advanced, Store.put, serving.position]
  · by_cases same : instanceId = record.instanceId
    · simp [Store.put, same]
    · have claimed := (claimed_append_iff.mp claimed).resolve_right fun claims => same claims.2.symm
      simpa [Store.put, advanced, AList.lookup_insert_ne same] using serving.claimed instanceId claimed
  · rw [binds, Folded.own_eq_some, ← serving.owners nonce instanceId]
    constructor
    · rintro (⟨member, same⟩ | ⟨_, given⟩)
      · exact .inr ⟨same, member⟩
      · exact .inl given
    · rintro (given | ⟨same, member⟩)
      · by_cases member : nonce ∈ nonces
        · exact .inl ⟨member, (fits.2 nonce member instanceId ((serving.owners nonce instanceId).mp given)).symm⟩
        · exact .inr ⟨member, given⟩
      · exact .inl ⟨member, same⟩

/-! ## Calls -/

/-- What holds between two calls. -/
def Stands (host : Host) (watch : Watch) (store : Store) (disk : Disk) : Prop :=
  watch.records store.records.lookup ∧ ∃ events, Serving host watch store disk events

theorem Stands.insert {instanceId : String} (stands : Stands host watch store disk)
    (touched : watch.touches instanceId) (record : Record) :
    Stands host watch { store with records := store.records.insert instanceId record } disk := by
  obtain ⟨records, events, serving⟩ := stands
  refine ⟨?_, events, serving.insert instanceId record⟩
  simp only [lookup_insert]
  exact watch.puts _ _ _ records touched

theorem Stands.guarded (stands : Stands host watch store disk) : Guarded host watch disk := by
  obtain ⟨_, events, serving⟩ := stands
  exact serving.guarded

theorem Stands.aside {after : Disk} (stands : Stands host watch store disk) (aside : Aside disk after) :
    Stands host watch store after := by
  obtain ⟨records, events, serving⟩ := stands
  exact ⟨records, events, serving.aside aside⟩

/-- An event about a known instance that claims nothing. -/
theorem Serving.note_upholds (event : Event) (serving : Serving host watch store disk events)
    (other : event.kind ≠ "executing")
    (touched : watch.touches event.instanceId ∨ event.kind = "unknown_outcome") :
    machine.Upholds allowed (Guarded host watch)
      (fun result last => result.2.records = store.records ∧ ∃ events, Serving host watch result.2 last events ∧
        (result.1 = true → last.journal.synced.lines = last.journal.file.lines))
      (store.journal host event) disk := by
  have fits : Fits events event := by
    cases event with
    | executing => exact absurd rfl other
    | _ => trivial
  refine (serving.append_upholds fits touched).weaken (fun _ guarded => guarded) fun result last _ appended => ?_
  cases appended with
  | failed serving _ _ => exact ⟨rfl, events, serving, nofun⟩
  | journaled tracks settled owned performed =>
    exact ⟨rfl, _, serving.note other tracks owned performed, fun _ => settled⟩

theorem Stands.note_upholds (event : Event) (stands : Stands host watch store disk)
    (other : event.kind ≠ "executing") (touched : watch.touches event.instanceId) :
    machine.Upholds allowed (Guarded host watch) (fun result last => Stands host watch result.2 last)
      (store.journal host event) disk := by
  obtain ⟨records, events, serving⟩ := stands
  refine (serving.note_upholds event other (.inl touched)).weaken (fun _ guarded => guarded) ?_
  intro result last _ ⟨same, events, serving, _⟩
  exact ⟨same ▸ records, events, serving⟩

theorem unknown_upholds {record : Record} {reason : String} (stands : Stands host watch store disk)
    (touched : watch.touches record.instanceId) :
    machine.Upholds allowed (Guarded host watch) (fun result last => Stands host watch result.2 last)
      (unknown host store record reason) disk := by
  refine (stands.note_upholds (.unknownOutcome record.instanceId reason) (by simp [Event.kind]) touched).bind
    fun result last guarded stands => ?_
  exact .pure guarded (stands.insert touched _)

theorem writeAnchor_upholds {anchor : Anchor} {always : Disk → Prop}
    (kept : ∀ last, Aside disk last → always last) :
    machine.Upholds allowed always (fun _ last => Aside disk last) (Code.writeAnchor anchor) disk := by
  refine .ask (kept _ ⟨rfl, rfl, rfl⟩) fun choice reply after _ served => ?_
  have aside : Aside disk after := by
    obtain ⟨_, rfl⟩ | ⟨_, rfl, _⟩ := exec_writeAnchor served <;> exact ⟨rfl, rfl, rfl⟩
  exact .pure (kept _ aside) aside

theorem appendLedger_upholds {ledger : Ledger} {entry : Ledger.Entry} {always : Disk → Prop}
    (kept : ∀ last, Aside disk last → always last) :
    machine.Upholds allowed always (fun _ last => Aside disk last) (appendLedger host ledger entry) disk := by
  unfold appendLedger
  split
  · exact .pure (kept disk ⟨rfl, rfl, rfl⟩) ⟨rfl, rfl, rfl⟩
  next line hash chains =>
    have idle : Attended allowed False := nofun
    have lost : ∀ {last : Disk}, Lost allowed disk .ledger line last → Aside disk last := by
      intro last lost
      cases lost <;> exact ⟨rfl, rfl, rfl⟩
    have handing : ∀ last, Handing allowed disk .ledger line last → always last := by
      intro last handing
      refine kept last ?_
      cases handing <;> exact ⟨rfl, rfl, rfl⟩
    refine (append_proceeds idle handing (fun permitted => ?_) ?_ ?_).upholds
    · exact .pure (handing _ (.synced permitted)) ⟨rfl, rfl, rfl⟩
    · exact fun last kept failed => .pure kept (lost failed)
    · exact fun last kept failed => .pure kept (lost failed)

theorem performEffect_upholds {ledger : Ledger} {effect : Effect} {digest : String} {effector : Effector}
    {always : Disk → Prop} (kept : ∀ last, Aside disk last → always last) :
    machine.Upholds allowed always (fun _ last => Aside disk last)
      (performEffect host ledger effect digest effector) disk := by
  cases effector with
  | noopProbe => exact .pure (kept _ ⟨rfl, rfl, rfl⟩) ⟨rfl, rfl, rfl⟩
  | ledgerAppend =>
    refine (appendLedger_upholds kept).bind fun result last _ aside => ?_
    cases result with
    | error reason => exact .pure (kept _ aside) aside
    | ok _ => exact .pure (kept _ aside) aside

theorem perform_upholds {effect : Effect} {digest : String} {record : Record}
    (serving : Serving host watch store disk events) (records : watch.records store.records.lookup)
    (claimed : Claimed events record.instanceId) (new : record.instanceId ∉ disk.performed)
    (touched : watch.touches record.instanceId) :
    machine.Upholds allowed (Guarded host watch) (fun result last => Stands host watch result.2 last)
      (perform host store effect digest record) disk := by
  unfold perform
  split
  · exact ⟨serving.guarded, fun _ reply => reply.elim⟩
  next effector found =>
    refine .ask serving.guarded fun choice reply after _ served => ?_
    have entered : after = { disk with performed := record.instanceId :: disk.performed } := by
      cases choice <;> cases served
      rfl
    subst entered
    have serving := serving.enter claimed new
    refine (performEffect_upholds fun last aside => (serving.aside aside).guarded).bind
      fun result last _ aside => ?_
    have serving := serving.aside aside
    cases result with
    | error reason => exact unknown_upholds ⟨records, events, serving⟩ touched
    | ok result =>
      obtain ⟨ledger, seq, hash⟩ := result
      have serving := serving.ledger ledger
      refine (writeAnchor_upholds fun last aside => (serving.aside aside).guarded).bind
        fun result last _ aside => ?_
      have stands : Stands host watch { store with ledger := ledger } last :=
        ⟨records, events, serving.aside aside⟩
      refine (stands.note_upholds (.completed record.instanceId seq hash) (by simp [Event.kind]) touched).bind
        fun result last guarded stands => ?_
      obtain ⟨durable, after⟩ := result
      cases durable with
      | true => exact .pure guarded (stands.insert touched _)
      | false => exact unknown_upholds stands touched

theorem claimAndPerform_upholds {request : Fence.Request} (stands : Stands host watch store disk)
    (unknown : store.records.lookup request.effect.effectInstanceId = none)
    (native : ∀ signature ∈ request.cert.signatures, ∀ owner,
      store.nonceOwner (signature.kid, signature.nonce) = some owner → owner = request.effect.effectInstanceId) :
    machine.Upholds allowed (Guarded host watch) (fun result last => Stands host watch result.2 last)
      (claimAndPerform host store request) disk := by
  obtain ⟨records, events, serving⟩ := stands
  have unclaimed : ¬ Claimed events request.effect.effectInstanceId :=
    fun claimed => serving.claimed _ claimed unknown
  have new : request.effect.effectInstanceId ∉ disk.performed :=
    fun member => unclaimed (serving.tracks.holds.claimed _ member)
  have touched := watch.fresh _ _ records unknown
  have fits : Fits events (.executing request.effect.effectInstanceId request.cert.generation
      request.cert.effectDigest (request.cert.signatures.map fun signature => (signature.kid, signature.nonce))) := by
    refine ⟨unclaimed, fun nonce member owner owned => ?_⟩
    obtain ⟨signature, given, rfl⟩ := List.mem_map.mp member
    exact native signature given owner ((serving.owners _ owner).mpr owned)
  refine (serving.append_upholds fits (.inl touched)).bind fun result last guarded appended => ?_
  cases appended with
  | failed serving _ _ => exact .pure guarded ⟨records, events, serving⟩
  | @journaled time hash last tracks _ owned performed =>
    refine .ask guarded fun choice reply after _ served => ?_
    have bound : after = { last with
        owned := (request.cert.signatures.map fun signature => (signature.kid, signature.nonce)).map
          (·, request.effect.effectInstanceId) ++ disk.owned } := by
      rw [← owned]
      cases choice <;> cases served
      rfl
    subst bound
    refine perform_upholds (serving.claim fits tracks performed) ?_ ?_ ?_ touched
    · simp only [Store.put, advanced, lookup_insert]
      exact watch.puts _ _ _ records touched
    · exact claimed_append_iff.mpr (.inr ⟨rfl, rfl⟩)
    · simpa [performed] using new

theorem execute_upholds {context : Context} {request : Fence.Request} (stands : Stands host watch store disk) :
    machine.Upholds allowed (Guarded host watch) (fun result last => Stands host watch result.2 last)
      (execute host store context request) disk := by
  unfold execute
  dsimp only
  split
  next passed =>
    obtain ⟨unknown, native⟩ := Fence.run_new passed
    unfold doExecute
    rw [if_neg (not_not.mpr rfl)]
    refine (writeAnchor_upholds fun last aside => (stands.aside aside).guarded).bind
      fun written last guarded aside => ?_
    cases written with
    | true => exact claimAndPerform_upholds (stands.aside aside) unknown native
    | false => exact .pure guarded (stands.aside aside)
  next check code _ =>
    have kept : ∀ answer : Answer, machine.Upholds allowed (Guarded host watch)
        (fun result last => Stands host watch result.2 last) (pure (answer, store)) disk :=
      fun answer => .pure stands.guarded stands
    split
    · split
      · exact ⟨stands.guarded, fun _ reply => reply.elim⟩
      · split <;> exact kept _
    · exact kept _

theorem reconcile_upholds {instanceId note : String} {resolution : Resolution}
    (stands : Stands host watch store disk)
    (touched : watch.touches instanceId) :
    machine.Upholds allowed (Guarded host watch) (fun result last => Stands host watch result.2 last)
      (reconcile host store instanceId resolution note) disk := by
  unfold reconcile
  split
  · exact .pure stands.guarded stands
  next record _ =>
    split
    · exact .pure stands.guarded stands
    · refine (stands.note_upholds (.reconciled instanceId resolution note) (by simp [Event.kind]) touched).bind
        fun result last guarded stands => ?_
      obtain ⟨durable, after⟩ := result
      cases durable with
      | false => exact .pure guarded stands
      | true => exact .pure guarded (stands.insert touched _)

theorem handle_upholds {call : Call} (stands : Stands host watch store disk)
    (touched : ∀ instanceId resolution note, call = .reconcile instanceId resolution note →
      watch.touches instanceId) :
    machine.Upholds allowed (Guarded host watch)
      (fun result last => ∃ after, result.2 = some after ∧ Stands host watch after last)
      (handle host call store) disk := by
  have answers : ∀ program : Code (Answer × Store), machine.Upholds allowed (Guarded host watch)
      (fun result last => Stands host watch result.2 last) program disk →
      machine.Upholds allowed (Guarded host watch)
        (fun result last => ∃ after, result.2 = some after ∧ Stands host watch after last)
        (program >>= fun result => pure (result.1, some result.2)) disk :=
    fun program upholds => upholds.bind fun result last guarded stands => .pure guarded ⟨_, rfl, stands⟩
  cases call with
  | execute context request => exact answers _ (execute_upholds stands)
  | reconcile instanceId resolution note =>
    exact answers _ (reconcile_upholds stands (touched instanceId resolution note rfl))
  | status instanceId =>
    refine answers _ ?_
    split <;> exact .pure stands.guarded stands

/-! ## Boot -/

theorem Halted.aside {after : Disk} (halted : Halted host watch disk) (aside : Aside disk after) :
    Halted host watch after := by
  obtain ⟨journal, owned, performed⟩ := aside
  refine ⟨⟨performed ▸ halted.once.performed, owned ▸ halted.once.owned⟩, journal ▸ halted.settled, ?_⟩
  intro chain verified
  rw [owned, performed]
  exact halted.facts chain (journal ▸ verified)

theorem Halted.trim {which : Which} (halted : Halted host watch disk) : Halted host watch (disk.trim which) := by
  unfold Disk.trim
  split
  · cases which with
    | journal =>
      exact ⟨⟨halted.once.performed, halted.once.owned⟩, rfl, fun chain verified => halted.facts chain ((Ledger.verify_lines rfl).trans verified)⟩
    | ledger => exact halted.aside ⟨rfl, rfl, rfl⟩
  · exact halted

theorem Halted.serving {chain : Chain} {folded : Folded} (ledger : Chain)
    (halted : Halted host watch disk) (verified : Ledger.verify host disk.journal.file = .ok chain)
    (folds : Folded.fold chain.events = some folded) :
    Serving host watch (opened chain ledger folded) disk chain.events := by
  have facts := halted.facts chain verified
  refine ⟨halted.once.performed, ⟨halted.settled ▸ List.prefix_rfl, facts, ?_⟩, rfl, ?_, ?_⟩
  · intro lines first last other accepted
    have same : lines = disk.journal.file.lines := by
      refine last.eq_of_length_le ?_
      rw [← halted.settled]
      exact first.length_le
    rw [Ledger.verify_lines (show (⟨lines, false⟩ : File Json).lines = disk.journal.file.lines from same),
      verified] at accepted
    cases accepted
    exact .inl rfl
  · exact fun _ claimed => Folded.fold_claimed folds claimed
  · exact fun _ _ => Folded.fold_owners_iff folds facts.consistent

theorem markUnknownOnRestart_upholds {rest : List (Sigma fun _ : String => Record)}
    (serving : Serving host watch store disk events)
    (settled : disk.journal.synced.lines = disk.journal.file.lines) (distinct : rest.NodupKeys) :
    machine.Upholds allowed (Guarded host watch)
      (fun marked last => (∃ events, Serving host watch marked last events) ∧
        last.journal.synced.lines = last.journal.file.lines ∧
        (∀ entry ∈ rest, store.records.lookup entry.1 = some entry.2 →
          marked.records.lookup entry.1 = some entry.2.restarted) ∧
        ∀ instanceId, instanceId ∉ rest.keys →
          marked.records.lookup instanceId = store.records.lookup instanceId)
      (markUnknownOnRestart host store rest) disk := by
  induction rest generalizing store disk events with
  | nil => exact .pure serving.guarded ⟨⟨events, serving⟩, settled, nofun, fun _ _ => rfl⟩
  | cons entry rest ih =>
    obtain ⟨instanceId, record⟩ := entry
    obtain ⟨new, distinct⟩ := List.nodupKeys_cons.mp distinct
    unfold markUnknownOnRestart
    split
    next stopped =>
      refine (ih serving settled distinct).weaken (fun _ guarded => guarded) fun marked last _ outcome => ?_
      obtain ⟨serving, settled, changed, kept⟩ := outcome
      refine ⟨serving, settled, ?_, fun other outside => ?_⟩
      · intro entry member known
        obtain rfl | member := List.mem_cons.mp member
        · rw [kept _ new, known, Record.restarted_other stopped]
        · exact changed entry member known
      · exact kept other fun member => outside (by simp [member])
    next executing =>
      have executing := not_not.mp executing
      refine (serving.note_upholds (.unknownOutcome instanceId "restart_after_write_ahead") (by simp [Event.kind])
        (.inr rfl)).bind fun result last guarded outcome => ?_
      obtain ⟨durable, after⟩ := result
      obtain ⟨same, events, serving, settled⟩ := outcome
      cases durable with
      | false => exact ⟨guarded, fun _ reply => reply.elim⟩
      | true =>
        refine (ih (serving.insert instanceId { record with state := .unknownOutcome }) (settled rfl)
          distinct).weaken (fun _ guarded => guarded) fun marked last _ outcome => ?_
        obtain ⟨serving, settled, changed, kept⟩ := outcome
        dsimp only at same changed kept
        refine ⟨serving, settled, ?_, fun other outside => ?_⟩
        · intro entry member known
          obtain rfl | member := List.mem_cons.mp member
          · rw [kept _ new, AList.lookup_insert, Record.restarted_executing executing]
          · have listed : entry.1 ∈ rest.keys := List.mem_map_of_mem member
            have apart : entry.1 ≠ instanceId := fun named => new (named ▸ listed)
            exact changed entry member (by rw [AList.lookup_insert_ne apart, same]; exact known)
        · have apart : other ≠ instanceId := fun named => outside (by simp [named])
          rw [kept other fun member => outside (by simp [member]), AList.lookup_insert_ne apart, same]

/-- The store that a boot gives holds what the journal folds to, and none of it is in
execution. -/
def Restarts (host : Host) (disk : Disk) (store : Store) : Prop :=
  ∃ chain folded, Ledger.verify host disk.journal.file = .ok chain ∧ Folded.fold chain.events = some folded ∧
    ∀ instanceId, store.records.lookup instanceId = (folded.records.lookup instanceId).map Record.restarted

theorem boot_upholds (halted : Halted host watch disk) :
    machine.Upholds allowed (Guarded host watch)
      (fun state last => match state with
        | none => Halted host watch last
        | some store => Stands host watch store last ∧ Restarts host disk store)
      (boot host) disk := by
  refine .ask halted.guarded fun choice reply middle _ served => ?_
  obtain ⟨rfl, rfl⟩ | ⟨rfl, rfl, _⟩ := exec_trim served
  rotate_left
  · exact ⟨halted.guarded, fun _ reply => reply.elim⟩
  have halted : Halted host watch (disk.trim .journal) := halted.trim
  refine .ask halted.guarded fun choice reply last _ served => ?_
  obtain ⟨rfl, rfl⟩ | ⟨rfl, rfl, _⟩ := exec_trim served
  rotate_left
  · exact ⟨halted.guarded, fun _ reply => reply.elim⟩
  have trimmed : Ledger.verify host ((disk.trim .journal).trim .ledger).journal.file =
      Ledger.verify host disk.journal.file := by
    exact Ledger.verify_lines ((trim_lines .ledger .journal).trans (trim_lines .journal .journal))
  have halted : Halted host watch ((disk.trim .journal).trim .ledger) := halted.trim
  generalize (disk.trim .journal).trim .ledger = opening at halted trimmed
  refine .ask halted.guarded fun choice ledger here _ served => ?_
  obtain ⟨rfl, _⟩ := exec_read served
  refine .ask halted.guarded fun choice journal here _ served => ?_
  obtain ⟨rfl, given, _⟩ := exec_read served
  cases ledger with
  | none => exact .pure halted.guarded halted
  | some ledger =>
  cases journal with
  | none => exact .pure halted.guarded halted
  | some journal =>
  obtain rfl := given journal rfl
  refine .ask halted.guarded fun choice anchor here _ served => ?_
  obtain ⟨rfl, _⟩ := exec_readAnchor served
  cases passed : checks host (here.log .journal).file ledger anchor with
  | error _ => exact .pure halted.guarded halted
  | ok chains =>
  obtain ⟨verified, _⟩ := checks_ok passed
  refine .ask halted.guarded fun choice isOpen here _ served => ?_
  obtain ⟨rfl, _⟩ := exec_open served
  cases isOpen with
  | false => exact .pure halted.guarded halted
  | true =>
  cases folds : Folded.fold chains.1.events with
  | none => exact ⟨halted.guarded, fun _ reply => reply.elim⟩
  | some folded =>
  have serving := Halted.serving chains.2 halted verified folds
  refine (markUnknownOnRestart_upholds serving halted.settled folded.records.nodupKeys).bind
    fun store last guarded outcome => ?_
  obtain ⟨⟨events, serving⟩, settled, changed, kept⟩ := outcome
  have restarts : ∀ instanceId, store.records.lookup instanceId =
      (folded.records.lookup instanceId).map Record.restarted := by
    intro instanceId
    cases known : folded.records.lookup instanceId with
    | none => exact (kept instanceId (AList.lookup_eq_none.mp known)).trans known
    | some record => exact changed ⟨instanceId, record⟩ (AList.mem_lookup_iff.mp known) known
  have records : watch.records store.records.lookup := by
    rw [show store.records.lookup = _ from funext restarts]
    exact watch.restarts _ _ (halted.facts _ verified).watched folds
  refine (writeAnchor_upholds fun last aside => (serving.aside aside).guarded).bind
    fun written final guarded aside => ?_
  cases written with
  | true =>
    exact .pure guarded ⟨⟨records, events, serving.aside aside⟩, chains.1, folded, trimmed ▸ verified, folds, restarts⟩
  | false => exact .pure guarded ((Tracks.halted serving.once serving.tracks settled).aside aside)

/-! ## Runs -/

def Holds (host : Host) (watch : Watch) : Option Store → Disk → Prop
  | none, disk => Halted host watch disk
  | some store, disk => Stands host watch store disk

theorem Holds.lasts {made : Call → Prop} {start final : Server.Config Disk Store Call Answer}
    (touched : ∀ instanceId resolution note, made (.reconcile instanceId resolution note) →
      watch.touches instanceId)
    (reached : (server host).Reaches allowed made start final)
    (initially : Holds host watch start.state start.world) : Holds host watch final.state final.world := by
  refine Server.Reaches.invariant (fun state world _ => Holds host watch state world) ?_ ?_ ?_ initially reached
  · intro world answered halted
    refine (boot_upholds halted).weaken (fun _ guarded => guarded) fun state last _ outcome => ?_
    cases state with
    | none => exact outcome
    | some store => exact outcome.1
  · intro call store world answered asked stands
    have named : ∀ instanceId resolution note, call = .reconcile instanceId resolution note →
        watch.touches instanceId := by
      rintro instanceId resolution note rfl
      exact touched instanceId resolution note asked
    refine (handle_upholds stands named).weaken (fun _ guarded => guarded) fun result last _ outcome => ?_
    obtain ⟨after, same, stands⟩ := outcome
    rw [same]
    exact stands
  · intro state world left answered holds survives
    cases state with
    | none => exact Halted.guarded holds left survives
    | some store => exact Stands.guarded holds left survives

/-- Nothing in particular is watched. -/
def Watch.idle : Watch where
  events _ := True
  records _ := True
  touches _ := True
  grows _ _ _ _ _ _ _ _ := trivial
  puts _ _ _ _ _ := trivial
  fresh _ _ _ _ := trivial
  restarts _ _ _ _ := trivial

/-- The owner of a nonce. -/
def Watch.owner (nonce : String × String) (instanceId : String) : Watch where
  events events := Owned events nonce instanceId
  records _ := True
  touches _ := True
  grows _ _ _ _ _ _ owned _ := owned.append _
  puts _ _ _ _ _ := trivial
  fresh _ _ _ _ := trivial
  restarts _ _ _ _ := trivial

theorem unresolved_grows {event : Event} {time : Int} {seq : Nat} {prev hash : String} {instanceId : String}
    (before : ∀ folded, Folded.fold events = some folded →
      Unresolved (fun instanceId => (folded.records.lookup instanceId).map Record.restarted) instanceId)
    (touched : event.instanceId ≠ instanceId ∨ event.kind = "unknown_outcome") {folded : Folded}
    (folds : Folded.fold (events ++ [Ledger.line (event.fields time) seq prev hash]) = some folded) :
    Unresolved (fun instanceId => (folded.records.lookup instanceId).map Record.restarted) instanceId := by
  rw [Folded.fold_snoc, Option.bind_eq_some_iff] at folds
  obtain ⟨earlier, folds, applied⟩ := folds
  obtain ⟨named, kind, record, isNamed, isKind, records, outcome⟩ := Folded.apply_cases applied
  rw [Event.line_instance, Option.some.injEq] at isNamed
  rw [Event.line_kind, Option.some.injEq] at isKind
  simp only [Unresolved, records]
  by_cases same : instanceId = named
  · subst same
    have unknown : kind = "unknown_outcome" := isKind ▸ touched.resolve_left fun apart => apart isNamed
    obtain ⟨_, executing, _⟩ | ⟨_, _, _, stopped, state⟩ := outcome
    · rw [unknown] at executing
      exact absurd executing (by decide)
    · simp [Record.restarted_other stopped, state unknown]
  · rw [AList.lookup_insert_ne same]
    exact before earlier folds

/-- An instance of which nobody knows whether its effect was performed. -/
def Watch.unresolved (instanceId : String) : Watch where
  events events := ∀ folded, Folded.fold events = some folded →
    Unresolved (fun instanceId => (folded.records.lookup instanceId).map Record.restarted) instanceId
  records records := Unresolved records instanceId
  touches other := other ≠ instanceId
  grows _ _ _ _ _ _ before touched _ folds := unresolved_grows before touched folds
  puts records other record unresolved apart := by
    unfold Unresolved
    rw [Function.update_of_ne apart.symm]
    exact unresolved
  fresh records other unresolved unknown := by
    rintro rfl
    simp [Unresolved, unknown] at unresolved
  restarts _ folded holds folds := holds folded folds

theorem Halted.empty : Halted host Watch.idle {} := by
  refine ⟨⟨List.nodup_nil, fun _ _ _ member => absurd member List.not_mem_nil⟩, rfl, fun chain verified => ?_⟩
  cases verified
  exact ⟨trivial, fun _ _ _ owned => absurd owned.choose_spec.1 List.not_mem_nil,
    fun _ member => absurd member List.not_mem_nil, fun _ member => absurd member List.not_mem_nil⟩

/-- What holds of the actuator for good. -/
structure Lasting (host : Host) (config : Server.Config Disk Store Call Answer) : Prop where
  /-- Every effect is entered at most once, and every nonce is taken for one instance. -/
  once : Once config.world
  /-- The store knows whose the nonces are. -/
  owners : ∀ store, config.state = some store → ∀ nonce instanceId, (nonce, instanceId) ∈ config.world.owned →
    store.nonceOwner nonce = some instanceId
  /-- The owner of a nonce is its owner for ever. -/
  bound : ∀ store, config.state = some store → ∀ nonce instanceId, store.nonceOwner nonce = some instanceId →
    ∀ later other, (server host).Reachable config later → later.state = some other →
      other.nonceOwner nonce = some instanceId
  /-- After a boot no instance is in execution. -/
  restarts : config.state = none → ∀ store last,
    machine.Runs (fun _ _ _ => True) (boot host) config.world (some (some store)) last →
      Restarts host config.world store
  /-- What a stop left in execution has an unknown outcome from the next boot on, through
  further stops and boots, until it is reconciled. -/
  unresolved : config.state = none → ∀ chain folded record,
    Ledger.verify host config.world.journal.file = .ok chain → Folded.fold chain.events = some folded →
    ∀ instanceId, folded.records.lookup instanceId = some record →
      record.state = .executing ∨ record.state = .unknownOutcome →
      ∀ later store, (server host).Reaches (fun _ _ _ => True)
          (fun call => ∀ resolution note, call ≠ .reconcile instanceId resolution note) config later →
        later.state = some store → Unresolved store.records.lookup instanceId

theorem performed_once {final : Server.Config Disk Store Call Answer}
    (reached : (server host).Reachable { world := {} } final) : Lasting host final := by
  have holds : Holds host Watch.idle final.state final.world := Holds.lasts (fun _ _ _ _ => trivial) reached .empty
  obtain ⟨world, state, answered⟩ := final
  constructor
  · cases state with
    | none => exact holds.once
    | some store =>
      obtain ⟨_, events, serving⟩ := holds
      exact serving.tracks.holds.once serving.once
  · rintro store rfl nonce instanceId member
    obtain ⟨_, events, serving⟩ := holds
    exact (serving.owners nonce instanceId).mpr (serving.tracks.holds.owned _ member)
  · rintro store rfl nonce instanceId given later other onwards up
    obtain ⟨_, events, serving⟩ := holds
    have owned := (serving.owners nonce instanceId).mp given
    have watched : Serving host (Watch.owner nonce instanceId) store world events := by
      refine ⟨serving.once, serving.tracks.weaken ?_ ?_, serving.position, serving.claimed, serving.owners⟩
      · exact fun facts => ⟨owned, facts.consistent, facts.owned, facts.claimed⟩
      · exact fun line facts => ⟨owned.append line, facts.consistent, facts.owned, facts.claimed⟩
    have lasts : Holds host (Watch.owner nonce instanceId) later.state later.world :=
      Holds.lasts (fun _ _ _ _ => trivial) onwards ⟨trivial, events, watched⟩
    rw [up] at lasts
    obtain ⟨_, events, later⟩ := lasts
    exact (later.owners nonce instanceId).mpr later.tracks.holds.watched
  · rintro rfl store last ran
    exact (((boot_upholds holds).runs ran).2 _ rfl).2
  · rintro rfl chain folded record verified folds instanceId known left later store onwards up
    have watched : Halted host (Watch.unresolved instanceId) world := by
      refine ⟨holds.once, holds.settled, fun other accepted => ?_⟩
      have facts := holds.facts other accepted
      refine ⟨fun refolded refolds => ?_, facts.consistent, facts.owned, facts.claimed⟩
      rw [verified] at accepted
      cases accepted
      rw [folds] at refolds
      cases refolds
      obtain executing | unknown := left
      · simp [Unresolved, known, Record.restarted_executing executing]
      · simp [Unresolved, known, Record.restarted, unknown]
    have lasts : Holds host (Watch.unresolved instanceId) later.state later.world :=
      Holds.lasts (fun other resolution note apart named => apart resolution note (named ▸ rfl)) onwards watched
    rw [up] at lasts
    exact lasts.1

/-! One effect of the probe that the fence lets pass. -/

namespace Probe

def boots : List Choice := List.replicate 7 .served

def executes : List Choice :=
  [.served, .clock 0, .served, .served, .served, .served, .served, .served, .clock 0, .served, .served, .served]

def empty : Store where
  ledger := {}
  jseq := 0
  jhead := Ledger.zero

def anchored : Disk := { anchor := some empty.anchorFields }

def call : Call := .execute Fence.probeContext Fence.probeRequest

theorem boot_plays : machine.play boots (boot Fence.probeHost) {} = some (some (some empty), anchored) := rfl

theorem execute_plays : ∃ answer store last,
    machine.play executes (handle Fence.probeHost call empty) anchored = some (some (answer, some store), last) ∧
      last.performed = ["instance-1"] := by
  have played : (machine.play executes (handle Fence.probeHost call empty) anchored).map
      (fun result => (result.1.map (·.2.isSome), result.2.performed)) = some (some true, ["instance-1"]) := by
    decide +kernel
  obtain ⟨⟨result, last⟩, given, same⟩ := Option.map_eq_some_iff.mp played
  simp only [Prod.mk.injEq, Option.map_eq_some_iff] at same
  obtain ⟨⟨⟨answer, next⟩, rfl, up⟩, performed⟩ := same
  obtain ⟨store, rfl⟩ := Option.isSome_iff_exists.mp up
  exact ⟨answer, store, last, given, performed⟩

end Probe

open Probe in
theorem performed_once_probe : ∃ final : Server.Config Disk Store Call Answer,
    final.world.performed = ["instance-1"] ∧ Lasting Fence.probeHost final := by
  obtain ⟨answer, store, last, played, performed⟩ := execute_plays
  have booted : (server Fence.probeHost).Reachable { world := {} } ⟨anchored, some empty, []⟩ :=
    .step .start (.started (Machine.runs_of_play (fun _ _ _ _ => trivial) boot_plays))
  refine ⟨⟨last, some store, [(call, answer)]⟩, performed, performed_once (.step booted ?_)⟩
  exact .handled trivial (Machine.runs_of_play (fun _ _ _ _ => trivial) played)

end Store

end AshA2A.Actuator
