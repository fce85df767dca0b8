import AshA2A.Proofs.ActuatorOnce
import AshA2A.Proofs.ActuatorSurvival

/-! The records of the actuator survive stops and failed appends: what was acknowledged is
there after the next boot. -/

namespace AshA2A.Actuator.Store

open Sa2aCrypto Concurrency AppendLog

variable {host : Host} {allowed : Op → Choice → Disk → Prop} {disk : Disk} {store : Store}
  {journal ledger : Chain} {records before found : String → Option Record}

/-! ## What is expected of the records -/

/-- The instance that a call is about. -/
def Call.instanceId : Call → String
  | .execute _ request => request.effect.effectInstanceId
  | .reconcile instanceId _ _ | .status instanceId => instanceId

/-- The same records, but for instances of which nothing was known: they may have been started. -/
def Agrees (before found : String → Option Record) : Prop :=
  ∀ instanceId, found instanceId = before instanceId ∨ before instanceId = none ∧ Unresolved found instanceId

/-- The record that the call acknowledges when nothing goes wrong. -/
def Acknowledges (before : String → Option Record) : Call → Record → Prop
  | .execute _ request, record => ∃ seq hash, record =
    { instanceId := request.effect.effectInstanceId, state := .completed, generation := request.cert.generation
      effectDigest := request.cert.effectDigest, ledgerSeq := seq, ledgerHash := hash }
  | .reconcile instanceId resolution _, record =>
    ∃ known, before instanceId = some known ∧ record = { known with state := resolution.state }
  | .status _, _ => False

/-- As `Agrees`, in the middle of a call that may have come to its end already. -/
def Within (call : Call) (before found : String → Option Record) : Prop :=
  ∀ instanceId, found instanceId = before instanceId ∨
    before instanceId = none ∧ Unresolved found instanceId ∨
    instanceId = call.instanceId ∧ ∃ record, found instanceId = some record ∧ Acknowledges before call record

/-- What the answer of a call says about the records. -/
def Told (call : Call) (before after : String → Option Record) : Answer → Prop
  | .performed evidence | .replayed evidence | .reconciled evidence | .status evidence =>
    after = Function.update before call.instanceId (some evidence)
  | .executionUnknown => Unresolved after call.instanceId ∧
    ∀ instanceId, instanceId ≠ call.instanceId → after instanceId = before instanceId
  | .refused _ _ | .error _ => after = before

theorem Agrees.refl (records : String → Option Record) : Agrees records records := fun _ => .inl rfl

theorem Agrees.within {call : Call} (agrees : Agrees before found) : Within call before found := by
  intro instanceId
  obtain same | started := agrees instanceId
  · exact .inl same
  · exact .inr (.inl started)

theorem Agrees.trans {middle : String → Option Record} (first : Agrees before middle) (second : Agrees middle found) :
    Agrees before found := by
  intro instanceId
  obtain same | ⟨new, started⟩ := second instanceId
  · obtain old | ⟨unknown, started⟩ := first instanceId
    · exact .inl (same.trans old)
    · exact .inr ⟨unknown, by rw [Unresolved, same]; exact started⟩
  · obtain old | ⟨_, earlier⟩ := first instanceId
    · exact .inr ⟨old ▸ new, started⟩
    · simp [Unresolved, new] at earlier

/-- An instance of which nothing was known was started. -/
theorem Agrees.started {instanceId : String} {record : Record} (unknown : before instanceId = none)
    (state : record.state = .unknownOutcome) :
    Agrees before (Function.update before instanceId (some record)) := by
  intro other
  by_cases same : other = instanceId
  · subst same
    exact .inr ⟨unknown, by simp [Unresolved, state]⟩
  · exact .inl (Function.update_of_ne same ..)

theorem Within.acknowledged {call : Call} {record : Record} (acknowledges : Acknowledges before call record) :
    Within call before (Function.update before call.instanceId (some record)) := by
  intro other
  by_cases same : other = call.instanceId
  · subst same
    exact .inr (.inr ⟨rfl, record, by simp, acknowledges⟩)
  · exact .inl (Function.update_of_ne same ..)

theorem restarted_update (instanceId : String) (record : Option Record) :
    restarted (Function.update records instanceId record) =
      Function.update (restarted records) instanceId (record.map Record.restarted) := by
  funext other
  by_cases same : other = instanceId
  · subst same
    simp [restarted]
  · simp [restarted, Function.update_of_ne same]

/-! ## Calls -/

/-- Between two calls the memory of the store is what a boot would make of the journal. -/
def Sound (host : Host) (allowed : Op → Choice → Disk → Prop) (store : Store) (disk : Disk) : Prop :=
  ∃ journal ledger records,
    Steady host allowed (Agrees store.records.lookup) store disk journal ledger records ∧
      store.records.lookup = restarted records

theorem Sound.secured (sound : Sound host allowed store disk) :
    Secured host (Agrees store.records.lookup) disk := by
  obtain ⟨journal, ledger, records, steady, same⟩ := sound
  exact steady.secured (fun _ agrees => agrees) (same ▸ .refl _)

/-- What a call comes to. -/
def Concludes (host : Host) (allowed : Op → Choice → Disk → Prop) (call : Call) (before : String → Option Record)
    (result : Answer × Store) (last : Disk) : Prop :=
  Sound host allowed result.2 last ∧ Told call before result.2.records.lookup result.1

theorem Steady.unknown_upholds {call : Call} {record : Record} {reason : String}
    (steady : Steady host allowed (Agrees (restarted records)) store disk journal ledger records)
    (tolerable : Tolerable allowed) (claimed : Claimed journal.events record.instanceId)
    (known : records record.instanceId = some record) (executing : record.state = .executing)
    (memory : store.records.lookup = Function.update before record.instanceId (some record))
    (same : restarted records = Function.update before record.instanceId (some record.restarted))
    (new : before record.instanceId = none) (named : call.instanceId = record.instanceId) :
    machine.Upholds allowed (Secured host (Within call before)) (Concludes host allowed call before)
      (unknown host store record reason) disk := by
  have started : Agrees before (restarted records) := by
    rw [same]
    exact .started new (by simp [Record.restarted_executing executing])
  have applied : restarted ((Event.unknownOutcome record.instanceId reason).apply records) = restarted records := by
    rw [Event.apply, restarted_update]
    simp only [Event.instanceId, Event.next, known, Option.map_some]
    rw [same, Function.update_idem, Record.restarted_executing executing]
    rfl
  have implies : ∀ other, Agrees (restarted records) other → Within call before other :=
    fun other agrees => (started.trans agrees).within
  have base := implies _ (.refl _)
  have lookup : (store.put { record with state := .unknownOutcome }).records.lookup = restarted records := by
    rw [Store.put, lookup_insert, memory, same, Function.update_idem, Record.restarted_executing executing]
  have told : Told call before (restarted records) .executionUnknown := by
    rw [Told, named, same, Record.restarted_executing executing]
    exact ⟨by simp [Unresolved], fun other apart => Function.update_of_ne apart ..⟩
  have idle : Attended allowed False := False.elim
  refine (steady.journal_proceeds (.unknownOutcome record.instanceId reason) tolerable idle False.elim claimed implies
    base (applied ▸ base) (.inr (applied ▸ .refl _))).upholds.bind fun result last guarded noted => ?_
  cases noted with
  | failed _ steady =>
    refine .pure guarded ⟨⟨journal, ledger, records, ?_, lookup⟩, lookup ▸ told⟩
    rw [lookup]
    exact steady.aside rfl rfl rfl rfl
  | @durable _ line hash _ _ _ _ _ steady =>
    refine .pure guarded ⟨⟨journal.snoc line hash, ledger, _, ?_, lookup.trans applied.symm⟩, ?_⟩
    · exact (steady _).aside rfl rfl rfl rfl
    · exact lookup ▸ told

/-- What the effector comes to: the completion it reports matches the ledger. -/
def Performed (host : Host) (allowed : Op → Choice → Disk → Prop) (accept : (String → Option Record) → Prop)
    (store : Store) (instanceId : String) (journal : Chain) (records : String → Option Record) :
    Except String (Ledger × Option Nat × Option String) → Disk → Prop
  | .error _, last => ∃ ledger, Steady host allowed accept store last journal ledger records
  | .ok (position, seq, hash), last => ∃ ledger,
    Steady host allowed accept { store with ledger := position } last journal ledger records ∧
      ∀ at', seq = some at' → Journal.matchEntry ledger.events at' (some instanceId) hash = true

theorem Steady.performEffect_upholds {effect : Effect} {digest : String} {effector : Effector}
    {accept during : (String → Option Record) → Prop}
    (steady : Steady host allowed accept store disk journal ledger records) (tolerable : Tolerable allowed)
    (claimed : Claimed journal.events effect.effectInstanceId)
    (implies : ∀ records, accept records → during records) (base : during (restarted records)) :
    machine.Upholds allowed (Secured host during)
      (Performed host allowed accept store effect.effectInstanceId journal records)
      (performEffect host store.ledger effect digest effector) disk := by
  cases effector with
  | noopProbe => exact .pure (steady.secured implies base) ⟨ledger, steady, nofun⟩
  | ledgerAppend =>
    refine (steady.appendLedger_upholds ⟨effect.effectInstanceId, digest, _⟩ tolerable claimed implies base).bind
      fun result last secured entered => ?_
    cases entered with
    | failed _ steady => exact .pure secured ⟨ledger, steady⟩
    | @durable line hash _ extension _ steady =>
      refine .pure secured ⟨ledger.snoc line hash, steady, fun at' same => ?_⟩
      cases same
      have given : (ledger.snoc line hash).events[ledger.events.length]? = some line := by simp [Chain.snoc]
      simp only [Journal.matchEntry, given]
      simp [extension.line]

theorem Steady.perform_upholds {call : Call} {effect : Effect} {digest : String} {record : Record}
    (steady : ∀ accept, Steady host allowed accept store disk journal ledger records)
    (tolerable : Tolerable allowed) (claimed : Claimed journal.events record.instanceId)
    (known : records record.instanceId = some record) (executing : record.state = .executing)
    (memory : store.records.lookup = Function.update before record.instanceId (some record))
    (same : restarted records = Function.update before record.instanceId (some record.restarted))
    (new : before record.instanceId = none) (named : call.instanceId = record.instanceId)
    (ofEffect : effect.effectInstanceId = record.instanceId)
    (acknowledges : ∀ seq hash,
      Acknowledges before call { record with state := .completed, ledgerSeq := seq, ledgerHash := hash }) :
    machine.Upholds allowed (Secured host (Within call before)) (Concludes host allowed call before)
      (perform host store effect digest record) disk := by
  have started : Agrees before (restarted records) := by
    rw [same]
    exact .started new (by simp [Record.restarted_executing executing])
  have implies : ∀ other, Agrees (restarted records) other → Within call before other :=
    fun other agrees => (started.trans agrees).within
  have base := implies _ (.refl _)
  have steady := steady (Agrees (restarted records))
  unfold perform
  split
  · exact ⟨steady.secured implies base, fun _ reply => reply.elim⟩
  next effector found =>
    refine .ask (steady.secured implies base) fun choice reply after _ served => ?_
    have entered : Steady host allowed (Agrees (restarted records)) store after journal ledger records := by
      cases choice <;> cases served
      exact steady.aside rfl rfl rfl rfl
    refine (entered.performEffect_upholds tolerable (ofEffect ▸ claimed) implies base).bind
      fun result last secured performed => ?_
    cases result with
    | error reason =>
      obtain ⟨ledger, steady⟩ := performed
      exact steady.unknown_upholds tolerable claimed known executing memory same new named
    | ok result =>
      obtain ⟨position, seq, hash⟩ := result
      obtain ⟨ledger, steady, matched⟩ := performed
      refine (steady.writeAnchor_upholds implies base).bind fun _ last _ steady => ?_
      have applied : restarted ((Event.completed record.instanceId seq hash).apply records) =
          Function.update before record.instanceId
            (some { record with state := .completed, ledgerSeq := seq, ledgerHash := hash }) := by
        rw [Event.apply, restarted_update, same]
        simp [Event.instanceId, Event.next, known, Record.restarted_other]
      have done : Within call before (restarted ((Event.completed record.instanceId seq hash).apply records)) := by
        have acknowledged := Within.acknowledged (acknowledges seq hash)
        rw [named] at acknowledged
        exact applied ▸ acknowledged
      have idle : Attended allowed False := False.elim
      refine (steady.journal_proceeds (.completed record.instanceId seq hash) tolerable idle False.elim
        ⟨claimed, fun at' given => ofEffect ▸ matched at' given⟩ implies base done (.inl (by simp [Event.kind]))
        ).upholds.bind fun result last secured noted => ?_
      cases noted with
      | failed _ steady => exact steady.unknown_upholds tolerable claimed known executing memory same new named
      | @durable _ line hash' _ _ _ _ _ steady =>
        have lookup : (({ store with ledger := position }.advanced hash').put
            { record with state := .completed, ledgerSeq := seq, ledgerHash := hash }).records.lookup =
            restarted ((Event.completed record.instanceId seq hash).apply records) := by
          rw [Store.put, lookup_insert, applied]
          exact (congrArg (Function.update · _ _) memory).trans (Function.update_idem ..)
        refine .pure secured ⟨⟨journal.snoc line hash', ledger, _, ?_, lookup⟩, ?_⟩
        · exact (steady _).aside rfl rfl rfl rfl
        · rw [Told, lookup, applied, named]

theorem Sound.claimAndPerform_upholds {context : Context} {request : Fence.Request}
    (sound : Sound host allowed store disk) (tolerable : Tolerable allowed)
    (unknown : store.records.lookup request.effect.effectInstanceId = none) :
    machine.Upholds allowed (Secured host (Within (.execute context request) store.records.lookup))
      (Concludes host allowed (.execute context request) store.records.lookup)
      (claimAndPerform host store request) disk := by
  obtain ⟨journal, ledger, records, steady, same⟩ := sound
  generalize nonces' : (request.cert.signatures.map fun signature => (signature.kid, signature.nonce)) = nonces
  have applied : restarted ((Event.executing request.effect.effectInstanceId request.cert.generation
      request.cert.effectDigest nonces).apply records) =
      Function.update store.records.lookup request.effect.effectInstanceId
        (some (Record.restarted
          { instanceId := request.effect.effectInstanceId, state := .executing
            generation := request.cert.generation, effectDigest := request.cert.effectDigest })) := by
    rw [Event.apply, restarted_update, ← same]
    rfl
  have started : Agrees store.records.lookup (restarted ((Event.executing request.effect.effectInstanceId
      request.cert.generation request.cert.effectDigest nonces).apply records)) := by
    rw [applied]
    exact .started unknown (by simp [Record.restarted])
  have idle : Attended allowed False := False.elim
  unfold claimAndPerform
  simp only [nonces']
  refine (steady.journal_proceeds (.executing request.effect.effectInstanceId request.cert.generation
    request.cert.effectDigest nonces) tolerable idle False.elim trivial (fun _ agrees => agrees.within)
    (same ▸ (Agrees.refl _).within) started.within (.inr started)).upholds.bind fun result last secured noted => ?_
  cases noted with
  | failed _ steady => exact .pure secured ⟨⟨journal, ledger, records, steady, same⟩, rfl⟩
  | @durable _ line hash _ extension _ _ _ steady =>
    refine .ask secured fun choice reply after _ served => ?_
    have owned : after = { last with
        owned := nonces.map (·, request.effect.effectInstanceId) ++ last.owned } := by
      cases choice <;> cases served
      rfl
    subst owned
    refine Steady.perform_upholds (fun accept => (steady accept).aside rfl rfl rfl rfl) tolerable ?_ ?_ rfl ?_ applied
      unknown rfl rfl fun seq hash => ⟨seq, hash, rfl⟩
    · rw [Chain.snoc, extension.line]
      exact claimed_append_iff.mpr (.inr ⟨rfl, rfl⟩)
    · simp [Event.apply, Event.next, Event.instanceId]
    · exact lookup_insert

theorem Sound.execute_upholds {context : Context} {request : Fence.Request}
    (sound : Sound host allowed store disk) (tolerable : Tolerable allowed) :
    machine.Upholds allowed (Secured host (Within (.execute context request) store.records.lookup))
      (Concludes host allowed (.execute context request) store.records.lookup)
      (execute host store context request) disk := by
  have secured : Secured host (Within (.execute context request) store.records.lookup) disk := by
    obtain ⟨journal, ledger, records, steady, same⟩ := sound
    exact steady.secured (fun _ agrees => agrees.within) (same ▸ (Agrees.refl _).within)
  unfold execute
  dsimp only
  split
  next passed =>
    obtain ⟨unknown, _⟩ := Fence.run_new passed
    unfold doExecute
    rw [if_neg (not_not.mpr rfl)]
    obtain ⟨journal, ledger, records, steady, same⟩ := sound
    refine (steady.writeAnchor_upholds (fun _ agrees => agrees.within) (same ▸ (Agrees.refl _).within)).bind
      fun written last secured steady => ?_
    have sound : Sound host allowed store last := ⟨journal, ledger, records, steady, same⟩
    cases written with
    | true => exact sound.claimAndPerform_upholds tolerable unknown
    | false => exact .pure secured ⟨sound, rfl⟩
  next check code _ =>
    split
    · split
      · exact ⟨secured, fun _ reply => reply.elim⟩
      next record recorded =>
        split
        · refine .pure secured ⟨sound, ?_⟩
          rw [Told, ← recorded]
          exact (Function.update_eq_self ..).symm
        · exact .pure secured ⟨sound, rfl⟩
    · exact .pure secured ⟨sound, rfl⟩

theorem Sound.reconcile_upholds {instanceId note : String} {resolution : Resolution}
    (sound : Sound host allowed store disk) (tolerable : Tolerable allowed) :
    machine.Upholds allowed (Secured host (Within (.reconcile instanceId resolution note) store.records.lookup))
      (Concludes host allowed (.reconcile instanceId resolution note) store.records.lookup)
      (reconcile host store instanceId resolution note) disk := by
  have unchanged : ∀ code, Concludes host allowed (.reconcile instanceId resolution note) store.records.lookup
      (.error code, store) disk := fun code => ⟨sound, rfl⟩
  obtain ⟨journal, ledger, records, steady, same⟩ := sound
  have base : Within (.reconcile instanceId resolution note) store.records.lookup (restarted records) :=
    same ▸ (Agrees.refl _).within
  have secured := steady.secured (fun _ (agrees : Agrees ..) => agrees.within) base
  unfold reconcile
  split
  · exact .pure secured (unchanged _)
  next record recorded =>
    split
    · exact .pure secured (unchanged _)
    · obtain ⟨known, folded, rfl⟩ := Option.map_eq_some_iff.mp
        ((congrFun same instanceId).symm.trans recorded)
      have applied : restarted ((Event.reconciled instanceId resolution note).apply records) =
          Function.update store.records.lookup instanceId
            (some { known.restarted with state := resolution.state }) := by
        rw [Event.apply, restarted_update, ← same]
        have resolved : { known with state := resolution.state }.restarted =
            { known.restarted with state := resolution.state } := by
          rw [Record.restarted_other (by cases resolution <;> simp [Resolution.state])]
          by_cases executing : known.state = .executing
          · rw [Record.restarted_executing executing]
          · rw [Record.restarted_other executing]
        simp [Event.instanceId, Event.next, folded, resolved]
      have done : Within (.reconcile instanceId resolution note) store.records.lookup
          (restarted ((Event.reconciled instanceId resolution note).apply records)) := by
        rw [applied]
        exact .acknowledged ⟨_, recorded, rfl⟩
      have claimed := steady.kept.recorded (show records instanceId ≠ none by simp [folded])
      have idle : Attended allowed False := False.elim
      refine (steady.journal_proceeds (.reconciled instanceId resolution note) tolerable idle False.elim claimed
        (fun _ agrees => agrees.within) base done (.inl (by simp [Event.kind]))).upholds.bind
        fun result last secured noted => ?_
      cases noted with
      | failed _ steady => exact .pure secured ⟨⟨journal, ledger, records, steady, same⟩, rfl⟩
      | @durable _ line hash _ _ _ _ _ steady =>
        refine .pure secured ⟨⟨journal.snoc line hash, ledger, _, ?_, lookup_insert.trans applied.symm⟩, ?_⟩
        · exact (steady _).aside rfl rfl rfl rfl
        · exact lookup_insert

theorem Sound.handle_upholds {call : Call} (sound : Sound host allowed store disk) (tolerable : Tolerable allowed) :
    machine.Upholds allowed (Secured host (Within call store.records.lookup))
      (fun result last => ∃ after, result.2 = some after ∧
        Concludes host allowed call store.records.lookup (result.1, after) last)
      (handle host call store) disk := by
  have answers : ∀ program : Code (Answer × Store),
      machine.Upholds allowed (Secured host (Within call store.records.lookup))
        (Concludes host allowed call store.records.lookup) program disk →
      machine.Upholds allowed (Secured host (Within call store.records.lookup))
        (fun result last => ∃ after, result.2 = some after ∧
          Concludes host allowed call store.records.lookup (result.1, after) last)
        (program >>= fun result => pure (result.1, some result.2)) disk :=
    fun program upholds => upholds.bind fun result last secured concludes => .pure secured ⟨_, rfl, concludes⟩
  cases call with
  | execute context request => exact answers _ (sound.execute_upholds tolerable)
  | reconcile instanceId resolution note => exact answers _ (sound.reconcile_upholds tolerable)
  | status instanceId =>
    refine answers _ ?_
    have secured : Secured host (Within (.status instanceId) store.records.lookup) disk := by
      obtain ⟨journal, ledger, records, steady, same⟩ := sound
      exact steady.secured (fun _ agrees => agrees.within) (same ▸ (Agrees.refl _).within)
    split
    · exact .pure secured ⟨sound, rfl⟩
    next record recorded =>
      refine .pure secured ⟨sound, ?_⟩
      rw [Told, ← recorded]
      exact (Function.update_eq_self ..).symm

/-! ## Boot -/

/-- The encoder can encode what a boot journals. -/
def Encodes (host : Host) : Prop :=
  ∀ instanceId reason time seq prev,
    Ledger.chained host ((Event.unknownOutcome instanceId reason).fields time) seq prev ≠ none

/-- Both files are synced and hold what the chains say. -/
structure Tidy (disk : Disk) (journal ledger : Chain) : Prop where
  journaled : Clean disk.journal.file journal.events
  ledgered : Clean disk.ledger.file ledger.events
  settledJournal : disk.journal.synced.lines = disk.journal.file.lines
  settledLedger : disk.ledger.synced.lines = disk.ledger.file.lines

/-- The store while it works off the records of the journal: those left are as they were. -/
def Halfway (store : Store) (records : String → Option Record) (rest : List (Sigma fun _ : String => Record)) : Prop :=
  ∀ instanceId, store.records.lookup instanceId =
    if instanceId ∈ rest.keys then records instanceId else restarted records instanceId

variable {live : Prop} {rest : List (Sigma fun _ : String => Record)}

theorem Steady.markUnknownOnRestart_proceeds
    (steady : Steady host allowed (fun _ => False) store disk journal ledger records)
    (tidy : Tidy disk journal ledger) (tolerable : Tolerable allowed) (attended : Attended allowed live)
    (calm : live → ¬ Faulty allowed) (encodes : live → Encodes host) (distinct : rest.NodupKeys)
    (listed : ∀ entry ∈ rest, records entry.1 = some entry.2) (halfway : Halfway store records rest) :
    machine.Proceeds allowed live (Secured host (· = restarted records))
      (fun marked last => ∃ journal marks, Steady host allowed (fun _ => False) marked last journal ledger marks ∧
        Tidy last journal ledger ∧ restarted marks = restarted records ∧
        marked.records.lookup = restarted records)
      (markUnknownOnRestart host store rest) disk := by
  have secured : Secured host (· = restarted records) disk := steady.secured nofun rfl
  induction rest generalizing store disk journal records with
  | nil =>
    refine .pure secured ⟨journal, records, steady, tidy, rfl, funext fun instanceId => ?_⟩
    simpa using halfway instanceId
  | cons entry rest ih =>
    obtain ⟨instanceId, record⟩ := entry
    obtain ⟨new, distinct⟩ := List.nodupKeys_cons.mp distinct
    obtain ⟨known, listed⟩ := List.forall_mem_cons.mp listed
    dsimp only at new known
    have kept : ∀ other, other ≠ instanceId → store.records.lookup other =
        if other ∈ rest.keys then records other else restarted records other := by
      intro other apart
      simpa [apart] using halfway other
    unfold markUnknownOnRestart
    split
    next stopped =>
      refine ih steady tidy distinct listed (fun other => ?_) secured
      by_cases same : other = instanceId
      · subst same
        rw [halfway, if_pos (by simp), if_neg new, restarted, known, Option.map_some, Record.restarted_other stopped]
      · exact kept other same
    next executing =>
      have executing := not_not.mp executing
      have applied : (Event.unknownOutcome instanceId "restart_after_write_ahead").apply records =
          Function.update records instanceId (some { record with state := .unknownOutcome }) := by
        simp [Event.apply, Event.instanceId, Event.next, known]
      have same : restarted ((Event.unknownOutcome instanceId "restart_after_write_ahead").apply records) =
          restarted records := by
        rw [applied, restarted_update, Option.map_some, Record.restarted_other (by simp)]
        refine Function.update_eq_self_iff.mpr ?_
        rw [restarted, known, Option.map_some, Record.restarted_executing executing]
      have weak : Steady host allowed (· = restarted records) store disk journal ledger records :=
        steady.weaken nofun
      refine (weak.journal_proceeds (.unknownOutcome instanceId "restart_after_write_ahead") tolerable attended
        (fun alive time => encodes alive _ _ _ _ _) (steady.kept.recorded (by simp [known])) (fun _ same => same)
        rfl same (.inr same)).bind fun result last secured noted => ?_
      cases noted with
      | failed faulty _ =>
        exact ⟨secured, fun alive => absurd faulty (calm alive), fun _ reply => reply.elim⟩
      | @durable _ line hash _ _ settled clean ledgered after =>
        have tidy : Tidy last (journal.snoc line hash) ledger :=
          ⟨clean, ledgered ▸ tidy.ledgered, by rw [settled], ledgered ▸ tidy.settledLedger⟩
        have steady : Steady host allowed (fun _ => False)
            { store.advanced hash with
              records := store.records.insert instanceId { record with state := .unknownOutcome } }
            last (journal.snoc line hash) ledger _ := (after _).aside rfl rfl rfl rfl
        rw [← same]
        refine ih steady tidy distinct (fun entry member => ?_) (fun other => ?_) (same ▸ secured)
        · have listed' : entry.1 ∈ rest.keys := List.mem_map_of_mem member
          have apart : entry.1 ≠ instanceId := fun named => new (named ▸ listed')
          rw [applied, Function.update_of_ne apart]
          exact listed entry member
        · by_cases named : other = instanceId
          · subst named
            rw [AList.lookup_insert, if_neg new, same, restarted, known, Option.map_some,
              Record.restarted_executing executing]
          · rw [AList.lookup_insert_ne named, same, applied, Function.update_of_ne named]
            exact kept other named

theorem Rests.trim (which : Which) (rests : Rests host disk journal ledger records) :
    Rests host (disk.trim which) journal ledger records := by
  unfold Disk.trim
  split
  · cases which with
    | journal =>
      exact ⟨rests.journaled, rests.ledgered, rfl, rests.settledLedger, rests.kept, rests.anchored⟩
    | ledger => exact ⟨rests.journaled, rests.ledgered, rests.settledJournal, rfl, rests.kept, rests.anchored⟩
  · exact rests

theorem trim_torn (disk : Disk) :
    ((disk.trim .journal).trim .ledger).journal.file.torn = false ∧
      ((disk.trim .journal).trim .ledger).ledger.file.torn = false := by
  obtain ⟨⟨⟨_, first⟩, _⟩, ⟨⟨_, second⟩, _⟩, _, _, _, _, _⟩ := disk
  cases first <;> cases second <;> exact ⟨rfl, rfl⟩

theorem Kept.passes {first second : File Json} {anchor : Anchor.Found} (kept : Kept host journal ledger records)
    (journaled : first.lines = journal.events.map some) (ledgered : second.lines = ledger.events.map some)
    (anchored : Anchor.check journal.hashes ledger.hashes anchor = .ok ()) :
    checks host first second anchor = .ok (journal, ledger) := by
  have left := verify_some kept.journaled kept.plainEvents journaled
  have right := verify_some kept.ledgered kept.plainEntries ledgered
  rw [checks, right, left]
  simp only [Except.mapError]
  show (do Anchor.check _ _ _; Journal.crossCheck _ _; pure (journal, ledger)) = _
  rw [anchored, kept.cross]
  rfl

/-- The store that a boot opens on a directory in good order. -/
theorem Rests.steady {anchor : Anchor} (folded : Folded) (rests : Rests host disk journal ledger records)
    (tidy : Tidy disk journal ledger) (present : disk.anchor = some anchor) :
    Steady host allowed (fun _ => False) (opened journal ledger folded) disk journal ledger records := by
  have anchored := rests.anchored
  rw [Disk.readAnchor, present] at anchored
  exact ⟨rests.kept, rfl, rfl, rfl, .of_clean tidy.journaled tidy.settledJournal,
    .of_clean tidy.ledgered tidy.settledLedger, .inr tidy.journaled, .inr tidy.ledgered, anchor, present, anchored⟩

theorem Rests.finish_proceeds {marks : String → Option Record} (rests : Rests host disk journal ledger marks)
    (attended : Attended allowed live) (same : restarted marks = restarted records)
    (memory : store.records.lookup = restarted records)
    (steady : Steady host allowed (fun _ => False) store { disk with anchor := some store.anchorFields } journal ledger
      marks) :
    machine.Proceeds allowed live (Secured host (· = restarted records))
      (fun state last => match state with
        | none => Faulty allowed ∧ Recovers host (· = restarted records) last
        | some store => store.records.lookup = restarted records ∧ Sound host allowed store last)
      (do if ← Code.writeAnchor store.anchorFields then pure (some store) else pure none) disk := by
  refine .ask (rests.secured same) (attended.serve nofun) fun choice reply after permitted served => ?_
  obtain ⟨rfl, rfl⟩ | ⟨rfl, rfl, landed, rfl⟩ := exec_writeAnchor served
  · exact .pure (steady.secured nofun same)
      ⟨memory, journal, ledger, marks, steady.weaken nofun, memory.trans same.symm⟩
  · exact .pure (rests.secured same) ⟨.of_fails permitted, journal, ledger, marks, rests, same⟩

theorem Rests.boot_proceeds (rests : Rests host disk journal ledger records) (tolerable : Tolerable allowed)
    (attended : Attended allowed live) (calm : live → ¬ Faulty allowed) (encodes : live → Encodes host) :
    machine.Proceeds allowed live (Secured host (· = restarted records))
      (fun state last => match state with
        | none => Faulty allowed ∧ Recovers host (· = restarted records) last
        | some store => store.records.lookup = restarted records ∧ Sound host allowed store last)
      (boot host) disk := by
  have secured : ∀ {disk}, Rests host disk journal ledger records → Secured host (· = restarted records) disk :=
    fun rests => rests.secured rfl
  have stops : ∀ {disk op landed}, Rests host disk journal ledger records → allowed op (.fails landed) disk →
      Faulty allowed ∧ Recovers host (· = restarted records) disk :=
    fun rests permitted => ⟨.of_fails permitted, _, _, _, rests, rfl⟩
  refine .ask (secured rests) (attended.serve nofun) fun choice reply middle permitted served => ?_
  obtain ⟨rfl, rfl⟩ | ⟨rfl, rfl, landed, rfl⟩ := exec_trim served
  rotate_left
  · exact ⟨secured rests, fun alive => absurd (Faulty.of_fails permitted) (calm alive), fun _ reply => reply.elim⟩
  have rests := rests.trim .journal
  refine .ask (secured rests) (attended.serve nofun) fun choice reply last permitted served => ?_
  obtain ⟨rfl, rfl⟩ | ⟨rfl, rfl, landed, rfl⟩ := exec_trim served
  rotate_left
  · exact ⟨secured rests, fun alive => absurd (Faulty.of_fails permitted) (calm alive), fun _ reply => reply.elim⟩
  have rests := rests.trim .ledger
  obtain ⟨untornJournal, untornLedger⟩ := trim_torn disk
  generalize (disk.trim .journal).trim .ledger = opening at rests untornJournal untornLedger
  have tidy : Tidy opening journal ledger :=
    ⟨⟨rests.journaled, untornJournal⟩, ⟨rests.ledgered, untornLedger⟩, rests.settledJournal, rests.settledLedger⟩
  refine .ask (secured rests) (attended.serve nofun) fun choice file here permitted served => ?_
  obtain ⟨rfl, givenLedger, failedLedger⟩ := exec_read served
  refine .ask (secured rests) (attended.serve nofun) fun choice' file' here permitted' served => ?_
  obtain ⟨rfl, givenJournal, failedJournal⟩ := exec_read served
  cases file with
  | none =>
    obtain ⟨landed, rfl⟩ := failedLedger rfl
    exact .pure (secured rests) (stops rests permitted)
  | some file =>
  obtain rfl := givenLedger file rfl
  cases file' with
  | none =>
    obtain ⟨landed, rfl⟩ := failedJournal rfl
    exact .pure (secured rests) (stops rests permitted')
  | some file' =>
  obtain rfl := givenJournal file' rfl
  refine .ask (secured rests) (attended.serve nofun) fun choice anchor here permitted served => ?_
  obtain ⟨rfl, rfl | ⟨landed, rfl⟩⟩ := exec_readAnchor served
  rotate_left
  · cases served
    cases passed : checks host (here.log .journal).file (here.log .ledger).file .corrupt with
    | error _ => exact .pure (secured rests) (stops rests permitted)
    | ok chains =>
      obtain ⟨_, _, corrupt, _⟩ := checks_ok passed
      cases corrupt
  have passed : checks host (here.log .journal).file (here.log .ledger).file here.readAnchor = .ok (journal, ledger) :=
    Kept.passes rests.kept rests.journaled rests.ledgered rests.anchored
  rw [passed]
  refine .ask (secured rests) (attended.serve nofun) fun choice isOpen here permitted served => ?_
  obtain ⟨rfl, failed⟩ := exec_open served
  cases isOpen with
  | false =>
    obtain ⟨landed, rfl⟩ := failed rfl
    exact .pure (secured rests) (stops rests permitted)
  | true =>
  obtain ⟨folded, folds, lookup⟩ := rests.kept.folds
  rw [folds]
  cases present : here.anchor with
  | none =>
    have anchored := rests.anchored
    rw [Disk.readAnchor, present] at anchored
    have first : journal.hashes = [] ∧ ledger.hashes = [] := by
      by_contra some
      simp [Anchor.check, some] at anchored
    have empty : journal.events = [] := by
      rw [← List.length_eq_zero_iff, ← rests.kept.headed.1.1, first.1, List.length_nil]
    rw [empty] at folds
    cases folds
    have rests' : Rests host { here with anchor := some (opened journal ledger {}).anchorFields } journal ledger
        records :=
      ⟨rests.journaled, rests.ledgered, rests.settledJournal, rests.settledLedger, rests.kept,
        anchored_current rests.kept.headed.1 rests.kept.headed.2⟩
    refine rests.finish_proceeds attended rfl ?_ (rests'.steady {}
      ⟨tidy.journaled, tidy.ledgered, tidy.settledJournal, tidy.settledLedger⟩ rfl)
    rw [← lookup]
    rfl
  | some anchor =>
    have steady : Steady host allowed (fun _ => False) (opened journal ledger folded) here journal ledger records :=
      rests.steady folded tidy present
    refine (steady.markUnknownOnRestart_proceeds tidy tolerable attended calm encodes folded.records.nodupKeys ?_ ?_
      ).bind fun marked last secured outcome => ?_
    · intro entry member
      rw [← lookup]
      exact AList.mem_lookup_iff.mpr member
    · intro instanceId
      split
      · exact congrFun lookup instanceId
      next outside =>
        have unknown : folded.records.lookup instanceId = none := AList.lookup_eq_none.mpr outside
        simp [opened, restarted, ← lookup, unknown]
    · obtain ⟨journal', marks, steady, tidy, same, memory⟩ := outcome
      obtain ⟨anchor, present, anchored⟩ := steady.anchor
      refine Rests.finish_proceeds ⟨tidy.journaled.1, tidy.ledgered.1, tidy.settledJournal, tidy.settledLedger,
        steady.kept, ?_⟩ attended same memory steady.anchors
      rw [Disk.readAnchor, present]
      exact anchored

/-! ## Runs -/

/-- A boot that meets no failure succeeds, and the store it gives has such records. -/
def Boots (host : Host) (disk : Disk) (expected : (String → Option Record) → Prop) : Prop :=
  machine.Proceeds Served True (fun _ => True)
    (fun state _ => ∃ store, state = some store ∧ expected store.records.lookup) (boot host) disk

theorem Recovers.boots {accept : (String → Option Record) → Prop} (recovers : Recovers host accept disk)
    (encodes : Encodes host) : Boots host disk accept := by
  obtain ⟨journal, ledger, records, rests, accepted⟩ := recovers
  have served : ¬ Faulty Served := fun ⟨_, _, _, permitted, refused⟩ => refused permitted
  refine (rests.boot_proceeds (fun faulty => absurd faulty served) (fun _ _ _ _ served => served) (fun _ => served)
    (fun _ => encodes)).weaken (fun _ _ => trivial) fun state last _ outcome => ?_
  cases state with
  | none => exact absurd outcome.1 served
  | some store => exact ⟨store, rfl, outcome.1 ▸ accepted⟩

/-- What holds of the disk and of a serving store between two calls. -/
def Keeps (host : Host) (allowed : Op → Choice → Disk → Prop) : Option Store → Disk → Prop
  | none, disk => Recovers host (fun _ => True) disk
  | some store, disk => Sound host allowed store disk

theorem Recovers.any {accept : (String → Option Record) → Prop} (recovers : Recovers host accept disk) :
    Recovers host (fun _ => True) disk := by
  obtain ⟨journal, ledger, records, rests, _⟩ := recovers
  exact ⟨journal, ledger, records, rests, trivial⟩

theorem Keeps.lasts {made : Call → Prop} {final : Server.Config Disk Store Call Answer}
    (tolerable : Tolerable allowed) (reached : (server host).Reaches allowed made { world := {} } final) :
    Keeps host allowed final.state final.world := by
  refine Server.Reaches.invariant (fun state world _ => Keeps host allowed state world) ?_ ?_ ?_ ?_ reached
  · intro world answered recovers
    obtain ⟨journal, ledger, records, rests, _⟩ := recovers
    have idle : Attended allowed False := False.elim
    refine (rests.boot_proceeds tolerable idle False.elim nofun).upholds.weaken
      (fun _ secured left survives => (secured left survives).any) fun state last _ outcome => ?_
    cases state with
    | none => exact outcome.2.any
    | some store => exact outcome.2
  · intro call store world answered _ sound
    refine (Sound.handle_upholds sound tolerable).weaken
      (fun _ secured left survives => (secured left survives).any) fun result last _ outcome => ?_
    obtain ⟨after, same, sound, _⟩ := outcome
    rw [same]
    exact sound
  · intro state world left answered keeps survives
    cases state with
    | none =>
      obtain ⟨journal, ledger, records, rests, _⟩ := keeps
      have secured : Secured host (fun _ => True) world := rests.secured trivial
      exact secured left survives
    | some store => exact (Sound.secured keeps left survives).any
  · refine ⟨⟨[], [], Ledger.zero⟩, ⟨[], [], Ledger.zero⟩, fun _ => none, ⟨rfl, rfl, rfl, rfl, ?_, rfl⟩, trivial⟩
    exact ⟨rfl, rfl, nofun, nofun, rfl, {}, rfl, rfl⟩

/-- What a stop leaves behind, wherever it comes, can be booted, to the records that the
answers have told of. -/
structure Recoverable (host : Host) (allowed : Op → Choice → Disk → Prop)
    (config : Server.Config Disk Store Call Answer) : Prop where
  boots : config.state = none → Boots host config.world fun _ => True
  /-- Between two calls. -/
  stopped : ∀ store left, config.state = some store → config.world.Survives left →
    Boots host left (Agrees store.records.lookup)
  /-- In the middle of a call. -/
  called : ∀ store call middle left, config.state = some store →
    machine.Runs allowed (handle host call store) config.world none middle → middle.Survives left →
      Boots host left (Within call store.records.lookup)
  answered : ∀ store call answer after last, config.state = some store →
    machine.Runs allowed (handle host call store) config.world (some (answer, after)) last →
      ∃ next, after = some next ∧ Told call store.records.lookup next.records.lookup answer
  /-- In a boot, or after one that failed. -/
  booting : config.state = none → ∀ expected result middle left, Boots host config.world (· = expected) →
    machine.Runs allowed (boot host) config.world result middle → result ∈ [none, some none] →
      middle.Survives left → Boots host left (· = expected)
  booted : config.state = none → ∀ expected store last, Boots host config.world (· = expected) →
    machine.Runs allowed (boot host) config.world (some (some store)) last → store.records.lookup = expected

theorem Keeps.recoverable {final : Server.Config Disk Store Call Answer} (encodes : Encodes host)
    (tolerable : Tolerable allowed) (keeps : Keeps host allowed final.state final.world) :
    Recoverable host allowed final := by
  have idle : Attended allowed False := False.elim
  obtain ⟨world, state, answered⟩ := final
  have expects : ∀ {records expected : String → Option Record} {disk : Disk},
      Recovers host (· = restarted records) disk → Boots host disk (· = expected) → restarted records = expected := by
    intro records expected disk recovers boots
    obtain ⟨value, last, ran, store, rfl, same⟩ := boots.ends trivial
    obtain ⟨_, up, other⟩ := ((recovers.boots encodes).upholds.runs ran).2 _ rfl
    cases up
    exact other.symm.trans same
  constructor
  · rintro rfl
    exact Recovers.boots keeps encodes
  · rintro store left rfl survives
    exact (Sound.secured keeps left survives).boots encodes
  · rintro store call middle left rfl ran survives
    exact (((Sound.handle_upholds keeps tolerable).runs ran).1 left survives).boots encodes
  · rintro store call answer after last rfl ran
    obtain ⟨next, same, _, told⟩ := ((Sound.handle_upholds keeps tolerable).runs ran).2 _ rfl
    exact ⟨next, same, told⟩
  · rintro rfl expected result middle left boots ran outcome survives
    obtain ⟨journal, ledger, records, rests, _⟩ := keeps
    have same := expects ⟨journal, ledger, records, rests, rfl⟩ boots
    obtain ⟨secured, ended⟩ := (rests.boot_proceeds tolerable idle False.elim nofun).upholds.runs ran
    exact same ▸ (secured left survives).boots encodes
  · rintro rfl expected store last boots ran
    obtain ⟨journal, ledger, records, rests, _⟩ := keeps
    have same := expects ⟨journal, ledger, records, rests, rfl⟩ boots
    exact ((((rests.boot_proceeds tolerable idle False.elim nofun).upholds.runs ran).2 _ rfl).1).trans same

theorem recoverable_spared {final : Server.Config Disk Store Call Answer} (encodes : Encodes host)
    (reached : (server host).Reaches Spared (fun _ => True) { world := {} } final) :
    Recoverable host Spared final := by
  have tolerable : Tolerable Spared := fun _ _ _ _ spared => spared
  exact Keeps.recoverable encodes tolerable (Keeps.lasts tolerable reached)

/-! A claim whose sync fails, and the same claim again. -/

namespace Probe

theorem encodes : Encodes Fence.probeHost := by
  intro instanceId reason time seq prev
  simp [Ledger.chained, Ledger.hash, Fence.probeHost, Fence.probeLibrary, Json.string?, Json.get?, Json.entries,
    Event.fields, List.lookup_cons, List.lookup_nil]

def fails : List Choice := [.served, .clock 0, .served, .fails .nothing]

def reads : List Choice := List.replicate 5 .served

/-- A stop that loses nothing. -/
def stopped (disk : Disk) : Disk := { disk with journal := disk.journal.sync, ledger := disk.ledger.sync }

/-- The boot after both calls. -/
def rebooted : Option (Option (Option Store) × Disk) :=
  match machine.play fails (handle Fence.probeHost call empty) anchored with
  | some (some (_, some store), middle) =>
    match machine.play executes (handle Fence.probeHost call store) middle with
    | some (some (_, some _), last) =>
      (machine.play reads (boot Fence.probeHost) (stopped last)).map fun result => (result.1, last)
    | _ => none
  | _ => none

theorem claim_reused : ∃ first store middle second next last final,
    machine.play fails (handle Fence.probeHost call empty) anchored = some (some (first, some store), middle) ∧
    machine.play executes (handle Fence.probeHost call store) middle = some (some (second, some next), last) ∧
    machine.play reads (boot Fence.probeHost) (stopped last) = some (some none, final) ∧
    last.journal.synced.torn = false ∧ last.ledger.synced.torn = false ∧ last.ledger.synced.lines = [] := by
  have refused : rebooted.map (fun result => (result.1.map Option.isNone, result.2.journal.synced.torn,
      result.2.ledger.synced.torn, result.2.ledger.synced.lines.isEmpty)) =
      some (some true, false, false, true) := by
    decide +kernel
  obtain ⟨⟨result, last⟩, reboots, same⟩ := Option.map_eq_some_iff.mp refused
  simp only [Prod.mk.injEq, Option.map_eq_some_iff, List.isEmpty_iff] at same
  obtain ⟨⟨state, rfl, absent⟩, synced⟩ := same
  unfold rebooted at reboots
  split at reboots
  next first store middle failed =>
    split at reboots
    next second next last' retried =>
      obtain ⟨⟨result, final⟩, booted, same⟩ := Option.map_eq_some_iff.mp reboots
      simp only [Prod.mk.injEq] at same
      obtain ⟨rfl, rfl⟩ := same
      rw [Option.isNone_iff_eq_none.mp absent] at booted
      exact ⟨first, store, middle, second, next, last', final, failed, retried, booted, synced⟩
    next => cases reboots
  next => cases reboots

end Probe

open Probe in
theorem sync_failed_unbootable : ∃ final, (server Fence.probeHost).Reachable { world := {} } final ∧
    ¬ Recoverable Fence.probeHost (fun _ _ _ => True) final := by
  obtain ⟨first, store, middle, second, next, last, final, failed, retried, booted, journal, torn, none⟩ :=
    claim_reused
  have permitted : ∀ choices : List Choice, ∀ choice ∈ choices, ∀ (op : Op) (world : Disk), True :=
    fun _ _ _ _ _ => trivial
  have served : (server Fence.probeHost).Reachable { world := {} } ⟨anchored, some empty, []⟩ :=
    .step .start (.started (Machine.runs_of_play (permitted _) boot_plays))
  have refused : (server Fence.probeHost).Reachable { world := {} } ⟨middle, some store, [(call, first)]⟩ :=
    .step served (.handled trivial (Machine.runs_of_play (permitted _) failed))
  have reached : (server Fence.probeHost).Reachable { world := {} } ⟨last, some next, [(call, second), (call, first)]⟩ :=
    .step refused (.handled trivial (Machine.runs_of_play (permitted _) retried))
  refine ⟨_, reached, fun recoverable => ?_⟩
  have survives : last.Survives (stopped last) := by
    have stands : Holds Fence.probeHost Watch.idle (some next) last :=
      Holds.lasts (fun _ _ _ _ => trivial) reached Halted.empty
    obtain ⟨_, events, serving⟩ := stands
    refine ⟨⟨⟨serving.tracks.begins, ?_⟩, .refl _, rfl⟩, ⟨⟨?_, ?_⟩, .refl _, rfl⟩, rfl, rfl, rfl, rfl, rfl⟩
    · exact fun _ cut => absurd cut (by simp [journal])
    · rw [none]
      exact List.nil_prefix
    · exact fun _ cut => absurd cut (by simp [torn])
  have boots := recoverable.stopped next (stopped last) rfl survives
  have permits : machine.Permits Served reads (boot Fence.probeHost) (stopped last) :=
    And.intro trivial <| And.intro trivial <| And.intro trivial <| And.intro trivial <| And.intro trivial trivial
  have ran := Machine.runs_of_permits permits booted
  obtain ⟨_, up, _⟩ := (boots.upholds.runs ran).2 _ rfl
  cases up

open Probe in
theorem recoverable_spared_booted : Recoverable Fence.probeHost Spared ⟨anchored, some empty, []⟩ := by
  refine recoverable_spared encodes (.step .start (.started (Machine.runs_of_permits ?_ boot_plays)))
  exact And.intro trivial <| And.intro trivial <| And.intro trivial <| And.intro trivial <| And.intro trivial <|
    And.intro trivial <| And.intro trivial trivial

end AshA2A.Actuator.Store
