import AshA2A.Concurrency.Safety
import AshA2A.Proofs.Lawful
import AshA2A.Proofs.Memory
import AshA2A.Proofs.Refusal
import AshA2A.Reconciliation

/-! Reconciliation and outcomes that have been observed: what the classifier reports for
them, and what the store holds of them afterwards. -/

namespace AshA2A.Reconciliation

open Concurrency Receipt ReceiptStore ReceiptOutbox

/-- The status carries an outcome. -/
def Observed (receipt : Receipt) : Prop := receipt.status ≠ .pending ∧ receipt.status ≠ .unknown

/-- A receipt with an outcome whose status the classifier does not know. -/
def Missed (receipt : Receipt) : Prop :=
  (receipt.status = .postconditionContradicted ∨ receipt.status = .compensated) ∧
    receipt.metadata.outcome ≠ some .reconciled ∧ receipt.metadata.outcome ≠ some .compensated

theorem observed_rank {receipt : Receipt} (observed : Observed receipt) : 1 ≤ rank receipt := by
  obtain ⟨settled, known⟩ := observed
  unfold rank
  split <;> first | omega | simp_all

/-- For one receipt: an open outcome, or one that the status lists miss. -/
theorem state_open_iff (unreadable : Nat) {receipt : Receipt} :
    state unreadable (some receipt) = .preparedUnknownOutcome ↔
      Missed receipt ∨ rank receipt = 0 := by
  simp only [state, rank, Missed, executedStatuses]
  rcases receipt.metadata.outcome with _ | _ | _ | _ | _ | _ <;> cases receipt.status <;> simp

theorem mostFinal_eq_none_iff {evidence : List (Source × Receipt)} :
    mostFinal evidence = none ↔ evidence = [] := by cases evidence <;> simp [mostFinal]

theorem mostFinal_mem_max {evidence : List (Source × Receipt)} {best : Source × Receipt}
    (found : mostFinal evidence = some best) :
    best ∈ evidence ∧ ∀ each ∈ evidence, rank each.2 ≤ rank best.2 := by
  cases evidence with
  | nil => cases found
  | cons first rest =>
    obtain rfl := Option.some.inj found
    clear found
    -- the fold keeps the best so far
    induction rest generalizing first with
    | nil => simp
    | cons second rest ih =>
      simp only [List.foldl_cons]
      split
      next higher =>
        obtain ⟨member, most⟩ := ih second
        refine ⟨List.mem_cons_of_mem _ member, ?_⟩
        intro each listed
        rcases List.mem_cons.mp listed with rfl | listed
        · exact higher.le.trans (most second List.mem_cons_self)
        · exact most each listed
      next lower =>
        obtain ⟨member, most⟩ := ih first
        refine ⟨?_, ?_⟩
        · rcases List.mem_cons.mp member with same | listed
          · rw [same]; exact List.mem_cons_self
          · exact List.mem_cons_of_mem _ (List.mem_cons_of_mem _ listed)
        · intro each listed
          rcases List.mem_cons.mp listed with rfl | listed
          · exact most _ List.mem_cons_self
          · rcases List.mem_cons.mp listed with rfl | listed
            · exact (not_lt.mp lower).trans (most first List.mem_cons_self)
            · exact most each (List.mem_cons_of_mem _ listed)

/-- What can be read about a command: its primary receipt and its entries in the journal. -/
structure Evidence where
  primary : Option Receipt
  readable : List Receipt
  count : Nat

namespace Evidence

def classification (evidence : Evidence) (commandId : Identity .command) : Classification :=
  buildClassification commandId evidence.primary evidence.readable evidence.count

def receipts (evidence : Evidence) (commandId : Identity .command) : List (Source × Receipt) :=
  candidates commandId evidence.primary evidence.readable

/-- An open classification means that nothing of the command has been observed. -/
def Sound (evidence : Evidence) (commandId : Identity .command) : Prop :=
  (evidence.classification commandId).state = .preparedUnknownOutcome →
    ∀ found ∈ evidence.receipts commandId, ¬ Observed found.2

/-- The most final receipt is one that the classifier does not know. -/
def Misses (evidence : Evidence) (commandId : Identity .command) : Prop :=
  ∃ best, mostFinal (evidence.receipts commandId) = some best ∧ Missed best.2

theorem state_eq {evidence : Evidence} {commandId : Identity .command} {best : Source × Receipt}
    (found : mostFinal (evidence.receipts commandId) = some best) :
    (evidence.classification commandId).state =
      state (evidence.count - evidence.readable.length) (some best.2) := by
  unfold receipts at found
  simp [classification, buildClassification, found]

theorem sound_iff {evidence : Evidence} {commandId : Identity .command} :
    evidence.Sound commandId ↔ ¬ evidence.Misses commandId := by
  constructor
  · rintro sound ⟨best, found, missed⟩
    refine sound ?_ best (mostFinal_mem_max found).1 ⟨?_, ?_⟩
    · rw [state_eq found]
      exact (state_open_iff _).mpr (.inl missed)
    · rcases missed.1 with same | same <;> simp [same]
    · rcases missed.1 with same | same <;> simp [same]
  · intro listed reported found member observed
    cases most : mostFinal (evidence.receipts commandId) with
    | none => simp [mostFinal_eq_none_iff.mp most] at member
    | some best =>
      rw [state_eq most] at reported
      rcases (state_open_iff _).mp reported with missed | zero
      · exact listed ⟨best, most, missed⟩
      · have := (mostFinal_mem_max most).2 found member
        have := observed_rank observed
        omega

end Evidence

/-! ## Reconciliation with nobody else around -/

/-- Everything is served; the probe answers as it likes. -/
def served (probe : Receipt → Option (ResolvedAs × Term)) : Op → Choice
  | .probe receipt => .probe (probe receipt)
  | _ => .served

variable {probe : Receipt → Option (ResolvedAs × Term)} {host : Host} {world last : World}
  {commandId : Identity .command} {leaseMs : Nat}

abbrev Ends {α : Type} (probe : Receipt → Option (ResolvedAs × Term)) (program : Bus α) (world : World)
    (post : α → World → Prop) : Prop :=
  machine.Ends 0 (served probe) program world post

theorem ends_file (call : FileCall) : Ends probe (Bus.file call) world fun reply last =>
    reply = (world.directory.serve call).1 ∧
      last = { world with directory := (world.directory.serve call).2 } :=
  Machine.Ends.ask rfl ⟨rfl, rfl⟩

theorem ends_stamp : Ends probe Bus.stamp world fun stamp last =>
    stamp = world.stamp ∧ last = { world with serial := world.serial + 1 } :=
  Machine.Ends.ask rfl ⟨rfl, rfl⟩

theorem ends_memory {call : MemoryCall} (accepted : world.accepts 0 call = true) :
    Ends probe (Bus.memory call) world fun reply last =>
      reply = some (world.serveMemory 0 call).1 ∧ last = (world.serveMemory 0 call).2 :=
  Machine.Ends.ask (by simp [machine, exec, served, accepted]) ⟨rfl, rfl⟩

def entryNamesOf (directory : Directory) : List Name :=
  (directory.names.filter Name.isEntry).insertionSort fun first second => first.text ≤ second.text

def decodeName (host : Host) (directory : Directory) (name : Name) : Option Receipt :=
  (directory.read name).bind fun content => (unsealEntry host content).toOption

def evidenceOf (host : Host) (world : World) (commandId : Identity .command) : Evidence where
  primary := world.memory.fetch commandId
  readable := (entryNamesOf world.directory).filterMap (decodeName host world.directory)
  count := (entryNamesOf world.directory).length

theorem ends_entryNames : Ends probe entryNames world fun names last =>
    names = entryNamesOf world.directory ∧ last = world := by
  apply (ends_file .list).bind
  rintro _ _ ⟨rfl, rfl⟩
  exact .pure ⟨rfl, rfl⟩

theorem ends_decodeEntry (name : Name) : Ends probe (decodeEntry host name) world fun decoded last =>
    decoded.toOption = decodeName host world.directory name ∧ last = world := by
  apply (ends_file (.read name)).bind
  rintro reply _ ⟨answer, rfl⟩
  unfold decodeName
  cases read : world.directory.read name with
  | none =>
    simp only [Directory.serve, read] at answer
    subst answer
    exact .pure ⟨rfl, rfl⟩
  | some content =>
    simp only [Directory.serve, read] at answer
    subst answer
    exact .pure ⟨rfl, rfl⟩

theorem ends_decodeAll (names : List Name) : Ends probe (decodeAll host names) world fun readable last =>
    readable = names.filterMap (decodeName host world.directory) ∧ last = world := by
  induction names with
  | nil => exact .pure ⟨rfl, rfl⟩
  | cons name names ih =>
    apply (ends_decodeEntry name).bind
    rintro decoded _ ⟨found, rfl⟩
    apply ih.bind
    rintro _ _ ⟨rfl, rfl⟩
    cases decoded with
    | error error => exact .pure ⟨by simp [← found, Except.toOption], rfl⟩
    | ok receipt => exact .pure ⟨by simp [← found, Except.toOption], rfl⟩

theorem ends_readJournal (primary : Option Receipt) :
    Ends probe (readJournal host commandId primary) world fun classification last =>
      classification = ({ evidenceOf host world commandId with primary := primary } :
        Evidence).classification commandId ∧ last = world := by
  have entries : Ends probe (entries host) world fun readable last =>
      readable = (evidenceOf host world commandId).readable ∧ last = world := by
    apply ends_entryNames.bind
    rintro _ _ ⟨rfl, rfl⟩
    exact ends_decodeAll _
  have count : Ends probe count world fun count last =>
      count = (evidenceOf host world commandId).count ∧ last = world := by
    apply ends_entryNames.bind
    rintro _ _ ⟨rfl, rfl⟩
    exact .pure ⟨rfl, rfl⟩
  apply entries.bind
  rintro _ _ ⟨rfl, rfl⟩
  apply count.bind
  rintro _ _ ⟨rfl, rfl⟩
  exact .pure ⟨rfl, rfl⟩

theorem ends_fetch (idle : world.checking = none) :
    Ends probe (Bus.memory (.fetch commandId)) world fun reply last =>
      reply = some (world.memory.fetch commandId) ∧ last = { world with serial := world.serial + 1 } := by
  apply (ends_memory (by simp [World.accepts, MemoryCall.resumes, idle])).weaken
  rintro _ _ ⟨rfl, rfl⟩
  refine ⟨rfl, ?_⟩
  simp [World.serveMemory, Memory.serve, MemoryCall.checks, ← idle]

/-- The classification is the one of the evidence, and reading it changes nothing. -/
theorem ends_classify (idle : world.checking = none) :
    Ends probe (classify host (memoryStore host) commandId) world fun classification last =>
      classification = some ((evidenceOf host world commandId).classification commandId) ∧
        last = { world with serial := world.serial + 1 } := by
  apply (ends_fetch idle).bind
  rintro _ _ ⟨rfl, rfl⟩
  apply (ends_readJournal _).bind
  rintro _ _ ⟨rfl, rfl⟩
  exact .pure ⟨rfl, rfl⟩

/-- The server is free again, and an outcome that was observed for the command is still
what the store holds. -/
structure Settled (commandId : Identity .command) (world last : World) : Prop where
  idle : last.checking = none
  kept : ∀ receipt, world.memory.fetch commandId = some receipt → Observed receipt →
    last.memory.fetch commandId = some receipt

abbrev Settles {α : Type} (probe : Receipt → Option (ResolvedAs × Term))
    (commandId : Identity .command) (program : Bus α) (world : World) : Prop :=
  Ends probe program world fun _ last => Settled commandId world last

theorem Settled.trans {middle : World} (first : Settled commandId world middle)
    (second : Settled commandId middle last) : Settled commandId world last :=
  ⟨second.idle, fun receipt stored observed => second.kept receipt (first.kept receipt stored observed) observed⟩

theorem Settled.refl (idle : world.checking = none) : Settled commandId world world :=
  ⟨idle, fun _ stored _ => stored⟩

/-- Nothing but the memory and the server decides. -/
theorem settled_of_same (idle : last.checking = none) (same : last.memory = world.memory) :
    Settled commandId world last := ⟨idle, fun _ stored _ => by rw [same]; exact stored⟩

theorem settles_bind {α β : Type} {program : Bus α} {next : α → Bus β}
    (first : Settles probe commandId program world)
    (rest : ∀ value middle, Settled commandId world middle → Settles probe commandId (next value) middle) :
    Settles probe commandId (program >>= next) world := by
  apply first.bind
  intro value middle settled
  exact (rest value middle settled).weaken fun _ _ later => settled.trans later

theorem settles_file (idle : world.checking = none) (call : FileCall) :
    Settles probe commandId (Bus.file call) world := by
  apply (ends_file call).weaken
  rintro _ _ ⟨_, rfl⟩
  exact settled_of_same idle rfl

theorem settles_stamp (idle : world.checking = none) : Settles probe commandId Bus.stamp world := by
  apply ends_stamp.weaken
  rintro _ _ ⟨_, rfl⟩
  exact settled_of_same idle rfl

theorem settles_pure {α : Type} {value : α} (idle : world.checking = none) :
    Settles probe commandId (pure value) world := .pure (.refl idle)

theorem settles_removeAnd (idle : world.checking = none) {reply : DrainReply} {receipt : Receipt} :
    Settles probe commandId (removeAnd host reply receipt) world := by
  apply settles_bind (settles_file idle _)
  intro _ _ settled
  apply settles_bind (settles_file settled.idle _)
  rintro ((_ | _) | _) _ settled <;> exact settles_pure settled.idle

/-- The receipt does not stand in for an observed outcome of the command. -/
def Open (commandId : Identity .command) (world : World) (receipt : Receipt) : Prop :=
  receipt.commandId = commandId → ∀ stored, world.memory.fetch commandId = some stored → ¬ Observed stored

theorem ends_commit (idle : world.checking = none) {receipt : Receipt}
    (opened : Open commandId world receipt) :
    Ends probe (Bus.memory (.commit receipt)) world fun reply last =>
      Settled commandId world last ∧ (reply ≠ some .ok → last.memory = world.memory) := by
  apply (ends_memory (by simp [World.accepts, MemoryCall.resumes, idle])).weaken
  rintro _ _ ⟨rfl, rfl⟩
  rcases Memory.commit_cases world.memory receipt with
    ⟨ok, entry, found, _, _, stored⟩ | ⟨refused, same⟩
  · refine ⟨⟨rfl, ?_⟩, fun failed => absurd (congrArg some ok) failed⟩
    intro kept held observed
    change (world.memory.commit receipt).2.fetch commandId = some kept
    rw [stored, Memory.putClaim_fetch_of_ne, held]
    rintro rfl
    exact opened rfl kept held observed
  · exact ⟨settled_of_same rfl same, fun _ => same⟩

theorem ends_anchoredCommand (claimant : Identity .command) :
    Ends probe (anchoredCommand host claimant) world fun _ last => last = world := by
  have legacy : ∀ names, Ends probe (legacyAnchored host claimant names) world fun _ last => last = world := by
    intro names
    induction names with
    | nil => exact .pure rfl
    | cons name names ih =>
      apply (ends_decodeEntry name).bind
      rintro (error | receipt) _ ⟨_, rfl⟩
      · exact .pure rfl
      · dsimp only
        split
        · exact .pure rfl
        · exact ih
  apply (ends_file .list).bind
  rintro (error | names) _ ⟨_, rfl⟩
  · exact .pure rfl
  · dsimp only
    split
    · exact .pure rfl
    · exact legacy _

/-- A claim leaves every stored receipt where it is. -/
theorem ends_claimCall (idle : world.checking = none) (command : Command) (opts : ClaimOpts) :
    Ends probe (Memory.claimCall host command opts) world fun _ last =>
      last.checking = none ∧ ∀ other, last.memory.fetch other = world.memory.fetch other := by
  apply (ends_memory (by simp [World.accepts, MemoryCall.resumes, idle])).bind
  rintro _ _ ⟨rfl, rfl⟩
  rcases Memory.claim_cases world.memory command opts ⟨freshId world.serial⟩ world.clock with ⟨reply, after, answered, kept⟩ | ⟨checking, unstored⟩
  · simp only [World.serveMemory, Memory.serve, answered, Handled.progress]
    exact .pure ⟨rfl, kept⟩
  · simp only [World.serveMemory, Memory.serve, checking, Handled.progress]
    apply (ends_anchoredCommand _).bind
    rintro anchored _ rfl
    apply (ends_memory (by simp [World.accepts, MemoryCall.resumes, MemoryCall.checks])).weaken
    rintro _ _ ⟨rfl, rfl⟩
    refine ⟨rfl, fun other => ?_⟩
    simp only [World.serveMemory, Memory.serve, Memory.claimChecked]
    split
    · rfl
    · exact Memory.freshClaim_fetch _ _ _ _ _ unstored other

theorem Open.of_same {receipt marked : Receipt} (opened : Open commandId world receipt)
    (same : last.memory.fetch commandId = world.memory.fetch commandId)
    (renamed : marked.commandId = receipt.commandId) : Open commandId last marked := by
  intro own stored held
  exact opened (renamed.symm.trans own) stored (same.symm.trans held)

theorem settles_reClaimAndCommit (idle : world.checking = none) {receipt : Receipt}
    (opened : Open commandId world receipt) :
    Settles probe commandId (reClaimAndCommit host (memoryStore host) leaseMs receipt) world := by
  apply ends_stamp.bind
  intro stamp started ⟨_, moved⟩
  have waiting : started.checking = none := by rw [moved]; exact idle
  apply (ends_claimCall waiting _ _).bind
  intro reply middle ⟨free, kept⟩
  rw [show started.memory = world.memory by rw [moved]] at kept
  have settled : Settled commandId world middle := ⟨free, fun _ stored _ => (kept commandId).trans stored⟩
  refine (?_ : Settles probe commandId _ middle).weaken fun _ _ later => settled.trans later
  rcases reply with _ | executionId | _ | _ | _
  case some.execute =>
    apply (ends_commit free (opened.of_same (kept commandId) rfl)).bind
    intro reply last ⟨settled, _⟩
    refine (?_ : Settles probe commandId _ last).weaken fun _ _ later => settled.trans later
    rcases reply with _ | _ | _ | _
    case some.ok => exact settles_removeAnd settled.idle
    all_goals exact settles_pure settled.idle
  case some.replay => exact settles_removeAnd free
  all_goals exact settles_pure free

theorem settles_commitOrReclaim (idle : world.checking = none) {entry : Receipt}
    (opened : Open commandId world entry) :
    Settles probe commandId (commitOrReclaim host (memoryStore host) leaseMs entry) world := by
  have marked : Ends probe (ReceiptOutbox.markReconciled host entry) world fun marked last =>
      last.checking = none ∧ last.memory = world.memory ∧ marked.commandId = entry.commandId := by
    unfold ReceiptOutbox.markReconciled
    split
    · exact .pure ⟨idle, rfl, rfl⟩
    · apply ends_stamp.bind
      rintro _ _ ⟨rfl, rfl⟩
      exact .pure ⟨idle, rfl, by simp [Receipt.reconcile]⟩
  apply marked.bind
  intro receipt middle ⟨free, same, renamed⟩
  refine (?_ : Settles probe commandId _ middle).weaken fun _ _ later => (settled_of_same free same).trans later
  have opened : Open commandId middle receipt := opened.of_same (by rw [same]) renamed
  apply (ends_commit free opened).bind
  intro reply last ⟨settled, unchanged⟩
  refine (?_ : Settles probe commandId _ last).weaken fun _ _ later => settled.trans later
  rcases reply with _ | _ | _ | _
  case some.ok => exact settles_removeAnd settled.idle
  case some.unclaimedCommand =>
    exact settles_reClaimAndCommit settled.idle (opened.of_same (by rw [unchanged (by simp)]) rfl)
  all_goals exact settles_pure settled.idle

/-- An entry is committed only where the store holds nothing, or an anchor. -/
theorem settles_reconcileEntry (idle : world.checking = none) {receipt : Receipt} :
    Settles probe commandId (reconcileEntry host (memoryStore host) leaseMs receipt) world := by
  apply (ends_fetch idle).bind
  rintro _ fetched ⟨rfl, moved⟩
  have same : fetched.memory = world.memory := by rw [moved]
  have free : fetched.checking = none := by rw [moved]; exact idle
  refine (?_ : Settles probe commandId _ fetched).weaken fun _ _ later =>
    (settled_of_same free same).trans later
  rw [← same]
  cases found : fetched.memory.fetch receipt.commandId with
  | none =>
    refine settles_commitOrReclaim free ?_
    rintro rfl stored held
    rw [found] at held
    cases held
  | some stored =>
    dsimp only
    split
    next supersedes =>
      refine settles_commitOrReclaim free ?_
      rintro rfl other held observed
      obtain rfl : stored = other := Option.some.inj (found.symm.trans held)
      exact observed.1 (by simp [ReceiptOutbox.supersedes] at supersedes; exact supersedes.2.1)
    next => exact settles_removeAnd free

theorem settles_drain (idle : world.checking = none) :
    Settles probe commandId (ReceiptOutbox.reconcile host (memoryStore host) leaseMs) world := by
  have each : ∀ names drained (world : World), world.checking = none →
      Settles probe commandId (reconcileNames host (memoryStore host) leaseMs names drained) world := by
    intro names
    induction names with
    | nil => exact fun _ _ idle => settles_pure idle
    | cons name names ih =>
      intro drained world idle
      apply (ends_decodeEntry name).bind
      rintro (error | receipt) _ ⟨_, rfl⟩
      · exact ih _ _ idle
      · exact settles_bind (settles_reconcileEntry idle) fun reply _ settled => ih _ _ settled.idle
  apply ends_entryNames.bind
  rintro names _ ⟨_, rfl⟩
  exact each _ _ _ idle

theorem ends_settle (idle : world.checking = none) :
    Ends probe (settle host (memoryStore host) leaseMs commandId) world fun settled last =>
      Settled commandId world last ∧ ∃ before drain,
        settled = some (before, drain, (evidenceOf host last commandId).classification commandId) := by
  apply (ends_classify idle).bind
  rintro _ read ⟨rfl, moved⟩
  have same : read.memory = world.memory := by rw [moved]
  have free : read.checking = none := by rw [moved]; exact idle
  apply (settles_drain free).bind
  intro drain drained settled
  apply (ends_classify settled.idle).bind
  rintro _ last ⟨rfl, moved⟩
  refine .pure ⟨(settled_of_same free same).trans (settled.trans (settled_of_same ?_ ?_)),
    (evidenceOf host world commandId).classification commandId, drain, ?_⟩
  · rw [moved]; exact settled.idle
  · rw [moved]
  · rw [moved]; rfl

theorem ends_probe (receipt : Receipt) : Ends probe (Program.ask (Op.probe receipt)) world
    fun _ last => last = world :=
  Machine.Ends.ask rfl rfl

theorem ends_safeCommit (idle : world.checking = none) (receipt : Receipt) :
    Ends probe (safeCommit (memoryStore host) receipt) world fun _ last => last.checking = none := by
  apply (ends_memory (by simp [World.accepts, MemoryCall.resumes, idle])).bind
  rintro reply last ⟨_, rfl⟩
  rcases reply with _ | _ | _ | _ <;> exact .pure rfl

/-- Only an open classification is ever resolved. -/
theorem ends_resolve (idle : world.checking = none) (probed : Bool) (classification : Classification) :
    Ends probe (resolve host (memoryStore host) probed classification) world fun _ last =>
      classification.state = .preparedUnknownOutcome ∨ last = world := by
  unfold resolve
  split
  next opened =>
    refine (?_ : Ends probe _ world fun _ _ => True).weaken fun _ _ _ => .inl opened
    split
    next receipt _ _ =>
      apply (ends_probe receipt).bind
      rintro (_ | answer) _ rfl
      · exact .pure trivial
      apply ends_stamp.bind
      intro stamp stamped ⟨_, moved⟩
      have waiting : stamped.checking = none := by rw [moved]; exact idle
      apply (ends_safeCommit waiting _).bind
      intro committed last free
      cases committed with
      | false => exact .pure trivial
      | true =>
        apply (ends_classify free).bind
        rintro _ _ ⟨rfl, rfl⟩
        exact .pure trivial
    next => exact .pure trivial
  next => exact .pure (.inr rfl)

/-- What reconciliation may not touch of a receipt. -/
def SameOutcome (kept receipt : Receipt) : Prop :=
  kept.status = receipt.status ∧ kept.reply = receipt.reply ∧
    kept.metadata.postcondition = receipt.metadata.postcondition

/-- Whatever outcome the store holds for the command, before reconciliation or once it has
drained the journal, is what it holds afterwards. -/
def Preserves (host : Host) (leaseMs : Nat) (probed : Bool)
    (probe : Receipt → Option (ResolvedAs × Term)) (commandId : Identity .command)
    (world drained : World) : Prop :=
  Ends probe (reconcile host (memoryStore host) leaseMs probed commandId) world fun _ final =>
    ∀ receipt, world.memory.fetch commandId = some receipt ∨ drained.memory.fetch commandId = some receipt →
      Observed receipt → ∃ kept, final.memory.fetch commandId = some kept ∧ SameOutcome kept receipt

/-- Reconciliation over the in-memory store, with every request served: the classifier
reports an open outcome only where none was observed, before and after the drain, and no
observed outcome is rewritten, exactly if neither time the most final receipt has a status
that the classifier does not know. -/
theorem observed_kept_iff (host : Host) (world : World) (idle : world.checking = none)
    (commandId : Identity .command) (leaseMs : Nat) (probed : Bool)
    (probe : Receipt → Option (ResolvedAs × Term)) :
    Ends probe (settle host (memoryStore host) leaseMs commandId) world fun _ drained =>
      ((evidenceOf host world commandId).Sound commandId ∧
        (evidenceOf host drained commandId).Sound commandId ∧
        Preserves host leaseMs probed probe commandId world drained) ↔
      (¬ (evidenceOf host world commandId).Misses commandId ∧
        ¬ (evidenceOf host drained commandId).Misses commandId) := by
  have settles : Ends probe (settle host (memoryStore host) leaseMs commandId) world _ := ends_settle idle
  obtain ⟨found, drained, ran, settled, before, drain, rfl⟩ := settles
  refine ⟨_, _, ran, ?_⟩
  dsimp only
  rw [Evidence.sound_iff, Evidence.sound_iff]
  refine ⟨fun holds => ⟨holds.1, holds.2.1⟩, fun ⟨first, second⟩ => ⟨first, second, ?_⟩⟩
  have here : Ends probe (settle host (memoryStore host) leaseMs commandId) world fun found last =>
      found = some (before, drain, (evidenceOf host drained commandId).classification commandId) ∧
        last = drained := ⟨_, _, ran, rfl, rfl⟩
  apply here.bind
  rintro _ drained ⟨rfl, rfl⟩
  apply (ends_resolve settled.idle probed _).bind
  rintro ⟨outcome, final⟩ last resolved
  refine .pure ?_
  intro receipt stored observed
  have held : drained.memory.fetch commandId = some receipt := by
    rcases stored with before | after
    · exact settled.kept receipt before observed
    · exact after
  rcases resolved with opened | rfl
  · -- the evidence is sound, and the stored receipt is part of it
    refine absurd observed (Evidence.sound_iff.mpr second opened (.primary, receipt) ?_)
    simp [Evidence.receipts, candidates, evidenceOf, held]
  · exact ⟨receipt, held, rfl, rfl, rfl⟩

/-- A transfer that reports success, and a reader that sees nothing of it. -/
def contradicted : List Choice :=
  [.served, .target (.ok CommandBus.transferTarget), .entryGates none] ++ List.replicate 8 .served ++
    [.consult {}, .dispatch (.reply (.atom "ok")),
      .observe (some ⟨"balance", "ledger", .integer 10⟩) (some fun _ => .contradicted (.integer 0))] ++
    List.replicate 6 .served

/-- The store holds the contradicted transfer, and a probe that calls it executed turns it into
a completed one. -/
def rewritten (world : World) : Bool :=
  world.checking = none ∧
    (world.memory.fetch ⟨"transfer"⟩).map (·.status) = some .postconditionContradicted ∧
    ((machine.alone 0 (served fun _ => some (.executed, .nil))
      (reconcile Receipt.keyedHost (memoryStore Receipt.keyedHost) 0 true ⟨"transfer"⟩) world).bind
        fun (_, final) => (final.memory.fetch ⟨"transfer"⟩).map (·.status)) = some .completed

/-- The world that a run over an empty store and an empty journal leaves. -/
def LeftBy (host : Host) (command : Command) (opts : CommandBus.Opts) (choices : List Choice)
    (world : World) : Prop :=
  ∃ rest history, machine.serve 0 choices (CommandBus.run host (memoryStore host) command opts) {} [] =
    some (rest, world, history)

theorem contradicted_left : ∃ world,
    LeftBy Receipt.keyedHost CommandBus.authorizedTransfer { leaseMs := 0 } contradicted world ∧
      rewritten world = true := by
  have ran : (machine.serve 0 contradicted (CommandBus.run Receipt.keyedHost
      (memoryStore Receipt.keyedHost) CommandBus.authorizedTransfer { leaseMs := 0 }) {} []).any
        (fun (_, world, _) => rewritten world) = true := by decide +kernel
  obtain ⟨⟨rest, world, history⟩, served, holds⟩ := (Option.any_eq_true _ _).mp ran
  exact ⟨world, ⟨rest, history, served⟩, holds⟩

/-- What reconciliation promises for every outcome that a run has left behind fails for a
transfer whose postcondition was contradicted. -/
theorem contradicted_rewritten :
    ¬ ∀ (host : Host) (command : Command) (opts : CommandBus.Opts) (choices : List Choice) (world : World)
      (leaseMs : Nat) (probed : Bool) (probe : Receipt → Option (ResolvedAs × Term)),
      LeftBy host command opts choices world → world.checking = none →
      Ends probe (settle host (memoryStore host) leaseMs command.commandId) world fun _ drained =>
        (evidenceOf host world command.commandId).Sound command.commandId ∧
          (evidenceOf host drained command.commandId).Sound command.commandId ∧
          Preserves host leaseMs probed probe command.commandId world drained := by
  intro claim
  obtain ⟨world, left, rewritten⟩ := contradicted_left
  simp only [Reconciliation.rewritten, decide_eq_true_eq, Option.map_eq_some_iff,
    Option.bind_eq_some_iff] at rewritten
  obtain ⟨idle, ⟨stored, held, status⟩, ⟨report, final⟩, ran, after, rewrote, completed⟩ := rewritten
  obtain ⟨_, drained, _, _, _, preserves⟩ := claim _ _ _ _ world 0 true _ left idle
  obtain ⟨kept, found, same, _⟩ := preserves.elim ran stored (.inl held) (by simp [Observed, status])
  obtain rfl : kept = after := Option.some.inj (found.symm.trans rewrote)
  rw [completed, status] at same
  cases same

theorem observed_kept_iff_contradicted :
    ∃ world, LeftBy Receipt.keyedHost CommandBus.authorizedTransfer { leaseMs := 0 } contradicted world ∧
      Ends (fun _ => some (.executed, .nil))
        (settle Receipt.keyedHost (memoryStore Receipt.keyedHost) 0 ⟨"transfer"⟩) world fun _ drained =>
        ((evidenceOf Receipt.keyedHost world ⟨"transfer"⟩).Sound ⟨"transfer"⟩ ∧
          (evidenceOf Receipt.keyedHost drained ⟨"transfer"⟩).Sound ⟨"transfer"⟩ ∧
          Preserves Receipt.keyedHost 0 true (fun _ => some (.executed, .nil)) ⟨"transfer"⟩ world drained) ↔
        (¬ (evidenceOf Receipt.keyedHost world ⟨"transfer"⟩).Misses ⟨"transfer"⟩ ∧
          ¬ (evidenceOf Receipt.keyedHost drained ⟨"transfer"⟩).Misses ⟨"transfer"⟩) := by
  obtain ⟨world, left, rewritten⟩ := contradicted_left
  have idle : world.checking = none := by
    simp only [Reconciliation.rewritten, decide_eq_true_eq] at rewritten
    exact rewritten.1
  exact ⟨world, left, observed_kept_iff Receipt.keyedHost world idle ⟨"transfer"⟩ 0 true _⟩

end AshA2A.Reconciliation
