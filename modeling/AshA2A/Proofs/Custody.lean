import AshA2A.Concurrency.Safety
import AshA2A.Proofs.Surroundings

/-! Who holds which claim, how far each run has come with it, and what this says about the
store and the journal while any number of processes use them. -/

namespace AshA2A.Custody

open Concurrency ReceiptStore ReceiptOutbox CommandBus

/-- How far a run has come since it was told to execute. -/
inductive Stage where
  | claimed
  /-- The anchor has its identity; it may not be in the journal yet. -/
  | stamped (anchor : Identity .runtime)
  | anchored (anchor : Identity .runtime)
  /-- The store has confirmed the claim, and DO has not been entered. -/
  | confirmed (anchor : Identity .runtime)
  | entered (anchor : Identity .runtime)
  /-- DO will not be entered any more. -/
  | closed (receipt : Identity .runtime)

namespace Stage

def anchor? : Stage → Option (Identity .runtime)
  | .claimed => none
  | .stamped anchor | .anchored anchor | .confirmed anchor | .entered anchor | .closed anchor => some anchor

/-- The anchor that must be found in the journal unless a receipt is stored. -/
def journaled? : Stage → Option (Identity .runtime)
  | .anchored anchor | .confirmed anchor | .entered anchor => some anchor
  | _ => none

/-- The claim must not pass to anybody else. -/
def holds : Stage → Bool
  | .confirmed _ | .entered _ => true
  | _ => false

def undecided : Stage → Bool
  | .entered _ | .closed _ => false
  | _ => true

end Stage

structure Holder where
  claimed : Claimed
  stage : Stage

namespace Holder

variable (holder : Holder)

abbrev commandId : Identity .command := holder.claimed.command.commandId

abbrev executionId : Identity .execution := holder.claimed.executionId

abbrev anchor? : Option (Identity .runtime) := holder.stage.anchor?

end Holder

structure Ghost where
  holder : Pid → Option Holder := fun _ => none
  /-- The identity and the reply of every receipt that closes the execution. -/
  outcome : Identity .execution → Option (Identity .runtime × Reply) := fun _ => none

namespace Ghost

def put (ghost : Ghost) (pid : Pid) (holder : Holder) : Ghost :=
  { ghost with holder := Function.update ghost.holder pid (some holder) }

def conclude (ghost : Ghost) (executionId : Identity .execution)
    (outcome : Identity .runtime × Reply) : Ghost :=
  { ghost with outcome := Function.update ghost.outcome executionId (some outcome) }

variable {ghost : Ghost} {pid other : Pid} {holder : Holder} {executionId : Identity .execution}
  {outcome : Identity .runtime × Reply}

@[simp] theorem put_holder_self : (ghost.put pid holder).holder pid = some holder :=
  Function.update_self ..

@[simp] theorem put_holder_of_ne (different : other ≠ pid) :
    (ghost.put pid holder).holder other = ghost.holder other := Function.update_of_ne different ..

@[simp] theorem put_outcome : (ghost.put pid holder).outcome = ghost.outcome := rfl

@[simp] theorem conclude_holder : (ghost.conclude executionId outcome).holder = ghost.holder := rfl

@[simp] theorem conclude_outcome_self :
    (ghost.conclude executionId outcome).outcome executionId = some outcome := Function.update_self ..

@[simp] theorem conclude_outcome_of_ne {given : Identity .execution} (different : given ≠ executionId) :
    (ghost.conclude executionId outcome).outcome given = ghost.outcome given :=
  Function.update_of_ne different ..

/-- No run that may still enter DO for this command, or has, relies on its claim. -/
def Unheld (ghost : Ghost) (commandId : Identity .command) : Prop :=
  ∀ ⦃pid holder⦄, ghost.holder pid = some holder → holder.stage.holds = true →
    holder.commandId ≠ commandId

end Ghost

abbrev State := Shared Pid Op Op.Reply World

/-- The name under which the anchor of a run is journaled. -/
def entryName (host : Host) (commandId : Identity .command) (anchor : Identity .runtime) : Name :=
  .entry (commandKey host commandId) anchor.external

/-- Where a receipt comes from: its identity is not one that is still to be generated; if it
is the anchor of a run, then it is about that run's command. The last field needs a journal
and a store that began empty. -/
structure Traced (strict : Prop) (serial : Nat) (ghost : Ghost) (receipt : Receipt) : Prop where
  minted : ∀ later, serial ≤ later → receipt.receiptId ≠ ⟨freshId later⟩
  owner : ∀ pid holder, ghost.holder pid = some holder → holder.anchor? = some receipt.receiptId →
    receipt.commandId = holder.commandId
  outcome : strict → receipt.status ≠ .pending →
    ghost.outcome receipt.executionId = some (receipt.receiptId, receipt.reply)

/-- What the process's role says about the run that holds the claim. -/
def Assigned (host : Host) (role : Role) (claimed : Claimed) : Prop :=
  role = .run claimed.command claimed.opts ∧
    claimed.actuation = Actuation.identity host.crypto claimed.command claimed.opts.idempotencyKey

/-- The store tells a run to execute. -/
def Told (claimed : Claimed) : (op : Op) → op.Reply → Prop
  | .memory (.claim command opts), some (.done (.execute executionId)) =>
    command = claimed.command ∧ opts.executionId = none ∧ executionId = claimed.executionId
  | .memory (.claimChecked command opts _), some (.execute executionId) =>
    command = claimed.command ∧ opts.executionId = none ∧ executionId = claimed.executionId
  | _, _ => False

/-- What a request must not do in the given state. -/
def Lawful (host : Host) (strict : Prop) (pid : Pid) (shared : State) (ghost : Ghost) : Op → Prop
  | .memory (.claimChecked command _ false) =>
    shared.world.memory.fetch command.commandId = none ∧ ghost.Unheld command.commandId
  | .memory (.claimActuationChecked actuation _ false) =>
    ∀ entry, shared.world.memory.actuations actuation.actuationId = some entry →
      ghost.Unheld entry.commandId
  | .memory (.commit receipt) => strict → receipt.status ≠ .pending →
    ghost.outcome receipt.executionId = some (receipt.receiptId, receipt.reply)
  | .memory (.releaseActuation _) =>
    ∀ holder, ghost.holder pid = some holder → holder.stage.holds = false
  | .file (.write name content) => ∃ receipt unique, content = sealEntry host receipt ∧
    name = .temp (commandKey host receipt.commandId) receipt.receiptId.external unique ∧
    Traced strict shared.world.serial ghost receipt
  | .file (.rename source target) => ∃ commandKey rest unique,
    source = .temp commandKey rest unique ∧ target = .entry commandKey rest
  | .file (.remove name) => ∀ other holder anchor, ghost.holder other = some holder →
    holder.stage.journaled? = some anchor → name = entryName host holder.commandId anchor →
    shared.world.memory.fetch holder.commandId ≠ none
  | _ => True

/-- How one request of a run moves its own holder. -/
inductive Advance (host : Host) (roles : Pid → Role) (pid : Pid) (ghost : Ghost) :
    (op : Op) → op.Reply → Ghost → Prop where
  | stay {op : Op} {reply : op.Reply} (outside : op.entersDo = false) :
      Advance host roles pid ghost op reply ghost
  | claim {op : Op} {reply : op.Reply} {claimed : Claimed} (free : ghost.holder pid = none)
      (assigned : Assigned host (roles pid) claimed) (told : Told claimed op reply) :
      Advance host roles pid ghost op reply (ghost.put pid ⟨claimed, .claimed⟩)
  | stamp {stamp : Stamp} {claimed : Claimed} (own : ghost.holder pid = some ⟨claimed, .claimed⟩) :
      Advance host roles pid ghost .stamp stamp (ghost.put pid ⟨claimed, .stamped ⟨stamp.uuid⟩⟩)
  | anchor {source : Name} {claimed : Claimed} {anchor : Identity .runtime}
      (own : ghost.holder pid = some ⟨claimed, .stamped anchor⟩) :
      Advance host roles pid ghost
        (.file (.rename source (entryName host claimed.command.commandId anchor))) (.ok ())
        (ghost.put pid ⟨claimed, .anchored anchor⟩)
  | confirm {claimed : Claimed} {anchor : Identity .runtime}
      (own : ghost.holder pid = some ⟨claimed, .anchored anchor⟩) :
      Advance host roles pid ghost
        (.memory (.confirmClaim claimed.command.commandId claimed.executionId)) (some .ok)
        (ghost.put pid ⟨claimed, .confirmed anchor⟩)
  | enter {claimed : Claimed} {anchor : Identity .runtime} {receipt : Receipt} {reply : Reply}
      (own : ghost.holder pid = some ⟨claimed, .confirmed anchor⟩) :
      Advance host roles pid ghost (.dispatch claimed.command claimed.executionId (some receipt)) reply
        (ghost.put pid ⟨claimed, .entered anchor⟩)
  | close {op : Op} {reply : op.Reply} {claimed : Claimed} {stage : Stage} {anchor : Identity .runtime}
      (outside : op.entersDo = false) (own : ghost.holder pid = some ⟨claimed, stage⟩)
      (undecided : stage.undecided = true) (named : stage.anchor? = some anchor) :
      Advance host roles pid ghost op reply (ghost.put pid ⟨claimed, .closed anchor⟩)
  /-- The observed reply closes the anchor. -/
  | conclude {stamp : Stamp} {claimed : Claimed} {stage : Stage} {anchor : Identity .runtime}
      {reply : Reply} (own : ghost.holder pid = some ⟨claimed, stage⟩)
      (decided : stage.undecided = false) (named : stage.anchor? = some anchor)
      (unknown : ghost.outcome claimed.executionId = none) :
      Advance host roles pid ghost .stamp stamp (ghost.conclude claimed.executionId (anchor, reply))
  /-- A receipt is made at once, for a run that has no anchor in the journal. -/
  | record {stamp : Stamp} {claimed : Claimed} {stage : Stage} {reply : Reply}
      (own : ghost.holder pid = some ⟨claimed, stage⟩) (undecided : stage.undecided = true)
      (unjournaled : stage.journaled? = none) :
      Advance host roles pid ghost .stamp stamp
        ((ghost.put pid ⟨claimed, .closed ⟨stamp.uuid⟩⟩).conclude claimed.executionId
          (⟨stamp.uuid⟩, reply))

/-- What holds between any two requests. -/
structure Valid (host : Host) (strict : Prop) (roles : Pid → Role) (shared : State) (ghost : Ghost) :
    Prop where
  assigned : ∀ pid holder, ghost.holder pid = some holder → Assigned host (roles pid) holder.claimed
  claim : ∀ pid holder, ghost.holder pid = some holder →
    shared.world.memory.claims holder.commandId ≠ none
  minted : ∀ pid holder, ghost.holder pid = some holder →
    ∃ serial < shared.world.serial, holder.executionId = ⟨freshId serial⟩
  anchors : ∀ pid holder anchor, ghost.holder pid = some holder → holder.anchor? = some anchor →
    ∃ serial < shared.world.serial, anchor = ⟨freshId serial⟩
  executions : ∀ pid other holder given, ghost.holder pid = some holder →
    ghost.holder other = some given → holder.executionId = given.executionId → pid = other
  distinct : ∀ pid other holder given anchor, ghost.holder pid = some holder →
    ghost.holder other = some given → holder.anchor? = some anchor → given.anchor? = some anchor →
    pid = other
  undecided : ∀ pid holder, ghost.holder pid = some holder → holder.stage.undecided = true →
    ghost.outcome holder.executionId = none
  outcomes : ∀ executionId, ghost.outcome executionId ≠ none →
    ∃ serial < shared.world.serial, executionId = ⟨freshId serial⟩
  files : ∀ file ∈ shared.world.directory, ∀ receipt, file.2.Carries receipt →
    Traced strict shared.world.serial ghost receipt
  written : strict → ∀ file ∈ shared.world.directory, ∃ receipt, file.2 = sealEntry host receipt ∧
    (file.1 = entryPath host receipt ∨ ∃ unique,
      file.1 = .temp (commandKey host receipt.commandId) receipt.receiptId.external unique)
  kept : ∀ pid holder anchor, ghost.holder pid = some holder → holder.stage.journaled? = some anchor →
    entryName host holder.commandId anchor ∈ shared.world.directory.names ∨
      shared.world.memory.fetch holder.commandId ≠ none
  held : ∀ pid holder, ghost.holder pid = some holder → holder.stage.holds = true →
    (shared.world.memory.claims holder.commandId).map (·.executionId) = some holder.executionId
  stored : strict → ∀ commandId entry receipt, shared.world.memory.claims commandId = some entry →
    entry.receipt = some receipt → receipt.executionId = entry.executionId ∧
      (receipt.status ≠ .pending →
        ghost.outcome receipt.executionId = some (receipt.receiptId, receipt.reply))
  entered : ∀ event ∈ shared.trace, event.op.entersDo = true → ∃ claimed anchor receipt,
    event.op = .dispatch claimed.command claimed.executionId (some receipt) ∧
      ghost.holder event.pid = some ⟨claimed, .entered anchor⟩
  once : (shared.trace.filter (·.op.entersDo)).Pairwise fun later earlier => later.pid ≠ earlier.pid

/-! ## Where the state of a run after one request comes from -/

section

variable {host : Host} {strict : Prop} {roles : Pid → Role} {pid : Pid} {shared : State}
  {ghost after : Ghost} {op : Op} {choice : Choice} {reply : op.Reply} {world : World}

theorem Advance.other {other : Pid} (advance : Advance host roles pid ghost op reply after)
    (different : other ≠ pid) : after.holder other = ghost.holder other := by
  cases advance <;> simp [different]

/-- A run that is told to execute does so under an identifier of its own. -/
theorem Told.served {claimed : Claimed} (told : Told claimed op reply)
    (served : exec pid op choice shared.world = some (reply, world)) :
    claimed.executionId = ⟨freshId shared.world.serial⟩ ∧ world.serial = shared.world.serial + 1 ∧
      world.memory.claims claimed.command.commandId ≠ none ∧ op.entersDo = false := by
  unfold Told at told
  split at told
  next command opts executionId =>
    obtain ⟨rfl, generated, rfl⟩ := told
    obtain ⟨_, answered, rfl⟩ := exec_answered served
    obtain ⟨leaseMs, given⟩ := opts
    cases generated
    refine ⟨Memory.claim_execute answered.symm, rfl, ?_, rfl⟩
    simp only [World.serveMemory, Memory.serve, Memory.claim] at answered ⊢
    cases found : shared.world.memory.claims claimed.command.commandId with
    | none => simp [Handled.progress, Memory.freshClaim, Memory.putClaim]
    | some entry =>
      simp only [found] at answered
      split at answered
      · split at answered
        · cases answered
        · split at answered <;> cases answered
      · cases answered
  next command opts anchored executionId =>
    obtain ⟨rfl, generated, rfl⟩ := told
    obtain ⟨_, answered, rfl⟩ := exec_answered served
    cases anchored
    · simp only [World.serveMemory, Memory.serve, Memory.claimChecked, Memory.freshClaim, generated,
        Option.getD_none] at answered
      exact ⟨ClaimReply.execute.inj answered, rfl, by simp [World.serveMemory, Memory.serve,
        Memory.claimChecked, Memory.freshClaim, Memory.putClaim], rfl⟩
    · cases answered
  next => cases told

theorem Advance.claimed {other : Pid} {holder : Holder}
    (advance : Advance host roles pid ghost op reply after)
    (served : exec pid op choice shared.world = some (reply, world))
    (held : after.holder other = some holder) :
    (∃ stage, ghost.holder other = some ⟨holder.claimed, stage⟩) ∨
    (other = pid ∧ ghost.holder pid = none ∧ holder.stage = .claimed ∧
      Assigned host (roles pid) holder.claimed ∧
      holder.executionId = ⟨freshId shared.world.serial⟩ ∧ world.serial = shared.world.serial + 1 ∧
      world.memory.claims holder.commandId ≠ none) := by
  by_cases same : other = pid
  · subst same
    cases advance with
    | claim free assigned told =>
      simp only [Ghost.put_holder_self, Option.some.injEq] at held
      subst held
      obtain ⟨generated, grown, claimed, _⟩ := told.served served
      exact .inr ⟨rfl, free, rfl, assigned, generated, grown, claimed⟩
    | stay => exact .inl ⟨_, held⟩
    | conclude own => exact .inl ⟨_, held⟩
    | stamp own | anchor own | confirm own | enter own | close _ own | record own =>
      simp only [Ghost.conclude_holder, Ghost.put_holder_self, Option.some.injEq] at held
      subst held
      exact .inl ⟨_, own⟩
  · rw [advance.other same] at held
    exact .inl ⟨_, held⟩

theorem Advance.anchorOf {other : Pid} {holder : Holder} {anchor : Identity .runtime}
    (advance : Advance host roles pid ghost op reply after)
    (served : exec pid op choice shared.world = some (reply, world))
    (held : after.holder other = some holder) (named : holder.anchor? = some anchor) :
    (∃ stage, ghost.holder other = some ⟨holder.claimed, stage⟩ ∧ stage.anchor? = some anchor) ∨
    (other = pid ∧ anchor = ⟨freshId shared.world.serial⟩ ∧ world.serial = shared.world.serial + 1) := by
  by_cases same : other = pid
  · subst same
    cases advance with
    | stay => exact .inl ⟨_, held, named⟩
    | conclude own => exact .inl ⟨_, held, named⟩
    | claim =>
      simp only [Ghost.put_holder_self, Option.some.injEq] at held
      subst held
      cases named
    | stamp own | record own =>
      simp only [Ghost.conclude_holder, Ghost.put_holder_self, Option.some.injEq] at held
      subst held
      cases named
      obtain ⟨rfl, rfl⟩ := exec_stamp served
      exact .inr ⟨rfl, rfl, rfl⟩
    | anchor own | confirm own | enter own =>
      simp only [Ghost.put_holder_self, Option.some.injEq] at held
      subst held
      exact .inl ⟨_, own, named⟩
    | close _ own _ known =>
      simp only [Ghost.put_holder_self, Option.some.injEq] at held
      subst held
      cases named
      exact .inl ⟨_, own, known⟩
  · rw [advance.other same] at held
    exact .inl ⟨_, held, named⟩

theorem Advance.journaled {other : Pid} {holder : Holder} {anchor : Identity .runtime}
    (advance : Advance host roles pid ghost op reply after)
    (served : exec pid op choice shared.world = some (reply, world))
    (held : after.holder other = some holder) (named : holder.stage.journaled? = some anchor) :
    (∃ stage, ghost.holder other = some ⟨holder.claimed, stage⟩ ∧ stage.journaled? = some anchor) ∨
    entryName host holder.commandId anchor ∈ world.directory.names := by
  by_cases same : other = pid
  · subst same
    cases advance with
    | stay => exact .inl ⟨_, held, named⟩
    | conclude own => exact .inl ⟨_, held, named⟩
    | claim | stamp own | record own | close _ own =>
      simp only [Ghost.conclude_holder, Ghost.put_holder_self, Option.some.injEq] at held
      subst held
      cases named
    | anchor own =>
      simp only [Ghost.put_holder_self, Option.some.injEq] at held
      subst held
      cases named
      exact .inr (exec_renamed served)
    | confirm own | enter own =>
      simp only [Ghost.put_holder_self, Option.some.injEq] at held
      subst held
      exact .inl ⟨_, own, named⟩
  · rw [advance.other same] at held
    exact .inl ⟨_, held, named⟩

theorem Advance.holds {other : Pid} {holder : Holder}
    (advance : Advance host roles pid ghost op reply after)
    (served : exec pid op choice shared.world = some (reply, world))
    (held : after.holder other = some holder) (holds : holder.stage.holds = true) :
    (∃ stage, ghost.holder other = some ⟨holder.claimed, stage⟩ ∧ stage.holds = true) ∨
    (other = pid ∧ op = .memory (.confirmClaim holder.commandId holder.executionId) ∧
      shared.world.checking = none ∧ world.memory = shared.world.memory ∧
      (world.memory.claims holder.commandId).map (·.executionId) = some holder.executionId) := by
  by_cases same : other = pid
  · subst same
    cases advance with
    | stay => exact .inl ⟨_, held, holds⟩
    | conclude own => exact .inl ⟨_, held, holds⟩
    | claim | stamp own | record own | close _ own | anchor own =>
      simp only [Ghost.conclude_holder, Ghost.put_holder_self, Option.some.injEq] at held
      subst held
      cases holds
    | confirm own =>
      simp only [Ghost.put_holder_self, Option.some.injEq] at held
      subst held
      obtain ⟨accepts, answered, rfl⟩ := exec_answered served
      refine .inr ⟨rfl, rfl, by simpa [World.accepts, MemoryCall.resumes] using accepts, rfl, ?_⟩
      simp only [World.serveMemory, Memory.serve, Memory.confirmClaim] at answered ⊢
      split at answered
      · assumption
      · cases answered
    | enter own =>
      simp only [Ghost.put_holder_self, Option.some.injEq] at held
      subst held
      exact .inl ⟨_, own, rfl⟩
  · rw [advance.other same] at held
    exact .inl ⟨_, held, holds⟩

theorem Advance.open {other : Pid} {holder : Holder}
    (advance : Advance host roles pid ghost op reply after)
    (held : after.holder other = some holder) (undecided : holder.stage.undecided = true) :
    (∃ stage, ghost.holder other = some ⟨holder.claimed, stage⟩ ∧ stage.undecided = true) ∨
    (other = pid ∧ ghost.holder pid = none) := by
  by_cases same : other = pid
  · subst same
    cases advance with
    | stay => exact .inl ⟨_, held, undecided⟩
    | conclude own => exact .inl ⟨_, held, undecided⟩
    | claim free => exact .inr ⟨rfl, free⟩
    | stamp own | anchor own | confirm own =>
      simp only [Ghost.put_holder_self, Option.some.injEq] at held
      subst held
      exact .inl ⟨_, own, rfl⟩
    | record own | close _ own | enter own =>
      simp only [Ghost.conclude_holder, Ghost.put_holder_self, Option.some.injEq] at held
      subst held
      cases undecided
  · rw [advance.other same] at held
    exact .inl ⟨_, held, undecided⟩

/-- Outcomes are set by the run that holds the execution, when it is decided. -/
theorem Advance.outcome (advance : Advance host roles pid ghost op reply after)
    (executionId : Identity .execution) :
    after.outcome executionId = ghost.outcome executionId ∨
    ∃ claimed stage reached, ghost.holder pid = some ⟨claimed, stage⟩ ∧
      after.holder pid = some ⟨claimed, reached⟩ ∧ reached.undecided = false ∧
      claimed.executionId = executionId ∧
      (stage.undecided = true ∨ ghost.outcome executionId = none) := by
  cases advance with
  | @conclude _ claimed stage _ _ own decided _ unknown =>
    by_cases same : executionId = claimed.executionId
    · subst same
      exact .inr ⟨_, _, _, own, own, decided, rfl, .inr unknown⟩
    · exact .inl (Ghost.conclude_outcome_of_ne same)
  | @record _ claimed stage _ own undecided _ =>
    by_cases same : executionId = claimed.executionId
    · subst same
      exact .inr ⟨_, _, _, own, Ghost.put_holder_self, rfl, rfl, .inl undecided⟩
    · exact .inl (Ghost.conclude_outcome_of_ne same)
  | _ => exact .inl rfl

/-- What a receipt says about an execution is never said again in another way. -/
theorem Advance.outcome_kept (advance : Advance host roles pid ghost op reply after)
    (valid : Valid host strict roles shared ghost) {executionId : Identity .execution}
    {outcome : Identity .runtime × Reply} (known : ghost.outcome executionId = some outcome) :
    after.outcome executionId = some outcome := by
  rcases advance.outcome executionId with same | ⟨claimed, stage, _, own, _, _, rfl, undecided | unknown⟩
  · rw [same, known]
  · exact absurd (valid.undecided _ _ own undecided) (by simp [known])
  · simp [unknown] at known

end

end AshA2A.Custody

/-! A lawful request keeps everything valid, whoever makes it. -/

namespace AshA2A.Custody

open Concurrency ReceiptStore ReceiptOutbox CommandBus

variable {host : Host} {strict : Prop} {roles : Pid → Role} {pid : Pid} {shared : State}
  {ghost after : Ghost} {op : Op} {choice : Choice} {reply : op.Reply} {world : World}

/-! ## What lasts in the world -/

theorem claims_last (served : exec pid op choice shared.world = some (reply, world))
    {commandId : Identity .command} (claimed : shared.world.memory.claims commandId ≠ none) :
    world.memory.claims commandId ≠ none := by
  rcases exec_claims served with same | ⟨command, entry, _, _, made⟩ | ⟨receipt, entry, _, _, _, made⟩
  · rwa [same]
  · rw [made]
    by_cases same : commandId = command.commandId
    · simp [same]
    · rwa [Function.update_of_ne same]
  · rw [made]
    by_cases same : commandId = receipt.commandId
    · simp [same]
    · rwa [Function.update_of_ne same]

/-- A stored receipt is never dropped: a claim is made again only where none is stored. -/
theorem stored_lasts (lawful : Lawful host strict pid shared ghost op)
    (served : exec pid op choice shared.world = some (reply, world))
    {commandId : Identity .command} (stored : shared.world.memory.fetch commandId ≠ none) :
    world.memory.fetch commandId ≠ none := by
  unfold Memory.fetch at stored ⊢
  rcases exec_claims served with
    same | ⟨command, entry, free, unstored, made⟩ | ⟨receipt, entry, _, _, _, made⟩
  · rwa [same]
  · rw [made]
    by_cases same : commandId = command.commandId
    · subst same
      rcases free with free | ⟨opts, rfl⟩
      · simp [free] at stored
      · exact absurd lawful.1 stored
    · rwa [Function.update_of_ne same]
  · rw [made]
    by_cases same : commandId = receipt.commandId
    · simp [same]
    · rwa [Function.update_of_ne same]

/-- A run that relies on its claim keeps it. -/
theorem claim_lasts (lawful : Lawful host strict pid shared ghost op)
    (served : exec pid op choice shared.world = some (reply, world))
    {other : Pid} {holder : Holder} (held : ghost.holder other = some holder)
    (holds : holder.stage.holds = true) {executionId : Identity .execution}
    (claimed : (shared.world.memory.claims holder.commandId).map (·.executionId) = some executionId) :
    (world.memory.claims holder.commandId).map (·.executionId) = some executionId := by
  rcases exec_claims served with
    same | ⟨command, entry, free, _, made⟩ | ⟨receipt, entry, _, found, _, made⟩
  · rwa [same]
  · rw [made]
    by_cases same : holder.commandId = command.commandId
    · rcases free with free | ⟨opts, rfl⟩
      · simp [same, free] at claimed
      · exact absurd same (lawful.2 held holds)
    · rwa [Function.update_of_ne same]
  · rw [made]
    by_cases same : holder.commandId = receipt.commandId
    · simpa [same, found] using claimed
    · rwa [Function.update_of_ne same]

/-- An entry of the journal is lost only to its removal. -/
theorem entry_lasts (lawful : Lawful host strict pid shared ghost op)
    (served : exec pid op choice shared.world = some (reply, world)) {commandKey rest : String}
    (present : .entry commandKey rest ∈ shared.world.directory.names) :
    .entry commandKey rest ∈ world.directory.names ∨
      op = .file (.remove (.entry commandKey rest)) := by
  rcases exec_directory served with same | ⟨call, rfl, made⟩
  · exact .inl (by rwa [same])
  · rw [made]
    rcases Directory.serve_names shared.world.directory call present with kept | rfl | ⟨target, rfl⟩
    · exact .inl kept
    · exact .inr rfl
    · obtain ⟨_, _, _, source, _⟩ := lawful
      cases source

/-! ## Receipts keep their origin -/

/-- A receipt of which no new run becomes the owner, and whose outcome stays known. -/
theorem Traced.step {receipt : Receipt} (traced : Traced strict shared.world.serial ghost receipt)
    (valid : Valid host strict roles shared ghost)
    (advance : Advance host roles pid ghost op reply after)
    (served : exec pid op choice shared.world = some (reply, world)) :
    Traced strict world.serial after receipt where
  minted later bound := traced.minted later ((exec_serial served).trans bound)
  owner other holder held named := by
    rcases advance.anchorOf served held named with ⟨stage, before, known⟩ | ⟨_, fresh, _⟩
    · exact traced.owner other ⟨holder.claimed, stage⟩ before known
    · exact absurd fresh (traced.minted _ le_rfl)
  outcome begins final := advance.outcome_kept valid (traced.outcome begins final)

end AshA2A.Custody
