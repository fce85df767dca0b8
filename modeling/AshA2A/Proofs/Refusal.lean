import AshA2A.CommandBus
import AshA2A.Concurrency.Paths
import AshA2A.Proofs.Lawful

/-! A committed refusal and the consequence boundary: what the terminal status of a run's
receipt says about whether the run entered DO, on every path of the run. -/

namespace AshA2A

open Concurrency

/-- The code of the fault is on the list of refusals raised before the boundary. -/
def Fault.Listed (fault : Fault) : Prop := ∃ code ∈ preDoRefusalCodes, fault.code = some code

theorem Reply.error_refused_iff {fault : Fault} :
    (Reply.error fault).terminalStatus = .refused ↔ fault.Listed := by
  rcases fault with ⟨_ | code, detail, reason⟩
  · simp [terminalStatus, Fault.Listed]
  · by_cases listed : code ∈ preDoRefusalCodes <;> simp [terminalStatus, Fault.Listed, listed]

theorem Reply.error_failed_iff {fault : Fault} :
    (Reply.error fault).terminalStatus = .failed ↔ ¬ fault.Listed := by
  rcases fault with ⟨_ | code, detail, reason⟩
  · simp [terminalStatus, Fault.Listed]
  · by_cases listed : code ∈ preDoRefusalCodes <;> simp [terminalStatus, Fault.Listed, listed]

theorem Reply.refused_iff {reply : Reply} :
    reply.terminalStatus = .refused ↔ ∃ fault, reply = .error fault ∧ fault.Listed := by
  cases reply with
  | error fault => simpa using error_refused_iff
  | _ => simp [terminalStatus]

namespace CommandBus

/-- Everything one run asked and was answered, newest first. -/
abbrev History := List (Exchange Op Op.Reply)

/-- The requests that decide how a receipt has to read. -/
def decisive : Op → Bool
  | .target _ | .consult _ | .dispatch _ _ _ | .mark _ => true
  | _ => false

theorem ofStore_not_decisive (op : Op) (ofStore : op.ofStore) : decisive op = false := by
  cases op <;> first | rfl | cases ofStore

/-- The run has handed the receipt to the store, which may or may not have confirmed it. -/
def Committed (history : History) (receipt : Receipt) : Prop :=
  ⟨.mark (.committing receipt), ()⟩ ∈ history

def Entered (history : History) : Prop :=
  ∃ command executionId anchor reply, ⟨.dispatch command executionId anchor, reply⟩ ∈ history

/-- What the receipt says and what the run did. A run that neither entered DO nor repeats
the outcome of another command was stopped before DO: without an anchor, without the claim of
its effect, or by the gate. -/
structure RefusedMeansStopped (entered : Prop) (receipt : Receipt) : Prop where
  refused_iff : receipt.terminalStatus = some .refused ↔
    ¬ entered ∧ receipt.metadata.outcome ≠ some .deduplicated
  stopped_not_failed : ¬ entered ∧ receipt.metadata.outcome ≠ some .deduplicated →
    receipt.terminalStatus ≠ some .failed
  entered_not_refused : entered → receipt.terminalStatus ≠ some .refused

/-- What has to be answered for the receipt to read right: the gate refuses with listed
codes only, a dispatcher answers with none of them, and no prior outcome is a refusal. -/
def Expected (command : Command) (consequence : Consequence) : Exchange Op Op.Reply → Prop
  | ⟨.consult _, answers⟩ =>
    ∀ fault, preDoGate command consequence answers = some fault → fault.Listed
  | ⟨.dispatch _ _ _, reply⟩ => ∀ fault, reply = .error fault → ¬ fault.Listed
  | ⟨.mark (.responded (some (.duplicate prior))), _⟩ => prior.terminalStatus ≠ some .refused
  | _ => True

/-- Every receipt committed so far reads right exactly if the answers so far were as expected. -/
def Faithful (command : Command) (history : History) : Prop :=
  ∀ target receipt, ⟨.target command, .ok target⟩ ∈ history → Committed history receipt →
    (RefusedMeansStopped (Entered history) receipt ↔
      ∀ exchange ∈ history, Expected command target.consequence exchange)

/-- A history before its commit, and what it comes down to. -/
structure Judged (command : Command) (target : Target) (history : History) (entered fine : Prop) :
    Prop where
  resolved : ∀ other, ⟨.target command, .ok other⟩ ∈ history → other = target
  uncommitted : ∀ receipt, ¬ Committed history receipt
  entered_iff : Entered history ↔ entered
  fine_iff : (∀ exchange ∈ history, Expected command target.consequence exchange) ↔ fine

variable {command : Command} {target : Target} {history : History} {entered fine : Prop}

theorem faithful_of_uncommitted (uncommitted : ∀ receipt, ¬ Committed history receipt) :
    Faithful command history := fun _ receipt _ committed => absurd committed (uncommitted receipt)

theorem Judged.faithful (judged : Judged command target history entered fine) :
    Faithful command history := faithful_of_uncommitted judged.uncommitted

theorem Judged.start : Judged command target [⟨.target command, .ok target⟩] False True where
  resolved := by simp
  uncommitted := by simp [Committed]
  entered_iff := by simp [Entered]
  fine_iff := by simp [Expected]

theorem Judged.consult (judged : Judged command target history entered True) (answers : GateAnswers) :
    Judged command target (⟨.consult command, answers⟩ :: history) entered
      (∀ fault, preDoGate command target.consequence answers = some fault → fault.Listed) where
  resolved := by simpa using judged.resolved
  uncommitted := by simpa [Committed] using judged.uncommitted
  entered_iff := by simpa [Entered] using judged.entered_iff
  fine_iff := by simpa [Expected] using fun _ => judged.fine_iff.mpr trivial

theorem Judged.dispatch (judged : Judged command target history entered True)
    (executionId : Identity .execution) (anchor : Option Receipt) (reply : Reply) :
    Judged command target (⟨.dispatch command executionId anchor, reply⟩ :: history) True
      (∀ fault, reply = .error fault → ¬ fault.Listed) where
  resolved := by simpa using judged.resolved
  uncommitted := by simpa [Committed] using judged.uncommitted
  entered_iff := iff_true_intro ⟨command, executionId, anchor, reply, List.mem_cons_self⟩
  fine_iff := by simpa [Expected] using fun _ => judged.fine_iff.mpr trivial

theorem Judged.responded (judged : Judged command target history entered True)
    (reply : Option ReceiptStore.ActuationReply) :
    Judged command target (⟨.mark (.responded reply), ()⟩ :: history) entered
      (Expected command target.consequence ⟨.mark (.responded reply), ()⟩) where
  resolved := by simpa using judged.resolved
  uncommitted := by simpa [Committed] using judged.uncommitted
  entered_iff := by simpa [Entered] using judged.entered_iff
  fine_iff := by simpa using fun _ => judged.fine_iff.mpr trivial

theorem Judged.congr {other : Prop} (judged : Judged command target history entered fine)
    (same : fine ↔ other) : Judged command target history entered other :=
  { judged with fine_iff := judged.fine_iff.trans same }

/-- A history from the first commit on: the receipts it has handed to the store read right
exactly if the answers were as expected. -/
structure Closing (command : Command) (target : Target) (history : History) (entered fine : Prop) :
    Prop where
  resolved : ∀ other, ⟨.target command, .ok other⟩ ∈ history → other = target
  reads : ∀ receipt, Committed history receipt → (RefusedMeansStopped entered receipt ↔ fine)
  entered_iff : Entered history ↔ entered
  fine_iff : (∀ exchange ∈ history, Expected command target.consequence exchange) ↔ fine

theorem Judged.closing (judged : Judged command target history entered fine) :
    Closing command target history entered fine :=
  { judged with reads := fun receipt committed => absurd committed (judged.uncommitted receipt) }

theorem Closing.committing (closing : Closing command target history entered fine) {receipt : Receipt}
    (reads : RefusedMeansStopped entered receipt ↔ fine) :
    Closing command target (⟨.mark (.committing receipt), ()⟩ :: history) entered fine where
  resolved := by simpa using closing.resolved
  reads stored committed := by
    rcases List.mem_cons.mp committed with same | earlier
    · cases same; exact reads
    · exact closing.reads stored earlier
  entered_iff := by simpa [Entered] using closing.entered_iff
  fine_iff := by simpa [Expected] using closing.fine_iff

theorem Closing.faithful (closing : Closing command target history entered fine) :
    Faithful command history := by
  intro other receipt resolved committed
  obtain rfl := closing.resolved other resolved
  rw [propext closing.entered_iff, closing.fine_iff]
  exact closing.reads receipt committed

/-! ## The receipts of the endings -/

variable {host : Host} {store : Store} {claimed : Claimed} {receipt : Receipt}

@[simp] theorem markStanding_terminalStatus (durable : Bool) (receipt : Receipt) :
    (markStanding durable receipt).terminalStatus = receipt.terminalStatus := by
  cases durable <;> rfl

@[simp] theorem markStanding_metadata (durable : Bool) (receipt : Receipt) :
    (markStanding durable receipt).metadata = receipt.metadata := by cases durable <;> rfl

theorem applyToReceipt_keeps (observation : Option Receipt.Observation) :
    (Postcondition.applyToReceipt host receipt observation).terminalStatus = receipt.terminalStatus ∧
      (Postcondition.applyToReceipt host receipt observation).metadata.outcome =
        receipt.metadata.outcome := by
  cases observation with
  | none => exact ⟨rfl, rfl⟩
  | some observation =>
    unfold Postcondition.applyToReceipt
    dsimp only
    split <;> simp

/-- A receipt that closes a run which was stopped before DO with this reply. -/
theorem reads_stopped {fault : Fault}
    (status : receipt.terminalStatus = some (Reply.error fault).terminalStatus)
    (outcome : receipt.metadata.outcome = some .observed) :
    RefusedMeansStopped False receipt ↔ fault.Listed := by
  constructor
  · intro reads
    have refused := reads.refused_iff.mpr ⟨id, by simp [outcome]⟩
    rw [status, Option.some.injEq] at refused
    exact Reply.error_refused_iff.mp refused
  · intro listed
    rw [Reply.error_refused_iff.mpr listed] at status
    exact ⟨by simp [status, outcome], by simp [status], fun entered => entered.elim⟩

/-- A receipt that closes a run which entered DO with this terminal status. -/
theorem reads_entered {status : Receipt.TerminalStatus} (closed : receipt.terminalStatus = some status) :
    RefusedMeansStopped True receipt ↔ status ≠ .refused := by
  constructor
  · intro reads refused
    exact reads.entered_not_refused trivial (by rw [closed, refused])
  · intro unrefused
    exact ⟨by simp [closed, unrefused], fun stopped => absurd trivial stopped.1,
      fun _ => by simpa [closed] using unrefused⟩

theorem reads_duplicate (prior : Receipt) (duplicate : receipt.metadata.outcome = some .deduplicated)
    (status : receipt.terminalStatus = prior.terminalStatus) :
    RefusedMeansStopped False receipt ↔ prior.terminalStatus ≠ some .refused := by
  constructor
  · intro reads refused
    exact (reads.refused_iff.mp (status.trans refused)).2 duplicate
  · intro unrefused
    rw [← status] at unrefused
    exact ⟨by simp [unrefused, duplicate], by simp [duplicate], fun entered => entered.elim⟩

/-! ## The paths of a run -/

/-- No history of the program falsifies the correspondence. -/
abbrev Keeps {α : Type} (command : Command) (program : Bus α) (history : History) : Prop :=
  program.Along decisive (Faithful command) (fun _ _ => True) history

theorem keeps_of_uses {α : Type} {program : Bus α} (uses : program.Uses Op.ofStore) :
    Keeps command program history :=
  (uses.weaken ofStore_not_decisive).along.weaken fun _ _ _ => trivial

theorem keeps_after {α β : Type} {program : Bus α} {next : α → Bus β}
    (uses : program.Uses Op.ofStore) (rest : ∀ value, Keeps command (next value) history) :
    Keeps command (program >>= next) history :=
  (uses.weaken ofStore_not_decisive).along_bind rest

theorem keeps_stamp {α : Type} {next : Stamp → Bus α}
    (rest : ∀ stamp, Keeps command (next stamp) history) :
    Keeps command (Bus.stamp >>= next) history := keeps_after (Program.uses_ask trivial) rest

theorem keeps_sleep {α : Type} {ms : Nat} {next : Unit → Bus α}
    (rest : Keeps command (next ()) history) : Keeps command (Bus.sleep ms >>= next) history :=
  Program.Uses.along_bind (Program.uses_ask rfl) fun _ => rest

theorem keeps_bind {α β : Type} {program : Bus α} {next : α → Bus β}
    (first : Keeps command program history)
    (rest : ∀ value history, Keeps command (next value) history) :
    Keeps command (program >>= next) history := first.bind fun value history _ => rest value history

section

variable (reads : RefusedMeansStopped entered receipt ↔ fine)

include reads

theorem keeps_commitOnce (closing : Closing command target history entered fine) :
    (commitOnce store receipt).Along decisive (Faithful command)
      (fun _ after => Closing command target after entered fine) history := by
  have committing := closing.committing reads
  apply Program.along_ask rfl
  intro _
  refine ⟨committing.faithful, ?_⟩
  apply Program.Uses.along_bind ((store.commit_uses receipt).weaken ofStore_not_decisive)
  rintro (_ | _ | _ | _) <;> exact committing

theorem keeps_retryCommit (closing : Closing command target history entered fine) (delays : List Nat)
    (last : CommitFailure) : Keeps command (retryCommit store receipt delays last) history := by
  induction delays generalizing last history with
  | nil => trivial
  | cons delay delays ih =>
    apply keeps_sleep
    apply (keeps_commitOnce reads closing).bind
    rintro (reason | _) after closing
    · exact ih closing reason
    · trivial

theorem keeps_commitWithRetries (closing : Closing command target history entered fine)
    (delays : List Nat) : Keeps command (commitWithRetries store receipt delays) history := by
  apply (keeps_commitOnce reads closing).bind
  rintro ((_ | _ | _) | _) after closing
  case ok => trivial
  case error.staleExecution => trivial
  all_goals exact keeps_retryCommit reads closing delays _

end

theorem keeps_ask {α : Type} {op : Op} {next : op.Reply → Bus α} (hidden : decisive op = false)
    (rest : ∀ reply, Keeps command (next reply) history) :
    Keeps command (Program.ask op >>= next) history :=
  Program.Uses.along_bind (Program.uses_ask hidden) rest

theorem keeps_fromReply {α : Type} {reply : Reply} {next : Receipt → Bus α}
    (rest : ∀ receipt, receipt.terminalStatus = some reply.terminalStatus →
      receipt.metadata.outcome = some .observed → Keeps command (next receipt) history) :
    Keeps command (fromReply host claimed reply >>= next) history :=
  keeps_stamp fun _ => keeps_stamp fun _ => rest _
    (by simp [Receipt.fromReply, Receipt.finalize]) (by simp [Receipt.fromReply, Receipt.finalize])

theorem keeps_finalOrReply {α : Type} {reply : Reply} {anchor : Option Anchor} {next : Receipt → Bus α}
    (rest : ∀ receipt, receipt.terminalStatus = some reply.terminalStatus →
      receipt.metadata.outcome = some .observed → Keeps command (next receipt) history) :
    Keeps command (finalOrReply host claimed reply anchor >>= next) history := by
  cases anchor with
  | none => exact keeps_fromReply rest
  | some anchor =>
    exact keeps_stamp fun _ => rest _ (by simp [Receipt.finalize]) (by simp [Receipt.finalize])

theorem releaseActuation_uses {actuation : Actuation} {consequence : Consequence} {opts : Opts} :
    (releaseActuation store actuation consequence opts).Uses Op.ofStore := by
  unfold releaseActuation
  split
  · exact (store.releaseActuation_uses actuation).bind fun _ => Program.uses_pure _
  · exact Program.uses_pure _

theorem removeAnchor_uses {anchor : Option Anchor} : (removeAnchor host anchor).Uses Op.ofStore := by
  cases anchor with
  | none => exact Program.uses_pure _
  | some anchor => exact ReceiptOutbox.remove_uses host anchor.1

theorem keeps_commitActuation {actuation : Actuation} {consequence : Consequence} {opts : Opts}
    {α : Type} {next : Unit → Bus α} (rest : Keeps command (next ()) history) :
    Keeps command (commitActuation store actuation receipt consequence opts >>= next) history := by
  have hidden : ∀ delays, (commitActuationWithRetries store actuation receipt delays).Uses
      fun op => decisive op = false := by
    intro delays
    have once := (store.commitActuation_uses actuation receipt).weaken ofStore_not_decisive
    induction delays with
    | nil => exact once.bind fun _ => Program.uses_pure _
    | cons delay delays ih =>
      apply once.bind
      rintro (_ | _ | _ | _)
      case some.ok => exact Program.uses_pure _
      all_goals
        refine Program.Uses.bind (Program.uses_ask ?_) fun _ => ih
        rfl
  unfold commitActuation
  split
  · exact (hidden _).along_bind fun _ => rest
  · exact rest

theorem keeps_commitReceipt (judged : Judged command target history entered fine)
    (reads : RefusedMeansStopped entered receipt ↔ fine) (opts : Opts) :
    Keeps command (commitReceipt host store receipt opts) history := by
  apply keeps_bind (keeps_commitWithRetries reads judged.closing _)
  rintro (reason | _) history
  · apply keeps_after (ReceiptOutbox.append_uses host receipt)
    rintro (error | _)
    · apply keeps_after (ReceiptOutbox.anchored_uses host receipt)
      rintro (_ | _) <;> trivial
    · trivial
  · exact keeps_after (ReceiptOutbox.remove_uses host receipt) fun _ => trivial

/-! Each ending commits a receipt that reads right exactly if the answers were as expected. -/

theorem keeps_closeTimedOut {anchor : Anchor} {fault : Fault}
    (judged : Judged command target history True True) :
    Keeps command (closeTimedOut host store claimed anchor fault) history := by
  refine keeps_bind (keeps_commitWithRetries ?_ judged.closing _) fun _ _ => trivial
  have closed : (markStanding store.durable (Receipt.markUnknownOutcome host anchor.1 fault.code)).terminalStatus =
      some .unknownOutcome := by simp [Receipt.markUnknownOutcome]
  rw [reads_entered closed]
  decide

theorem keeps_closeObserved {anchor : Option Anchor} {reply : Reply}
    (judged : Judged command target history True (∀ fault, reply = .error fault → ¬ fault.Listed)) :
    Keeps command (closeObserved host store claimed anchor reply) history := by
  apply keeps_ask rfl
  intro (postcondition, verifier)
  apply keeps_finalOrReply
  intro observed status _
  apply keeps_commitActuation
  refine keeps_bind (keeps_commitReceipt judged ?_ _) fun _ _ => trivial
  rw [reads_entered (by rw [markStanding_terminalStatus, (applyToReceipt_keeps _).1, status])]
  simp [Reply.refused_iff]

theorem keeps_refuseBeforeDo {anchor : Option Anchor} {fault : Fault}
    (judged : Judged command target history False fault.Listed) :
    Keeps command (refuseBeforeDo host store claimed anchor fault) history := by
  apply keeps_after removeAnchor_uses
  intro _
  apply keeps_after releaseActuation_uses
  intro _
  apply keeps_finalOrReply
  intro refused status outcome
  refine keeps_bind (keeps_commitWithRetries ?_ judged.closing _) fun _ _ => trivial
  exact reads_stopped (by rw [markStanding_terminalStatus, status]) (by rw [markStanding_metadata, outcome])

theorem keeps_refuseUnanchored {reason : ReceiptOutbox.FileError}
    (judged : Judged command target history False True) :
    Keeps command (refuseUnanchored host store claimed reason) history := by
  apply keeps_after releaseActuation_uses
  intro _
  apply keeps_fromReply
  intro refused status outcome
  refine keeps_bind (keeps_commitWithRetries (reads_stopped
    (by rw [markStanding_terminalStatus, status]) (by rw [markStanding_metadata, outcome]))
    (judged.congr ?_).closing _) fun _ _ => trivial
  exact (iff_true_intro ⟨.receiptAnchorUnavailable, by decide, rfl⟩).symm

theorem keeps_refuseActuation {code : Code} (listed : code ∈ preDoRefusalCodes)
    (judged : Judged command target history False True) :
    Keeps command (refuseActuation host store claimed code) history := by
  apply keeps_fromReply
  intro refused status outcome
  refine keeps_bind (keeps_commitWithRetries (reads_stopped
    (by rw [markStanding_terminalStatus, status]) (by rw [markStanding_metadata, outcome]))
    (judged.congr ?_).closing _) fun _ _ => trivial
  refine (iff_true_intro ⟨code, listed, ?_⟩).symm
  unfold actuationRefusal
  split <;> rfl

theorem keeps_closeClaimAsDuplicate {prior : Receipt}
    (judged : Judged command target history False (prior.terminalStatus ≠ some .refused)) :
    Keeps command (closeClaimAsDuplicate host store claimed prior) history := by
  apply keeps_stamp
  intro stamp
  apply keeps_stamp
  intro later
  refine keeps_bind (keeps_commitWithRetries (reads_duplicate prior ?_ ?_) judged.closing _) fun _ _ => trivial
  · simp [duplicateReceipt, deduplicate]
  · simp [duplicateReceipt, deduplicate]

/-! ## The run -/

theorem keeps_executeAnchored {anchor : Option Anchor} (same : claimed.command = command)
    (judged : Judged command target history False True) :
    Keeps command (executeAnchored host store claimed anchor) history := by
  subst same
  apply Program.along_ask rfl
  intro reply
  have entered := judged.dispatch claimed.executionId (anchor.map Subtype.val) reply
  refine ⟨entered.faithful, ?_⟩
  split
  · exact keeps_closeTimedOut (entered.congr (by simp [Fault.Listed, preDoRefusalCodes]))
  · exact keeps_closeTimedOut (entered.congr (by simp [Fault.Listed, preDoRefusalCodes]))
  · exact keeps_closeObserved entered

theorem keeps_executePrepared {anchor : Option Anchor} (same : claimed.command = command)
    (resolved : claimed.target = target) (judged : Judged command target history False True) :
    Keeps command (executePrepared host store claimed anchor) history := by
  have confirmed : (confirmExecution store claimed anchor).Uses Op.ofStore := by
    cases anchor with
    | none => exact Program.uses_pure _
    | some anchor =>
      apply (store.confirmClaim_uses _ _).bind
      rintro (_ | _ | _) <;> exact Program.uses_pure _
  apply keeps_after confirmed
  rintro (_ | code)
  · apply Program.along_ask (by rw [same]; rfl)
    intro answers
    subst same resolved
    have consulted := judged.consult answers
    refine ⟨consulted.faithful, ?_⟩
    cases gate : preDoGate claimed.command claimed.consequence answers with
    | none => exact keeps_executeAnchored rfl (consulted.congr (by simp [gate]))
    | some fault => exact keeps_refuseBeforeDo (consulted.congr (by simp [gate]))
  · exact keeps_after removeAnchor_uses fun _ => keeps_after releaseActuation_uses fun _ => trivial

theorem keeps_dispatchActuationClaimed (same : claimed.command = command)
    (resolved : claimed.target = target) (judged : Judged command target history False True) :
    Keeps command (dispatchActuationClaimed host store claimed) history := by
  have prepared : (prepareReceiptAnchor host claimed).Uses Op.ofStore := by
    unfold prepareReceiptAnchor
    split
    · apply ReceiptOutbox.uses_stamp.bind
      intro stamp
      apply (ReceiptOutbox.append_uses host _).bind
      rintro (error | _) <;> exact Program.uses_pure _
    · exact Program.uses_pure _
  apply keeps_after prepared
  rintro (reason | anchor)
  · exact keeps_refuseUnanchored judged
  · exact keeps_executePrepared same resolved judged

theorem keeps_executeClaimed {executionId : Identity .execution} {opts : Opts}
    (judged : Judged command target history False True) :
    Keeps command (executeClaimed host store command executionId target opts) history := by
  unfold executeClaimed claimActuation
  dsimp only
  split
  · rw [Program.bind_assoc]
    apply keeps_after (store.claimActuation_uses _ _ _)
    intro reply
    apply Program.along_ask rfl
    intro _
    have responded := judged.responded reply
    refine ⟨responded.faithful, ?_⟩
    rcases reply with _ | _ | prior | _ | _
    · exact keeps_refuseActuation (by decide) (responded.congr (by simp [Expected]))
    · exact keeps_dispatchActuationClaimed rfl rfl (responded.congr (by simp [Expected]))
    · exact keeps_closeClaimAsDuplicate responded
    · exact keeps_refuseActuation (by decide) (responded.congr (by simp [Expected]))
    · exact keeps_refuseActuation (by decide) (responded.congr (by simp [Expected]))
  · exact keeps_dispatchActuationClaimed rfl rfl judged

theorem keeps_run {opts : Opts} : Keeps command (run host store command opts) [] := by
  have drained : (maybeReconcileOutbox host store opts.leaseMs).Uses Op.ofStore := by
    apply (ReceiptOutbox.entryNames_uses.bind fun _ => Program.uses_pure _).bind
    intro entries
    split
    · exact ReceiptOutbox.reconcile_uses.bind fun _ => Program.uses_pure _
    · exact Program.uses_pure _
  apply keeps_after drained
  intro _
  apply Program.along_ask rfl
  rintro (fault | target)
  · exact ⟨faithful_of_uncommitted (by simp [Committed]), trivial⟩
  have judged : Judged command target _ False True := .start
  refine ⟨judged.faithful, ?_⟩
  dsimp only
  split
  · trivial
  apply keeps_ask rfl
  rintro (_ | fault)
  · apply keeps_after (store.claim_uses _ _)
    rintro (_ | _ | _ | _ | _)
    case some.execute => exact keeps_executeClaimed judged
    all_goals trivial
  · trivial

/-- On every path of a run, up to a crash at any point: a receipt it commits tells a refusal
from an entered DO exactly if every gate refusal carries a listed code, the dispatcher answers
with no listed code, and a duplicate does not repeat a refusal. -/
theorem refusedMeansStopped_iff (host : Host) (store : Store) (command : Command) (opts : Opts)
    {history : History} {rest : Bus Result} {target : Target} {receipt : Receipt}
    (takes : (run host store command opts).Takes history rest)
    (resolved : ⟨.target command, .ok target⟩ ∈ history) (committed : Committed history receipt) :
    RefusedMeansStopped (Entered history) receipt ↔
      ∀ exchange ∈ history, Expected command target.consequence exchange := by
  have faithful := keeps_run.takes (faithful_of_uncommitted (by simp [Committed])) takes target receipt
    (List.mem_filter.mpr ⟨resolved, rfl⟩) (List.mem_filter.mpr ⟨committed, rfl⟩)
  have entered : Entered (history.filter fun exchange => decisive exchange.op) ↔ Entered history := by
    simp [Entered, decisive]
  rw [← propext entered, faithful]
  constructor
  · intro expected exchange member
    by_cases visible : decisive exchange.op = true
    · exact expected exchange (List.mem_filter.mpr ⟨member, visible⟩)
    · rcases exchange with ⟨op, reply⟩
      cases op <;> trivial
  · intro expected exchange member
    exact expected exchange (List.mem_filter.mp member).1

def authorizedTransfer : Command :=
  { Receipt.transferCommand with
    authority := some ⟨⟨"token"⟩, ⟨"principal"⟩, "Account.transfer", "host", 0, none, none, .nil, []⟩ }

def transferTarget : Target := { consequence := .change, authorityAdmits := true }

/-- A run over an empty store and an empty journal that the gate refuses: every request is
served, and the gate is answered like this. -/
def refusedBy (answers : GateAnswers) : List Choice :=
  [.served, .target (.ok transferTarget), .entryGates none] ++ List.replicate 8 .served ++
    [.consult answers] ++ List.replicate 6 .served

/-- Such a run, and the receipt whose commit its last exchange confirms. -/
structure Refused (answers : GateAnswers) (history : History) (receipt : Receipt) : Prop where
  takes : ∃ rest, (run Receipt.keyedHost (memoryStore Receipt.keyedHost) authorizedTransfer
    { leaseMs := 0 }).Takes history rest
  committed : Committed history receipt
  confirmed : ⟨.memory (.commit receipt), some .ok⟩ ∈ history
  resolved : ⟨.target authorizedTransfer, .ok transferTarget⟩ ∈ history

theorem refused_of_serve {answers : GateAnswers} {history : History} {receipt : Receipt}
    {rest : Bus Result} {world : World}
    (served : machine.serve 0 (refusedBy answers)
      (run Receipt.keyedHost (memoryStore Receipt.keyedHost) authorizedTransfer { leaseMs := 0 }) {} [] =
        some (rest, world, history))
    (last : history[0]? = some ⟨.memory (.commit receipt), some .ok⟩)
    (before : history[1]? = some ⟨.mark (.committing receipt), ()⟩)
    (second : history[16]? = some ⟨.target authorizedTransfer, .ok transferTarget⟩) :
    Refused answers history receipt :=
  ⟨⟨rest, Machine.serve_takes .start served⟩, List.mem_of_getElem? before, List.mem_of_getElem? last,
    List.mem_of_getElem? second⟩

/-- A broker that has revoked the authority refuses the run before DO, and the run is
recorded as failed. -/
theorem revoked_recorded_failed :
    ¬ ∀ (host : Host) (command : Command) (opts : Opts) (history : History) (rest : Bus Result)
      (target : Target) (receipt : Receipt),
      (run host (memoryStore host) command opts).Takes history rest →
      ⟨.target command, .ok target⟩ ∈ history → target.consequence.bearing = true →
      Committed history receipt → ⟨.memory (.commit receipt), some .ok⟩ ∈ history →
      RefusedMeansStopped (Entered history) receipt := by
  intro claim
  have revoked : ∃ history receipt, Refused { broker := some .revoked } history receipt ∧
      receipt.terminalStatus = some .failed ∧ receipt.metadata.outcome = some .observed ∧
      history.all (fun exchange => !exchange.op.isDispatch) = true :=
    ⟨_, _, refused_of_serve rfl rfl rfl rfl, rfl, rfl, rfl⟩
  obtain ⟨history, receipt, ⟨⟨rest, takes⟩, committed, confirmed, resolved⟩, failed, observed, idle⟩ :=
    revoked
  have reads := claim _ _ _ history rest transferTarget receipt takes resolved rfl committed confirmed
  refine reads.stopped_not_failed ⟨?_, by simp [observed]⟩ failed
  rintro ⟨command, executionId, anchor, reply, member⟩
  exact absurd (List.all_eq_true.mp idle _ member) (by simp [Op.isDispatch])

/-- The kill switch stops the run with a listed code. -/
theorem refusedMeansStopped_iff_tripped :
    ∃ history receipt, Refused { killSwitch := .tripped (.atom "drill") } history receipt ∧
      (RefusedMeansStopped (Entered history) receipt ↔
        ∀ exchange ∈ history, Expected authorizedTransfer transferTarget.consequence exchange) := by
  have tripped : ∃ history receipt, Refused { killSwitch := .tripped (.atom "drill") } history receipt :=
    ⟨_, _, refused_of_serve rfl rfl rfl rfl⟩
  obtain ⟨history, receipt, refused⟩ := tripped
  obtain ⟨rest, takes⟩ := refused.takes
  exact ⟨history, receipt, refused, refusedMeansStopped_iff Receipt.keyedHost
    (memoryStore Receipt.keyedHost) authorizedTransfer { leaseMs := 0 } takes refused.resolved refused.committed⟩

end CommandBus

end AshA2A
