import AshA2A.CommandBus.Gate
import AshA2A.Concurrency.Program
import AshA2A.Postcondition
import AshA2A.ReceiptOutbox.Journal
import AshA2A.ReceiptStore
import AshA2A.ReceiptStore.Memory
import Mathlib.Logic.Function.Basic

/-! The versioned keys under the cluster-wide store. Every operation is atomic; a write that
names a version takes effect only at that version. -/

namespace AshA2A.ReceiptStore

structure Storage where
  claims : Identity .command → Option (Claim × Nat) := fun _ => none
  actuations : Identity .actuation → Option (ActuationClaim × Nat) := fun _ => none
  /-- Versions are never used twice. -/
  version : Nat := 0

inductive PutReply where
  | ok | conflict
  deriving Repr, DecidableEq

inductive StorageCall where
  | getClaim (key : Identity .command)
  | lookupClaim (key : Identity .command)
  | putClaim (key : Identity .command) (entry : Claim) (ifVsn : Option Nat)
  | getActuation (key : Identity .actuation)
  | lookupActuation (key : Identity .actuation)
  | putActuation (key : Identity .actuation) (entry : ActuationClaim) (ifVsn : Option Nat)
  | deleteActuation (key : Identity .actuation) (ifVsn : Nat)

abbrev StorageCall.Reply : StorageCall → Type
  | .getClaim _ => Option Claim
  | .lookupClaim _ => Option (Claim × Nat)
  | .getActuation _ => Option ActuationClaim
  | .lookupActuation _ => Option (ActuationClaim × Nat)
  | .putClaim _ _ _ | .putActuation _ _ _ | .deleteActuation _ _ => PutReply

def Storage.serve (storage : Storage) : (call : StorageCall) → call.Reply × Storage
  | .getClaim key => ((storage.claims key).map (·.1), storage)
  | .lookupClaim key => (storage.claims key, storage)
  | .putClaim key entry ifVsn =>
    if (storage.claims key).map (·.2) = ifVsn then
      (.ok, { storage with
        claims := Function.update storage.claims key (some (entry, storage.version))
        version := storage.version + 1 })
    else (.conflict, storage)
  | .getActuation key => ((storage.actuations key).map (·.1), storage)
  | .lookupActuation key => (storage.actuations key, storage)
  | .putActuation key entry ifVsn =>
    if (storage.actuations key).map (·.2) = ifVsn then
      (.ok, { storage with
        actuations := Function.update storage.actuations key (some (entry, storage.version))
        version := storage.version + 1 })
    else (.conflict, storage)
  | .deleteActuation key ifVsn =>
    if (storage.actuations key).map (·.2) = some ifVsn then
      (.ok, { storage with actuations := Function.update storage.actuations key none })
    else (.conflict, storage)

end AshA2A.ReceiptStore

/-! What the code asks of its surroundings, one atomic request at a time, and the
surroundings themselves: the two stores, the journal directory, the clock. -/

namespace AshA2A

open Concurrency ReceiptStore ReceiptOutbox CommandBus

/-- Points of a process that only the reader of a run cares about. -/
inductive Mark where
  /-- The command bus hands this receipt to the store. -/
  | committing (receipt : Receipt)
  | begun
  | classified (notAttempted : Bool)
  | invoked
  | responded (reply : Option ActuationReply)
  deriving Repr, DecidableEq

inductive Op where
  | memory (call : MemoryCall)
  | storage (call : StorageCall)
  | file (call : FileCall)
  | stamp
  /-- The target, its release closure, the plan step: everything before admission. -/
  | target (command : Command)
  /-- The kill switch and the lease gate, before the claim. -/
  | entryGates (command : Command)
  | consult (command : Command)
  /-- DO. -/
  | dispatch (command : Command) (executionId : Identity .execution) (anchor : Option Receipt)
  /-- The declared postcondition, and a verifier that reads the state after DO. -/
  | observe (command : Command) (report : Reply)
  | probe (receipt : Receipt)
  | elapse (ms : Nat)
  | mark (mark : Mark)

/-- A call of the in-memory store that exits is answered by `none`; so is a refusal that did
not happen. -/
abbrev Op.Reply : Op → Type
  | .memory call => Option call.Reply
  | .storage call => call.Reply
  | .file call => call.Reply
  | .stamp => Stamp
  | .target _ => Except Fault Target
  | .entryGates _ => Option Fault
  | .consult _ => GateAnswers
  | .dispatch _ _ _ => AshA2A.Reply
  | .observe _ _ => Option Postcondition × Postcondition.Verifier
  | .probe _ => Option (Receipt.ResolvedAs × Term)
  | .elapse _ | .mark _ => Unit

/-- What a store may ask for. -/
def Op.ofStore : Op → Prop
  | .memory _ | .storage _ | .file _ | .stamp => True
  | _ => False

def Op.isDispatch : Op → Bool
  | .dispatch _ _ _ => true
  | _ => false

/-- The dispatch of a consequence: it carries the receipt anchored for it. -/
def Op.entersDo : Op → Bool
  | .dispatch _ _ (some _) => true
  | _ => false

/-- Code that runs in this environment. -/
abbrev Bus (α : Type) := Program Op Op.Reply α

abbrev Pid := Nat

/-- What a request meets that is not decided by the code. -/
inductive Choice where
  | served
  /-- The call of the store exits and has no effect. -/
  | unavailable
  /-- The call takes effect, but its caller does not learn of it. -/
  | lost
  /-- The file operation fails. -/
  | fault
  | target (answer : Except Fault Target)
  | entryGates (answer : Option Fault)
  | consult (answers : GateAnswers)
  | dispatch (reply : Reply)
  | observe (postcondition : Option Postcondition) (verifier : Postcondition.Verifier)
  | probe (answer : Option (Receipt.ResolvedAs × Term))

structure World where
  memory : Memory := {}
  /-- The process on whose behalf the server is looking at the journal. -/
  checking : Option Pid := none
  storage : Storage := {}
  directory : Directory := []
  clock : Nat := 0
  serial : Nat := 0

/-- Generated identifiers are fresh; nothing else about them matters. -/
def freshId (serial : Nat) : String := String.ofList (List.replicate serial 'x')

theorem freshId_injective : Function.Injective freshId := by
  intro left right same
  simpa [freshId] using congrArg (fun text => text.toList.length) same

namespace World

def stamp (world : World) : Stamp := ⟨freshId world.serial, world.clock, world.serial⟩

/-- The server serves one call after another. Once it looks at the journal it resumes the
same call: the steps in between are its own, and a caller that dies does not stop them. -/
def accepts (world : World) (pid : Pid) (call : MemoryCall) : Bool :=
  if call.resumes then world.checking = some pid else world.checking = none

def serveMemory (pid : Pid) (call : MemoryCall) (world : World) : call.Reply × World :=
  let (reply, memory) := world.memory.serve ⟨freshId world.serial⟩ world.clock call
  (reply, { world with
    memory := memory
    checking := if call.checks reply then some pid else none
    serial := world.serial + 1 })

end World

/-- One request. A choice that does not fit the request leaves it unserved. -/
def exec (pid : Pid) (op : Op) (choice : Choice) (world : World) : Option (op.Reply × World) :=
  match op, choice with
  | .memory call, .served =>
    if world.accepts pid call then
      let (reply, world) := world.serveMemory pid call
      some (some reply, world)
    else none
  | .memory call, .lost =>
    if world.accepts pid call then
      let (reply, world) := world.serveMemory pid call
      if call.checks reply then none else some (none, world)
    else none
  | .memory call, .unavailable => if call.resumes then none else some (none, world)
  | .storage call, .served =>
    let (reply, storage) := world.storage.serve call
    some (reply, { world with storage := storage })
  | .file call, .served =>
    let (reply, directory) := world.directory.serve call
    some (reply, { world with directory := directory })
  | .file call, .fault => some (call.fault, world)
  | .stamp, .served => some (world.stamp, { world with serial := world.serial + 1 })
  | .target _, .target answer => some (answer, world)
  | .entryGates _, .entryGates answer => some (answer, world)
  | .consult _, .consult answers => some (answers, world)
  | .dispatch _ _ _, .dispatch reply => some (reply, world)
  | .observe _ _, .observe postcondition verifier => some ((postcondition, verifier), world)
  | .probe _, .probe answer => some (answer, world)
  | .elapse ms, .served => some ((), { world with clock := world.clock + ms })
  | .mark _, .served => some ((), world)
  | _, _ => none

def machine : Machine Pid Op Op.Reply Choice World := ⟨exec⟩

namespace Bus

def memory (call : MemoryCall) : Bus (Option call.Reply) := Program.ask (Op.memory call)

def storage (call : StorageCall) : Bus call.Reply := Program.ask (Op.storage call)

def file (call : FileCall) : Bus call.Reply := Program.ask (Op.file call)

def stamp : Bus Stamp := Program.ask Op.stamp

def sleep (ms : Nat) : Bus Unit := Program.ask (Op.elapse ms)

def mark (mark : Mark) : Bus Unit := Program.ask (Op.mark mark)

end Bus

end AshA2A
