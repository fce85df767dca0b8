import AshA2A.Concurrency.Program
import AshA2A.Protocol.Task
import Mathlib.Data.List.Perm.Basic

/-! Suspended tasks are landed in a task store by the drains, and taken up from there by any peer. -/

namespace AshA2A.Cluster
open Protocol Concurrency

/-- A map the code builds, as a term. -/
def entriesOf : TermMap → Term
  | [] => .empty
  | (key, value) :: rest => .cons (.tuple (.cons key (.cons value .empty))) (entriesOf rest)

/-- `map[key]`. -/
def fieldOf (key : Term) : Term → Term
  | .map entries => within entries
  | _ => .nil
where within : Term → Term
  | .cons (.tuple (.cons name (.cons value .empty))) rest => if name = key then value else within rest
  | _ => .nil

/-! ## The store of tasks -/

/-- The stored tasks, one an id. -/
abbrev TaskStore := List Task

namespace TaskStore

def get (store : TaskStore) (taskId : String) : Option Task := store.find? fun task => task.id = taskId

def put (store : TaskStore) (task : Task) : TaskStore := task :: store.filter fun other => other.id ≠ task.id

/-- A task in a listing comes without its history and its artifacts. -/
def listed (task : Task) : Task := { task with history := [], artifacts := [] }

@[simp] theorem get_put (store : TaskStore) (task : Task) (taskId : String) :
    (store.put task).get taskId = if taskId = task.id then some task else store.get taskId := by
  unfold put get
  by_cases same : taskId = task.id
  · rw [if_pos same, List.find?_cons_of_pos (by simpa using same.symm)]
  · rw [if_neg same, List.find?_cons_of_neg (by simpa using fun eq : task.id = taskId => same eq.symm), List.find?_filter]
    congr 1
    funext other
    by_cases found : other.id = taskId
    · simp [found, same]
    · simp [found]

end TaskStore

/-! ## Requests -/

inductive Op where
  | list
  | get (taskId : String)
  | put (task : Task)
  | resume (task : Task) (frame : Term)
  | now
  deriving DecidableEq

abbrev Reply : Op → Type
  | .list => List Task
  | .get _ => Option Task
  | .put _ => Unit
  | .resume _ _ => Except Term Term
  | .now => Term

/-- The stored tasks in the order of a listing, what the resume function concludes with, and the time. -/
structure Choice where
  order : List Task := []
  outcome : Except Term Term := .ok .nil
  time : Term := .nil

/-- A listing goes by the time of the last change of status, of which nothing is assumed. -/
def exec (choice : Choice) (store : TaskStore) : (op : Op) → Option (Reply op × TaskStore)
  | .list =>
    if choice.order.Perm store then some ((choice.order.take 100000).map TaskStore.listed, store) else none
  | .get taskId => some (store.get taskId, store)
  | .put task => some ((), store.put task)
  | .resume _ _ => some (choice.outcome, store)
  | .now => some (choice.time, store)

def machine (Pid : Type) : Machine Pid Op Reply Choice TaskStore where
  exec _ op choice store := exec choice store op

abbrev Peer := Program Op Reply

namespace Store

def list : Peer (List Task) := Program.ask Op.list

def get (taskId : String) : Peer (Option Task) := Program.ask (Op.get taskId)

def put (task : Task) : Peer Unit := Program.ask (Op.put task)

end Store

def resumeFun (task : Task) (frame : Term) : Peer (Except Term Term) := Program.ask (Op.resume task frame)

def utcNow : Peer Term := Program.ask Op.now

/-! ## Checkpoints -/

namespace Checkpoint

def version : Int := 1

def metadataKey : Term := .binary "a2a.cluster.checkpoint"

def checkpointed (task : Task) : Bool := (task.metadata.get? metadataKey).isSome

def envelope (task : Task) : Option Term := task.metadata.get? metadataKey

def cleared (task : Task) : Task := { task with metadata := deleteKey task.metadata metadataKey }

structure Options where
  sequence : Term := .integer 1
  sourceNode : Term
  reason : Term := .atom "drain_deadline"
  drainManager : Term := .nil
  contextId : Option String := none
  metadata : TermMap := []

def fetchOrSynthesize (taskId : String) (opts : Options) : Peer Task := do
  match ← Store.get taskId with
  | some task => pure task
  | none => pure { Task.new taskId opts.contextId opts.metadata with status := ⟨.working, none⟩ }

def landedEnvelope (frame time : Term) (opts : Options) : Term :=
  .map (entriesOf [(.binary "version", .integer version), (.binary "frame", frame),
    (.binary "sequence", opts.sequence), (.binary "checkpointed_at", time),
    (.binary "source_node", opts.sourceNode), (.binary "reason", opts.reason),
    (.binary "drain_manager", opts.drainManager)])

/-- Credentials and streams do not land. -/
def suspended (task : Task) (envelope : Term) : Task :=
  { task with
    status := ⟨.working, none⟩
    metadata := deleteKey (deleteKey (task.metadata.put metadataKey envelope) (.binary "a2a.auth")) (.atom "stream") }

def land (taskId : String) (frame : Term) (opts : Options) : Peer Task := do
  let task ← fetchOrSynthesize taskId opts
  let time ← utcNow
  let checkpointed := suspended task (landedEnvelope frame time opts)
  Store.put checkpointed
  pure checkpointed

end Checkpoint

/-! ## Handover -/

namespace Handover
open Checkpoint

def resultMetadataKey : Term := .binary "a2a.cluster.result"

def result (task : Task) : Option Term := task.metadata.get? resultMetadataKey

structure Resumed where
  taskId : String
  result : Term

structure Failed where
  taskId : String
  reason : Term

def completed (task : Task) (result : Term) : Task :=
  { cleared task with
    status := ⟨.completed, none⟩
    metadata := (cleared task).metadata.put resultMetadataKey result }

def listCheckpointed : Peer (List Task) := do
  let tasks ← Store.list
  pure (tasks.filter checkpointed)

/-- A resume function that raises has answered with an error. -/
def rehydrateOne (task : Task) : Peer (Except Failed Resumed) :=
  match envelope task with
  | none => pure (.error ⟨task.id, .atom "missing_checkpoint_envelope"⟩)
  | some envelope => do
    match ← resumeFun task (fieldOf (.binary "frame") envelope) with
    | .error reason => pure (.error ⟨task.id, reason⟩)
    | .ok result =>
      Store.put (completed task result)
      pure (.ok ⟨task.id, result⟩)

def rehydrateEach : List Task → List Resumed × List Failed → Peer (List Resumed × List Failed)
  | [], done => pure done
  | task :: rest, (resumed, failed) => do
    match ← rehydrateOne task with
    | .ok entry => rehydrateEach rest (entry :: resumed, failed)
    | .error entry => rehydrateEach rest (resumed, entry :: failed)

def rehydrate : Peer (Except (List Failed) (List Resumed)) := do
  let checkpointed ← listCheckpointed
  let (resumed, failed) ← rehydrateEach checkpointed ([], [])
  match failed with
  | [] => pure (.ok resumed.reverse)
  | _ => pure (.error failed.reverse)

/-- What a process of the cluster does with the store. -/
inductive Job where
  | rehydrate
  | land (taskId : String) (frame : Term) (opts : Options)

def Job.program : Job → Peer Unit
  | .rehydrate => do
    let _ ← Handover.rehydrate
    pure ()
  | .land taskId frame opts => do
    let _ ← Checkpoint.land taskId frame opts
    pure ()

def work : List Job → Peer Unit
  | [] => pure ()
  | job :: rest => do
    job.program
    work rest

end Handover
end AshA2A.Cluster
