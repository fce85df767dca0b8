import AshA2A.Term
import Mathlib.Data.List.Perm.Basic

/-! The two phases of a drain: no new task is tracked after the cordon, and what is still
tracked at the deadline is checkpointed. -/

namespace AshA2A.Cluster

structure DrainManager.Entry where
  monitorRef : Nat
  pid : Nat
  frame : Term
  deriving Repr, DecidableEq

inductive DrainManager.Phase where
  | serving | cordoned | draining | exiting
  deriving Repr, DecidableEq

/-- The tracked tasks, one entry a task id. -/
abbrev DrainManager.Tracked := List (String × DrainManager.Entry)

structure DrainManager where
  /-- Whether a task store is configured. -/
  taskStore : Bool
  drainTimeoutMs : Nat := 25000
  haltAfterDrain : Bool := false
  deadline : Option Int := none
  cordonAt : Option Int := none
  drainedAt : Option Int := none
  phase : DrainManager.Phase := .serving
  tracked : DrainManager.Tracked := []
  finished : List (String × Term) := []
  checkpointed : List String := []
  deriving Repr, DecidableEq

namespace DrainManager

/-- The order in which the entries of a map are enumerated is not specified. -/
structure Order where
  list : Tracked → Tracked
  perm : ∀ tracked, (list tracked).Perm tracked

def delete (tracked : Tracked) (taskId : String) : Tracked := tracked.filter fun task => task.1 ≠ taskId

def put (tracked : Tracked) (taskId : String) (entry : Entry) : Tracked := (taskId, entry) :: delete tracked taskId

inductive Refusal where
  | cordoned | alreadyDraining
  deriving Repr, DecidableEq

/-- `monitorRef` is the reference of the new monitor. It is only taken while serving. -/
def track (manager : DrainManager) (taskId : String) (pid : Nat) (frame : Term) (monitorRef : Nat) :
    Except Refusal DrainManager :=
  if manager.phase = .serving then
    .ok { manager with tracked := put manager.tracked taskId ⟨monitorRef, pid, frame⟩ }
  else .error .cordoned

def updateFrame (manager : DrainManager) (taskId : String) (frame : Term) : DrainManager :=
  match manager.tracked.lookup taskId with
  | some entry => { manager with tracked := put manager.tracked taskId { entry with frame } }
  | none => manager

/-- With the reference that is demonitored and flushed. -/
def releaseTask (manager : DrainManager) (taskId : String) (reason : Term) : Option Nat × DrainManager :=
  match manager.tracked.lookup taskId with
  | none => (none, manager)
  | some entry =>
    (some entry.monitorRef,
      { manager with
        tracked := delete manager.tracked taskId
        finished := (taskId, reason) :: manager.finished.filter fun done => done.1 ≠ taskId })

def beginDrain (manager : DrainManager) (halt : Bool) (now : Int) : DrainManager :=
  { manager with
    phase := .cordoned
    cordonAt := some now
    deadline := some (now + manager.drainTimeoutMs)
    haltAfterDrain := manager.haltAfterDrain || halt }

def drain (manager : DrainManager) (halt : Bool) (now : Int) : Except Refusal DrainManager :=
  if manager.phase = .serving then .ok (manager.beginDrain halt now) else .error .alreadyDraining

def sigterm (manager : DrainManager) (now : Int) : DrainManager :=
  if manager.phase = .serving then manager.beginDrain false now else manager

/-- The task whose process is down is found by the process, not by the reference. -/
def down (order : Order) (manager : DrainManager) (pid : Nat) (reason : Term) : Option Nat × DrainManager :=
  match (order.list manager.tracked).find? fun task => task.2.pid = pid with
  | some (taskId, _) => manager.releaseTask taskId reason
  | none => (none, manager)

/-- What a sweep over the tracked tasks has done so far, with what the store has taken. -/
structure Sweep where
  checkpointed : List String := []
  tracked : Tracked
  landed : List String

/-- A landing that fails raises: the sweep ends there. -/
def sweep (taskStore : Bool) (lands : String → Bool) : Tracked → Sweep → Sweep × Bool
  | [], swept => (swept, true)
  | (taskId, _) :: rest, swept =>
    if taskStore then
      if lands taskId then
        sweep taskStore lands rest
          ⟨taskId :: swept.checkpointed, delete swept.tracked taskId, taskId :: swept.landed⟩
      else (swept, false)
    else sweep taskStore lands rest { swept with tracked := delete swept.tracked taskId }

/-- No integer reaches a deadline that is not set. -/
def due (manager : DrainManager) (now : Int) : Bool :=
  manager.tracked.isEmpty || match manager.deadline with
    | some deadline => decide (deadline ≤ now)
    | none => false

end DrainManager

/-! ## The manager among its tasks -/

inductive Stop where
  | shutdown | crashed
  deriving Repr, DecidableEq

/-- The manager, the monitors that can still report, whether a tick is on its way, and beside
them what is only kept for the reader of a run: the tasks tracked at the cordon, those that
have concluded since they were tracked, and what the store took. -/
structure Node where
  manager : DrainManager
  stopped : Option Stop := none
  monitors : List (Nat × Nat) := []
  nextRef : Nat := 0
  ticking : Bool := false
  atCordon : List String := []
  concluded : List String := []
  landed : List String := []

namespace Node
open DrainManager

inductive Event where
  | track (taskId : String) (pid : Nat) (frame : Term)
  | updateFrame (taskId : String) (frame : Term)
  | release (taskId : String)
  | drain (halt : Bool) (now : Int)
  | sigterm (now : Int)
  /-- With the landings that succeed. -/
  | drainTick (now : Int) (lands : String → Bool)
  | down (ref pid : Nat) (reason : Term)

def taskIds (tracked : Tracked) : List String := tracked.map Prod.fst

def demonitor (monitors : List (Nat × Nat)) : Option Nat → List (Nat × Nat)
  | some ref => monitors.filter fun monitor => monitor.1 ≠ ref
  | none => monitors

/-- The cordon, with the first tick on its way. -/
def cordon (node : Node) (manager : DrainManager) : Node :=
  { node with manager, ticking := true, atCordon := taskIds node.manager.tracked }

def finishDrain (order : Order) (node : Node) (now : Int) (lands : String → Bool) : Node :=
  let manager := node.manager
  match sweep manager.taskStore lands (order.list manager.tracked)
      { tracked := manager.tracked, landed := node.landed } with
  | (swept, true) =>
    { node with
      manager := { manager with
        tracked := swept.tracked
        phase := .exiting
        drainedAt := some now
        checkpointed := swept.checkpointed }
      landed := swept.landed
      ticking := false
      stopped := if manager.haltAfterDrain then none else some .shutdown }
  | (swept, false) => { node with landed := swept.landed, ticking := false, stopped := some .crashed }

/-- A task has concluded when it is released, or when the monitor of its own reports. -/
def handle (order : Order) (node : Node) : Event → Node
  | .track taskId pid frame =>
    match node.manager.track taskId pid frame node.nextRef with
    | .ok manager =>
      { node with
        manager
        monitors := (node.nextRef, pid) :: node.monitors
        nextRef := node.nextRef + 1
        concluded := node.concluded.filter (· ≠ taskId) }
    | .error _ => node
  | .updateFrame taskId frame => { node with manager := node.manager.updateFrame taskId frame }
  | .release taskId =>
    let (ref, manager) := node.manager.releaseTask taskId (.atom "released")
    { node with
      manager
      monitors := demonitor node.monitors ref
      concluded := (taskIds node.manager.tracked).filter (· = taskId) ++ node.concluded }
  | .drain halt now =>
    match node.manager.drain halt now with
    | .ok manager => node.cordon manager
    | .error _ => node
  | .sigterm now =>
    if node.manager.phase = .serving then node.cordon (node.manager.sigterm now)
    else { node with manager := node.manager.sigterm now }
  | .drainTick now lands => if node.manager.due now then node.finishDrain order now lands else node
  | .down ref pid reason =>
    let (flushed, manager) := node.manager.down order pid reason
    { node with
      manager
      monitors := (demonitor node.monitors (some ref)).filter fun monitor => some monitor.1 ≠ flushed
      concluded :=
        (node.manager.tracked.filter fun task => task.2.monitorRef = ref ∨ some task.2.monitorRef = flushed).map
          Prod.fst ++ node.concluded }

/-- Nothing is handled after the process has ended. -/
def apply (order : Order) (node : Node) (event : Event) : Node :=
  if node.stopped = none then node.handle order event else node

/-- A monitor reports once, and a tick comes after the cordon. -/
def Possible (node : Node) : Event → Prop
  | .drainTick _ _ => node.ticking = true
  | .down ref pid _ => (ref, pid) ∈ node.monitors
  | _ => True

end Node
end AshA2A.Cluster
