import AshA2A.Term
import Mathlib.Logic.Function.Basic

/-! A conversation: the turns of a task, and where it stands. -/

namespace AshA2A.Protocol

inductive Role where
  | user | agent
  deriving Repr, DecidableEq

/-- `Part.Text.new/1`. -/
def textPart (text : String) : Term :=
  .map (.cons (.tuple (.cons (.atom "text") (.cons (.binary text) .empty))) .empty)

structure Message where
  messageId : String
  role : Role
  parts : List Term
  contextId : Option String := none
  deriving Repr, DecidableEq

/-- The id is generated. -/
def Message.newAgent (messageId : String) (parts : List Term) : Message := { messageId, role := .agent, parts }

structure Artifact where
  artifactId : String
  parts : List Term
  deriving Repr, DecidableEq

inductive TaskState where
  | submitted | working | inputRequired | completed | canceled | failed | rejected | authRequired | unknown
  deriving Repr, DecidableEq

/-- Refused at admission is terminal; waiting for input or credentials is not. -/
def TaskState.terminal : TaskState → Bool
  | .completed | .canceled | .failed | .rejected => true
  | _ => false

structure Status where
  state : TaskState
  message : Option Message := none
  deriving Repr, DecidableEq

structure Task where
  id : String
  contextId : Option String
  status : Status
  history : List Message := []
  artifacts : List Artifact := []
  metadata : TermMap := []
  deriving Repr, DecidableEq

/-- `Map.delete/2`. -/
def deleteKey (metadata : TermMap) (key : Term) : TermMap := metadata.filter fun entry => entry.1 ≠ key

theorem get?_deleteKey (metadata : TermMap) {key other : Term} (different : other ≠ key) :
    (deleteKey metadata key).get? other = metadata.get? other := lookup_others metadata different

theorem get?_deleteKey_self (metadata : TermMap) (key : Term) : (deleteKey metadata key).get? key = none :=
  List.lookup_eq_none_iff.mpr fun _ kept =>
    bne_iff_ne.mpr (Ne.symm (of_decide_eq_true (List.mem_filter.mp kept).2))

namespace Task

def terminal (task : Task) : Bool := task.status.state.terminal

def new (id : String) (contextId : Option String) (metadata : TermMap) : Task :=
  { id, contextId, status := ⟨.submitted, none⟩, metadata }

def transition (task : Task) (newState : TaskState) (message : Option Message) : Task :=
  { task with status := ⟨newState, message⟩ }

@[simp] theorem transition_state (task : Task) (newState : TaskState) (message : Option Message) :
    (task.transition newState message).status.state = newState := rfl

@[simp] theorem transition_history (task : Task) (newState : TaskState) (message : Option Message) :
    (task.transition newState message).history = task.history := rfl

@[simp] theorem transition_id (task : Task) (newState : TaskState) (message : Option Message) :
    (task.transition newState message).id = task.id := rfl

end Task

/-! ## Stored tasks -/

/-- The tasks in memory go before those of the store, if there is one. -/
structure State where
  tasks : String → Option Task := fun _ => none
  contexts : String → Option (List String) := fun _ => none
  taskStore : Option (String → Option Task) := none

namespace State

def getTask (state : State) (taskId : String) : Option Task :=
  match state.tasks taskId with
  | some task => some task
  | none => state.taskStore.bind fun store => store taskId

def putTask (state : State) (task : Task) : State :=
  { state with
    tasks := Function.update state.tasks task.id (some task)
    taskStore := state.taskStore.map fun store => Function.update store task.id (some task) }

def trackContext (state : State) (task : Task) : State :=
  match task.contextId with
  | none => state
  | some contextId =>
    { state with
      contexts := Function.update state.contexts contextId (some (task.id :: (state.contexts contextId).getD [])) }

@[simp] theorem getTask_trackContext (state : State) (task : Task) (taskId : String) :
    (state.trackContext task).getTask taskId = state.getTask taskId := by
  unfold trackContext
  cases task.contextId <;> rfl

@[simp] theorem getTask_putTask (state : State) (task : Task) (taskId : String) :
    (state.putTask task).getTask taskId = if taskId = task.id then some task else state.getTask taskId := by
  unfold putTask getTask
  by_cases same : taskId = task.id
  · simp [same]
  · rw [if_neg same]
    simp only [Function.update_of_ne same]
    cases state.tasks taskId with
    | some found => rfl
    | none => cases state.taskStore <;> simp [Function.update_of_ne same]

/-- A task is stored under its own id. -/
def Keyed (state : State) : Prop := ∀ taskId task, state.getTask taskId = some task → task.id = taskId

theorem Keyed.putTask {state : State} (keyed : Keyed state) (task : Task) : Keyed (state.putTask task) := by
  intro taskId found stored
  rw [getTask_putTask] at stored
  split at stored
  case isTrue same =>
    cases stored
    exact same.symm
  case isFalse => exact keyed taskId found stored

theorem Keyed.trackContext {state : State} (keyed : Keyed state) (task : Task) : Keyed (state.trackContext task) := by
  intro taskId found stored
  rw [getTask_trackContext] at stored
  exact keyed taskId found stored

end State
end AshA2A.Protocol
