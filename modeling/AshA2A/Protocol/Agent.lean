import AshA2A.Protocol.Agent.Runtime

/-! The server of an agent. A message is handled by a worker, on the task as it stood when the
message came; what the worker sends back is stored when it arrives. -/

namespace AshA2A.Protocol

namespace Agent
open Agent.Runtime

inductive Job where
  | new (message : Message) (contextId : Option String) (metadata : TermMap)
  | continue (message : Message) (task : Task)
  deriving Repr, DecidableEq

def Job.message : Job → Message
  | .new message _ _ | .continue message _ => message

structure Worker where
  taskId : Option String
  job : Job
  deriving Repr, DecidableEq

/-- What a message call is answered. -/
inductive Answer where
  | task (task : Task)
  | message (message : Message)
  | notFound
  | refused (error : ContinueError)
  /-- An internal error, as far as the caller may see it. -/
  | error (error : Term)
  deriving Repr, DecidableEq

inductive CancelError where
  | notCancelable | notFound
  | hook (reason : Term)
  deriving Repr, DecidableEq

variable (host : Host)

/-- Where a worker computes. -/
def runDefaultTask (job : Job) (reply : Reply) (ids : Ids) : Except ContinueError (Message ⊕ Task) :=
  match job with
  | .new message contextId metadata => .ok (processMessage host ids reply message contextId metadata)
  | .continue message task => (continueTask host ids reply message task).map .inr

/-- The stream with the hook that reports its end to the server. -/
def wrapStream (enum : Term) (taskId artifactId : String) : Term :=
  .tuple (.cons (.atom "wrapped") (.cons enum (.cons (.binary taskId) (.cons (.binary artifactId) .empty))))

def maybeWrapStream (ids : Ids) (task : Task) : Task :=
  match task.metadata.get? (.atom "stream") with
  | some enum =>
    let metadata := task.metadata.put (.atom "stream_artifact_id") (.binary ids.streamArtifact)
    { task with metadata := metadata.put (.atom "stream") (wrapStream enum task.id ids.streamArtifact) }
  | none => task

/-- The task that a worker sends is stored as it is. -/
def applyDefaultResult (ids : Ids) (result : Except ContinueError (Message ⊕ Task)) (state : State) :
    Answer × State :=
  match result with
  | .ok (.inl message) => (.message message, state)
  | .ok (.inr task) =>
    let task := maybeWrapStream ids task
    (.task task, (state.putTask task).trackContext task)
  | .error error => (.refused error, state)

/-- A worker that died fails the task it was continuing, unless that has ended another way. -/
def failWorkerTask (ids : Ids) (taskId : Option String) (error : Term) (state : State) : Answer × State :=
  match taskId.bind state.getTask with
  | some task =>
    if task.terminal then (.task task, state)
    else
      let message := Message.newAgent ids.message [textPart ("Error: " ++ host.inspect (host.redact error))]
      let task := task.transition .failed (some message)
      (.task task, state.putTask task)
  | none => (.error error, state)

/-- `hook` is what the agent's own `handle_cancel` returns. -/
def cancel (taskId : String) (hook : Except Term Unit) (state : State) : Except CancelError Unit × State :=
  match state.getTask taskId with
  | none => (.error .notFound, state)
  | some task =>
    if task.status.state = .canceled then (.ok (), state)
    else if task.status.state ∈ [.completed, .failed, .rejected] then (.error .notCancelable, state)
    else
      match hook with
      | .ok () => (.ok (), state.putTask (task.transition .canceled none))
      | .error reason => (.error (.hook reason), state)

/-- Whether the stream ran to its end. -/
def outcomeState (complete : Bool) : TaskState := if complete then .completed else .failed

/-- The parts a stream emitted are folded into the task as it is stored. -/
def streamDone (ids : Ids) (taskId : String) (artifactId : Option String) (parts : List Term) (complete : Bool)
    (state : State) : State :=
  match state.getTask taskId with
  | some task =>
    let artifact : Artifact := ⟨artifactId.getD ids.artifact, parts⟩
    let task : Task := { task with
      artifacts := task.artifacts ++ [artifact]
      history := task.history ++ [.newAgent ids.message parts]
      metadata := deleteKey task.metadata (.atom "stream") }
    state.putTask (task.transition (outcomeState complete) none)
  | none => state

end Agent

/-- A call that was answered with the task its worker made, and how many calls the server had
accepted when it stored that task. -/
structure Agent.Turn where
  taskId : String
  call : Nat
  message : Message
  stored : Nat
  deriving Repr, DecidableEq

/-- The server with its table of workers. A call is known by its number, and a worker by the
call it works for. The answers and the turns are kept beside them, newest first. -/
structure Agent where
  state : State := {}
  workers : List (Nat × Agent.Worker) := []
  calls : Nat := 0
  answers : List (Nat × Agent.Answer) := []
  turns : List Agent.Turn := []

namespace Agent

inductive Event where
  | message (message : Message) (taskId contextId : Option String) (metadata : TermMap)
  | cancel (taskId : String) (hook : Except Term Unit)
  /-- A worker has sent its result: the handler's reply worked into its task. -/
  | done (call : Nat) (reply : Reply) (ids : Ids)
  | down (call : Nat) (error : Term) (ids : Ids)
  | streamDone (taskId : String) (artifactId : Option String) (parts : List Term) (complete : Bool) (ids : Ids)

def spawn (agent : Agent) (worker : Worker) : Agent :=
  { agent with workers := (agent.calls, worker) :: agent.workers, calls := agent.calls + 1 }

def popWorker (agent : Agent) (call : Nat) : Agent :=
  { agent with workers := agent.workers.filter fun entry => entry.1 ≠ call }

def answer (agent : Agent) (call : Nat) (given : Answer × State) : Agent :=
  { agent with state := given.2, answers := (call, given.1) :: agent.answers }

/-- The turn that an answer completes, if it is a task that the worker made. -/
def took (agent : Agent) (call : Nat) (job : Job) : Except ContinueError (Message ⊕ Task) → Agent
  | .ok (.inr task) => { agent with turns := ⟨task.id, call, job.message, agent.calls⟩ :: agent.turns }
  | _ => agent

variable (host : Host)

def apply (agent : Agent) : Event → Agent
  | .message message (some taskId) _ _ =>
    match agent.state.getTask taskId with
    | some task => agent.spawn ⟨some task.id, .continue message task⟩
    | none =>
      { agent with calls := agent.calls + 1, answers := (agent.calls, .notFound) :: agent.answers }
  | .message message none contextId metadata => agent.spawn ⟨none, .new message contextId metadata⟩
  | .cancel taskId hook => { agent with state := (cancel taskId hook agent.state).2 }
  | .done call reply ids =>
    match agent.workers.lookup call with
    | some worker =>
      let result := runDefaultTask host worker.job reply ids
      ((agent.popWorker call).answer call (applyDefaultResult ids result agent.state)).took call worker.job result
    | none => agent
  | .down call error ids =>
    match agent.workers.lookup call with
    | some worker => (agent.popWorker call).answer call (failWorkerTask host ids worker.taskId error agent.state)
    | none => agent
  | .streamDone taskId artifactId parts complete ids =>
    { agent with state := streamDone ids taskId artifactId parts complete agent.state }

/-- The ids of tasks are generated afresh. -/
def Possible (agent : Agent) : Event → Prop
  | .done call _ ids => ∀ taskId message contextId metadata,
      agent.workers.lookup call = some ⟨taskId, .new message contextId metadata⟩ →
      agent.state.getTask ids.task = none
  | _ => True

/-- A server that has just started, on what the store of an earlier one holds. -/
def start (taskStore : Option (String → Option Task)) : Agent := { state := { taskStore } }

end Agent
end AshA2A.Protocol
