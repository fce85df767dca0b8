import AshA2A.Protocol.Agent

/-! What an event of the server of an agent may write. Every later invariant is about these
five writes. -/

namespace AshA2A.Protocol.Agent
open Agent.Runtime

variable {host : Host} {agent : Agent}

/-- The task that an event leaves, and where it comes from. -/
inductive Wrote (agent : Agent) : Event → Task → Prop
  | opened {call : Nat} {reply : Reply} {ids : Ids} {taskId : Option String} {message : Message}
      {contextId : Option String} {metadata : TermMap} {written : Task} {answers : List Message}
      (working : agent.workers.lookup call = some ⟨taskId, .new message contextId metadata⟩)
      (same : written.id = ids.task) (history : written.history = message :: answers) :
      Wrote agent (.done call reply ids) written
  | continued {call : Nat} {reply : Reply} {ids : Ids} {taskId : Option String} {message : Message}
      {snapshot written : Task} {answers : List Message}
      (working : agent.workers.lookup call = some ⟨taskId, .continue message snapshot⟩)
      (bare : ∀ parts, reply ≠ .message parts) (continuable : snapshot.terminal = false)
      (same : written.id = snapshot.id) (state : written.status.state = stateAfter reply)
      (history : written.history = snapshot.history ++ message :: answers) :
      Wrote agent (.done call reply ids) written
  | canceled {taskId : String} {hook : Except Term Unit} {stored written : Task}
      (found : agent.state.getTask taskId = some stored) (active : stored.terminal = false)
      (same : written.id = stored.id) (history : written.history = stored.history) :
      Wrote agent (.cancel taskId hook) written
  | failed {call : Nat} {error : Term} {ids : Ids} {taskId : String} {stored written : Task}
      (found : agent.state.getTask taskId = some stored) (active : stored.terminal = false)
      (same : written.id = stored.id) (history : written.history = stored.history) :
      Wrote agent (.down call error ids) written
  | streamed {taskId : String} {artifactId : Option String} {parts : List Term} {complete : Bool} {ids : Ids}
      {stored written : Task} {answers : List Message}
      (found : agent.state.getTask taskId = some stored) (same : written.id = stored.id)
      (state : written.status.state = outcomeState complete) (history : written.history = stored.history ++ answers) :
      Wrote agent (.streamDone taskId artifactId parts complete ids) written

/-- Nothing is written, or one task is. -/
def Writes (agent after : Agent) (event : Event) : Prop :=
  (∀ taskId, after.state.getTask taskId = agent.state.getTask taskId) ∨
    ∃ written, Wrote agent event written ∧
      ∀ taskId, after.state.getTask taskId = if taskId = written.id then some written else agent.state.getTask taskId

/-! ### The parts of an event -/

theorem maybeWrapStream_frame (ids : Ids) (task : Task) :
    (maybeWrapStream ids task).id = task.id ∧ (maybeWrapStream ids task).status = task.status ∧
      (maybeWrapStream ids task).history = task.history := by
  unfold maybeWrapStream
  split <;> exact ⟨rfl, rfl, rfl⟩

@[simp] theorem took_state (call : Nat) (job : Job) (result : Except ContinueError (Message ⊕ Task)) :
    (agent.took call job result).state = agent.state := by
  unfold took
  split <;> rfl

@[simp] theorem took_workers (call : Nat) (job : Job) (result : Except ContinueError (Message ⊕ Task)) :
    (agent.took call job result).workers = agent.workers := by
  unfold took
  split <;> rfl

@[simp] theorem took_calls (call : Nat) (job : Job) (result : Except ContinueError (Message ⊕ Task)) :
    (agent.took call job result).calls = agent.calls := by
  unfold took
  split <;> rfl

/-- Only a task that a worker made is stored. -/
theorem applyDefaultResult_getTask (ids : Ids) (result : Except ContinueError (Message ⊕ Task)) (state : State) :
    ((∀ task, result ≠ .ok (.inr task)) ∧ (applyDefaultResult ids result state).2 = state) ∨
      ∃ task, result = .ok (.inr task) ∧ ∀ taskId, (applyDefaultResult ids result state).2.getTask taskId =
        if taskId = task.id then some (maybeWrapStream ids task) else state.getTask taskId := by
  match result with
  | .ok (.inl _) => exact .inl ⟨nofun, rfl⟩
  | .error _ => exact .inl ⟨nofun, rfl⟩
  | .ok (.inr task) =>
    refine .inr ⟨task, rfl, fun taskId => ?_⟩
    simp only [applyDefaultResult, State.getTask_trackContext, State.getTask_putTask,
      (maybeWrapStream_frame ids task).1]

theorem cancel_getTask (taskId : String) (hook : Except Term Unit) (state : State) :
    (cancel taskId hook state).2 = state ∨
      ∃ stored, state.getTask taskId = some stored ∧ stored.terminal = false ∧
        (cancel taskId hook state).2 = state.putTask (stored.transition .canceled none) := by
  unfold cancel
  cases found : state.getTask taskId with
  | none => exact .inl rfl
  | some stored =>
    dsimp only
    split
    case isTrue => exact .inl rfl
    case isFalse running =>
      split
      case isTrue => exact .inl rfl
      case isFalse ending =>
        cases hook with
        | error reason => exact .inl rfl
        | ok _ =>
          refine .inr ⟨stored, rfl, ?_, rfl⟩
          unfold Task.terminal
          cases state : stored.status.state <;> simp_all [TaskState.terminal]

theorem failWorkerTask_getTask (ids : Ids) (taskId : Option String) (error : Term) (state : State) :
    (failWorkerTask host ids taskId error state).2 = state ∨
      ∃ asked stored message, taskId = some asked ∧ state.getTask asked = some stored ∧ stored.terminal = false ∧
        (failWorkerTask host ids taskId error state).2 = state.putTask (stored.transition .failed (some message)) := by
  unfold failWorkerTask
  cases taskId with
  | none => exact .inl rfl
  | some asked =>
    rw [Option.bind_some]
    cases found : state.getTask asked with
    | none => exact .inl rfl
    | some stored =>
      dsimp only
      cases terminal : stored.terminal with
      | true => exact .inl rfl
      | false => exact .inr ⟨asked, stored, _, rfl, found, terminal, rfl⟩

theorem streamDone_getTask (ids : Ids) (taskId : String) (artifactId : Option String) (parts : List Term)
    (complete : Bool) (state : State) :
    streamDone ids taskId artifactId parts complete state = state ∨
      ∃ stored written, streamDone ids taskId artifactId parts complete state = state.putTask written ∧
        state.getTask taskId = some stored ∧ written.id = stored.id ∧
        written.status.state = outcomeState complete ∧
        written.history = stored.history ++ [.newAgent ids.message parts] := by
  unfold streamDone
  cases found : state.getTask taskId with
  | none => exact .inl rfl
  | some stored => exact .inr ⟨stored, _, rfl, rfl, rfl, rfl, rfl⟩

/-! ### Every event -/

/-- What a worker made of its job, when that is a task. -/
theorem Wrote.of_done {call : Nat} {worker : Worker} {reply : Reply} {ids : Ids} {made written : Task}
    (working : agent.workers.lookup call = some worker)
    (left : runDefaultTask host worker.job reply ids = .ok (.inr made))
    (frame : written.id = made.id ∧ written.status = made.status ∧ written.history = made.history) :
    Wrote agent (.done call reply ids) written := by
  obtain ⟨same, status, history⟩ := frame
  obtain ⟨taskId, job⟩ := worker
  cases job with
  | new message contextId metadata =>
    obtain ⟨opened, answers, begun⟩ := processMessage_task (Except.ok.inj left)
    exact .opened working (same.trans opened) (history.trans begun)
  | «continue» message snapshot =>
    cases run : continueTask host ids reply message snapshot with
    | error refused =>
      rw [runDefaultTask, run] at left
      cases left
    | ok task =>
      rw [runDefaultTask, run] at left
      cases left
      obtain ⟨kept, state, answers, extended⟩ := continueTask_task run
      obtain ⟨bare, continuable⟩ := continueTask_ok run
      exact .continued working bare continuable (same.trans kept) ((congrArg Status.state status).trans state)
        (history.trans extended)

/-- The inversion of a step of the server. -/
theorem apply_writes (host : Host) (agent : Agent) (event : Event) : Writes agent (agent.apply host event) event := by
  cases event with
  | message message taskId contextId metadata =>
    left
    cases taskId with
    | none => exact fun _ => rfl
    | some taskId =>
      intro other
      dsimp only [Agent.apply]
      cases agent.state.getTask taskId <;> rfl
  | cancel taskId hook =>
    rcases cancel_getTask taskId hook agent.state with same | ⟨stored, found, active, put⟩
    · exact .inl fun other => by rw [Agent.apply, same]
    · refine .inr ⟨stored.transition .canceled none, .canceled found active rfl rfl, fun other => ?_⟩
      rw [Agent.apply, put, State.getTask_putTask]
  | done call reply ids =>
    cases working : agent.workers.lookup call with
    | none => exact .inl fun other => by simp only [Agent.apply, working]
    | some worker =>
      rcases applyDefaultResult_getTask ids (runDefaultTask host worker.job reply ids) agent.state with
        ⟨-, same⟩ | ⟨made, left, put⟩
      · refine .inl fun other => ?_
        simp only [Agent.apply, working, took_state, answer, popWorker, same]
      · have frame := maybeWrapStream_frame ids made
        refine .inr ⟨maybeWrapStream ids made, .of_done working left frame, fun other => ?_⟩
        simp only [Agent.apply, working, took_state, answer, popWorker, put, frame.1]
  | down call error ids =>
    cases working : agent.workers.lookup call with
    | none => exact .inl fun other => by simp only [Agent.apply, working]
    | some worker =>
      rcases @failWorkerTask_getTask host ids worker.taskId error agent.state with
        same | ⟨asked, stored, message, -, found, active, put⟩
      · refine .inl fun other => ?_
        simp only [Agent.apply, working, answer, popWorker, same]
      · refine .inr ⟨stored.transition .failed (some message), .failed found active rfl rfl, fun other => ?_⟩
        simp only [Agent.apply, working, answer, popWorker, put, State.getTask_putTask]
  | streamDone taskId artifactId parts complete ids =>
    rcases streamDone_getTask ids taskId artifactId parts complete agent.state with
      same | ⟨stored, written, put, found, kept, state, history⟩
    · exact .inl fun other => by rw [Agent.apply, same]
    · refine .inr ⟨written, .streamed found kept state history, fun other => ?_⟩
      rw [Agent.apply, put, State.getTask_putTask]

end AshA2A.Protocol.Agent
