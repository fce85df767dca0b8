import AshA2A.Protocol.Task

/-! One turn of a conversation: from the message to the task that the handler's reply leaves. -/

namespace AshA2A.Protocol.Agent

/-- What a handler returns. -/
inductive Reply where
  | reply (parts : List Term)
  | stream (enum : Term)
  | message (parts : List Term)
  | inputRequired (parts : List Term)
  | error (reason : Term)
  deriving Repr, DecidableEq

/-- `inspect/1` of the language, and the redaction of reasons. -/
structure Host where
  inspect : Term → String
  redact : Term → Term

/-- The ids generated in a turn. -/
structure Ids where
  task : String
  message : String
  artifact : String
  streamArtifact : String
  deriving Repr, DecidableEq

namespace Runtime

def pair (tag : String) : Term → Bool
  | .tuple (.cons (.atom name) (.cons _ .empty)) => name = tag
  | _ => false

/-- The value under a key of a map. -/
def entry? (key : Term) : Term → Option Term
  | .cons (.tuple (.cons found (.cons value .empty))) rest => if found = key then some value else entry? key rest
  | _ => none

def authFailure (reason : Term) : Bool :=
  reason = .atom "unauthorized" || pair "unauthorized" reason || pair "auth_required" reason

def admissionRefusal : Term → Bool
  | .binary text => text.startsWith "forbidden: "
  | .map entries => entry? (.atom "code") entries = some (.atom "consequence_unclassified")
  | reason =>
    reason = .atom "forbidden" || pair "forbidden" reason || reason = .atom "skill_not_found" ||
      pair "no_skill" reason || pair "ambiguous_skill" reason

/-- Where a reply leaves a task that is working. A bare message leaves no task. -/
def stateAfter : Reply → TaskState
  | .reply _ => .completed
  | .stream _ | .message _ => .working
  | .inputRequired _ => .inputRequired
  | .error reason =>
    if admissionRefusal reason then .rejected else if authFailure reason then .authRequired else .failed

variable (host : Host)

def handleReply (ids : Ids) (reply : Reply) (task : Task) : Message ⊕ Task :=
  match reply with
  | .reply parts =>
    let task : Task := { task with artifacts := task.artifacts ++ [⟨ids.artifact, parts⟩] }
    let task : Task := { task with history := task.history ++ [.newAgent ids.message parts] }
    .inr (task.transition .completed none)
  | .stream enum => .inr { task with metadata := task.metadata.put (.atom "stream") enum }
  | .message parts => .inl { Message.newAgent ids.message parts with contextId := task.contextId }
  | .inputRequired parts =>
    let message := Message.newAgent ids.message parts
    let task : Task := { task with history := task.history ++ [message] }
    .inr (task.transition .inputRequired (some message))
  | .error reason =>
    if admissionRefusal reason then
      .inr (task.transition .rejected
        (some (.newAgent ids.message [textPart ("Rejected: " ++ host.inspect (host.redact reason))])))
    else if authFailure reason then
      .inr (task.transition .authRequired
        (some (.newAgent ids.message [textPart ("Auth required: " ++ host.inspect reason)])))
    else
      .inr (task.transition .failed (some (.newAgent ids.message [textPart ("Error: " ++ host.inspect reason)])))

def runTask (ids : Ids) (reply : Reply) (task : Task) : Message ⊕ Task :=
  handleReply host ids reply (task.transition .working none)

def processMessage (ids : Ids) (reply : Reply) (message : Message) (contextId : Option String) (metadata : TermMap) :
    Message ⊕ Task :=
  runTask host ids reply { Task.new ids.task contextId metadata with history := [message] }

inductive ContinueError where
  | notContinuable | messageOnTask
  deriving Repr, DecidableEq

def continueTask (ids : Ids) (reply : Reply) (message : Message) (task : Task) : Except ContinueError Task :=
  if task.terminal then .error .notContinuable
  else
    let task : Task := { task with history := task.history ++ [message] }
    let task : Task := { task with metadata := deleteKey task.metadata (.atom "stream") }
    match runTask host ids reply task with
    | .inr task => .ok task
    | .inl _ => .error .messageOnTask

/-! ### What a turn leaves -/

variable {host} {ids : Ids} {reply : Reply} {task after : Task} {message : Message}

/-- A reply that leaves a task keeps its id, and adds to its history at the end at most. -/
theorem handleReply_task (left : handleReply host ids reply task = .inr after)
    (working : task.status.state = .working) :
    after.id = task.id ∧ after.status.state = stateAfter reply ∧
      ∃ answers, after.history = task.history ++ answers := by
  cases reply with
  | reply parts =>
    cases left
    exact ⟨rfl, rfl, [.newAgent ids.message parts], rfl⟩
  | stream enum =>
    cases left
    exact ⟨rfl, working, [], (List.append_nil _).symm⟩
  | message parts => cases left
  | inputRequired parts =>
    cases left
    exact ⟨rfl, rfl, [.newAgent ids.message parts], rfl⟩
  | error reason =>
    simp only [handleReply] at left
    simp only [stateAfter]
    by_cases refused : admissionRefusal reason = true
    · rw [if_pos refused] at left ⊢
      cases left
      exact ⟨rfl, rfl, [], (List.append_nil _).symm⟩
    · rw [if_neg refused] at left ⊢
      by_cases unauthorized : authFailure reason = true
      · rw [if_pos unauthorized] at left ⊢
        cases left
        exact ⟨rfl, rfl, [], (List.append_nil _).symm⟩
      · rw [if_neg unauthorized] at left ⊢
        cases left
        exact ⟨rfl, rfl, [], (List.append_nil _).symm⟩

theorem processMessage_task {contextId : Option String} {metadata : TermMap}
    (left : processMessage host ids reply message contextId metadata = .inr after) :
    after.id = ids.task ∧ ∃ answers, after.history = message :: answers := by
  obtain ⟨same, -, answers, history⟩ := handleReply_task left rfl
  exact ⟨same, answers, history⟩

theorem continueTask_task (left : continueTask host ids reply message task = .ok after) :
    after.id = task.id ∧ after.status.state = stateAfter reply ∧
      ∃ answers, after.history = task.history ++ message :: answers := by
  unfold continueTask at left
  split at left
  case isTrue => cases left
  case isFalse =>
    dsimp only at left
    split at left
    case h_1 replied =>
      cases left
      obtain ⟨same, state, answers, history⟩ := handleReply_task replied rfl
      refine ⟨same, state, answers, ?_⟩
      rw [history]
      exact List.append_assoc task.history [message] answers
    case h_2 => cases left

/-- A task that has ended is not continued, and a bare message does not continue a task. -/
theorem continueTask_ok (left : continueTask host ids reply message task = .ok after) :
    (∀ parts, reply ≠ .message parts) ∧ task.terminal = false := by
  unfold continueTask at left
  split at left
  case isTrue => cases left
  case isFalse running =>
    refine ⟨?_, eq_false_of_ne_true running⟩
    rintro parts rfl
    cases left

end Runtime
end AshA2A.Protocol.Agent
