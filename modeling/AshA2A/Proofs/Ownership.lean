import AshA2A.Transport.Runtime
import AshA2A.Concurrency.Paths
import AshA2A.Proofs.AgentWrites
import AshA2A.Term
import Mathlib.Data.List.Nodup

/-! Who may continue a task. A caller to whom a task does not belong is told what it would be told
of an unknown one, and a turn in progress is left alone. -/

namespace AshA2A.Transport.Runtime
open Protocol Concurrency

variable {host : Host} {runtime : Runtime}

/-- Nothing but answers of the agent. -/
def Answers (messages : List Message) : Prop := ∀ message ∈ messages, message.role = .agent

/-- What callers can learn of a task through a continuation, and do to it. -/
structure Noninterference (host : Host) (runtime : Runtime) : Prop where
  /-- To a stranger, and to a caller who names another context, the task is an unknown one: the same
  call elsewhere, for an id that is not stored there, has the same answer and takes the same token. -/
  foreign : ∀ (config : Config) (call : Call) (now : Int) (minted minted' : Minted) (outcome outcome' : Outcome)
      (taskId unknown : String) (task : Task) (other : Runtime),
    runtime.state.getTask taskId = some task →
    (owner host task ≠ caller host call ∨
      ∃ named, call.contextId = some named ∧ named ≠ "" ∧ task.contextId ≠ some named) →
    other.state.getTask unknown = none → other.buckets = runtime.buckets →
    other.inFlight.length = runtime.inFlight.length →
    let given := handleMessageCall host config { call with taskId := some taskId } now minted outcome runtime
    let elsewhere := handleMessageCall host config { call with taskId := some unknown } now minted' outcome' other
    given.1 = elsewhere.1 ∧ given.2 = { runtime with buckets := elsewhere.2.buckets }
  /-- While a turn is in progress, a continuation is refused and changes nothing. -/
  busy : ∀ (config : Config) (call : Call) (now : Int) (minted : Minted) (outcome : Outcome) (taskId : String)
      (task : Task),
    call.taskId = some taskId → runtime.state.getTask taskId = some task →
    (taskId ∈ runtime.inFlight.map Prod.snd ∨ task.status.state = .working) →
    ∃ refusal buckets, handleMessageCall host config call now minted outcome runtime =
      (.error refusal, { runtime with buckets })
  /-- One that is accepted appends its message. Run in line, the agent's answer follows. -/
  accepted : ∀ (config : Config) (call : Call) (now : Int) (minted : Minted) (outcome : Outcome) (taskId : String),
    call.taskId = some taskId →
    let given := handleMessageCall host config call now minted outcome runtime
    (∀ refusal, given.1 ≠ .error refusal) →
    ∃ task later answers, runtime.state.getTask taskId = some task ∧ owner host task = caller host call ∧
      given.2.state.getTask taskId = some later ∧ later.history = task.history ++ call.message :: answers ∧
      Answers answers ∧ (config.mode = .async → answers = []) ∧
      ∀ other, other ≠ taskId → given.2.state.getTask other = runtime.state.getTask other
  /-- What comes back later appends answers of the agent. -/
  merged : ∀ (token : Nat) (outcome : Outcome) (minted : Minted) (taskId : String) (task : Task),
    runtime.state.getTask taskId = some task →
    ∃ later answers, (runtime.apply host (.done token outcome minted)).state.getTask taskId = some later ∧
      later.history = task.history ++ answers ∧ Answers answers

/-- The tasks in flight are distinct, and each is working or has ended another way. -/
structure Sound (runtime : Runtime) : Prop where
  keyed : runtime.state.Keyed
  distinct : (runtime.inFlight.map Prod.snd).Nodup
  running : ∀ taskId ∈ runtime.inFlight.map Prod.snd, ∃ task, runtime.state.getTask taskId = some task ∧
    (task.status.state = .working ∨ task.terminal = true)

/-! ### The checks of a continuation -/

section
variable {taskId : String} {call : Call} {state : State} {task next : Task}

theorem continue_unknown (absent : state.getTask taskId = none) :
    «continue» host taskId call state = .error .notFound := by
  simp only [«continue», absent]

theorem explicitContextId_some {named : String} (full : named ≠ "") : explicitContextId (some named) = some named := by
  unfold explicitContextId
  split
  case h_1 same => exact absurd (Option.some.inj same) full
  case h_2 same => cases same
  case h_3 same => exact same.symm

theorem continue_foreign (stored : state.getTask taskId = some task)
    (foreign : owner host task ≠ caller host call ∨
      ∃ named, call.contextId = some named ∧ named ≠ "" ∧ task.contextId ≠ some named) :
    «continue» host taskId call state = .error .notFound := by
  simp only [«continue», stored]
  by_cases owned : owner host task = caller host call
  · obtain ⟨named, said, full, different⟩ := foreign.resolve_left (not_not_intro owned)
    rw [said, explicitContextId_some full]
    simp [matchingContext, different]
  · simp [ownedBy, owned]

theorem continue_busy (stored : state.getTask taskId = some task)
    (busy : task.status.state = .working ∨ task.terminal = true) :
    ∃ refusal, «continue» host taskId call state = .error refusal := by
  simp only [«continue», stored]
  split
  case isTrue => exact ⟨_, rfl⟩
  case isFalse =>
    split
    case isTrue => exact ⟨_, rfl⟩
    case isFalse =>
      split
      case isTrue => exact ⟨_, rfl⟩
      case isFalse running =>
        rw [if_pos (busy.resolve_right running)]
        exact ⟨_, rfl⟩

theorem continue_ok (accepted : «continue» host taskId call state = .ok next) :
    ∃ task, state.getTask taskId = some task ∧ owner host task = caller host call ∧ task.terminal = false ∧
      task.status.state ≠ .working ∧ next.id = task.id ∧ next.history = task.history ++ [call.message] := by
  unfold «continue» at accepted
  split at accepted
  case h_1 => cases accepted
  case h_2 task stored =>
    split at accepted
    case isTrue => cases accepted
    case isFalse owned =>
      split at accepted
      case isTrue => cases accepted
      case isFalse =>
        split at accepted
        case isTrue => cases accepted
        case isFalse running =>
          split at accepted
          case isTrue => cases accepted
          case isFalse idle =>
            cases accepted
            refine ⟨task, stored, ?_, eq_false_of_ne_true running, idle, rfl, rfl⟩
            simpa [ownedBy] using owned

end

/-! ### The end of a turn -/

section
variable {ids : Agent.Ids} {outcome : Outcome} {minted : Minted} {taskId : String} {state : State} {task : Task}

/-- A turn ends with answers of the agent at most. -/
theorem applyReply_frame : (applyReply host ids task outcome).id = task.id ∧
    ∃ answers, (applyReply host ids task outcome).history = task.history ++ answers ∧ Answers answers := by
  have one : Answers [] := fun _ member => absurd member List.not_mem_nil
  have reply : ∀ parts, Answers [Message.newAgent ids.message parts] := by
    intro parts message member
    rw [List.mem_singleton.mp member]
    rfl
  unfold applyReply
  split
  case h_1 parts => exact ⟨rfl, _, rfl, reply parts⟩
  case h_2 parts => exact ⟨rfl, _, rfl, reply parts⟩
  case h_3 parts => exact ⟨rfl, _, rfl, reply parts⟩
  case h_4 reason =>
    dsimp only
    split
    · exact ⟨rfl, [], (List.append_nil _).symm, one⟩
    · split <;> exact ⟨rfl, [], (List.append_nil _).symm, one⟩
  all_goals exact ⟨rfl, [], (List.append_nil _).symm, one⟩

theorem dropTerminalAuth_frame : (dropTerminalAuth task).id = task.id ∧
    (dropTerminalAuth task).status = task.status ∧ (dropTerminalAuth task).history = task.history := by
  unfold dropTerminalAuth
  split <;> exact ⟨rfl, rfl, rfl⟩

/-- A task that has ended is left alone. Another one is written once. -/
theorem finish_cases (stored : state.getTask taskId = some task) :
    (finish host taskId outcome minted state = (.task task, state) ∧ task.terminal = true) ∨
      ∃ written answers answer, finish host taskId outcome minted state = (answer, state.putTask written) ∧
        task.terminal = false ∧ written.id = task.id ∧ written.history = task.history ++ answers ∧
        Answers answers ∧ ∀ refusal, answer ≠ .error refusal := by
  simp only [finish, stored]
  split
  case isTrue ended => exact .inl ⟨rfl, ended⟩
  case isFalse running =>
    obtain ⟨same, answers, history, agents⟩ := @applyReply_frame host minted.ids outcome task
    have wrapped := Agent.maybeWrapStream_frame minted.ids (applyReply host minted.ids task outcome)
    have dropped := @dropTerminalAuth_frame (Agent.maybeWrapStream minted.ids (applyReply host minted.ids task outcome))
    refine .inr ⟨_, answers, _, rfl, eq_false_of_ne_true running, ?_, ?_, agents, ?_⟩
    · rw [dropped.1, wrapped.1, same]
    · rw [dropped.2.2, wrapped.2.2, history]
    · intro refusal
      split <;> nofun

end

/-! ### A message call -/

section
variable {config : Config} {call : Call} {now : Int} {minted : Minted} {outcome : Outcome}

/-- What a call is told that its limits may refuse before its task is looked at. -/
def admission (rate capacity : Except Refusal Unit) (refusal : Refusal) : Refusal :=
  match rate, capacity with
  | .error limited, _ => limited
  | .ok _, .error busy => busy
  | .ok _, .ok _ => refusal

theorem handleMessageCall_refused {refusal : Refusal}
    (prepared : prepareTask host call minted runtime.state = .error refusal) :
    handleMessageCall host config call now minted outcome runtime =
      (.error (admission (checkRate (caller host call) config now runtime.buckets).1
        (checkCapacity config runtime.inFlight.length) refusal),
       { runtime with buckets := (checkRate (caller host call) config now runtime.buckets).2 }) := by
  simp only [handleMessageCall, prepared]
  cases (checkRate (caller host call) config now runtime.buckets).1 with
  | error limited => rfl
  | ok _ => cases checkCapacity config runtime.inFlight.length <;> rfl

/-- What an accepted call leaves. -/
def begun (host : Host) (config : Config) (minted : Minted) (outcome : Outcome) (task : Task) (runtime : Runtime) :
    Answer × Runtime :=
  match config.mode with
  | .inline =>
    ((finish host task.id outcome minted (runtime.accept task).state).1,
      { runtime.accept task with state := (finish host task.id outcome minted (runtime.accept task).state).2 })
  | .async => (.later, (runtime.accept task).spawnWorker task.id)

theorem handleMessageCall_cases :
    (∃ refusal buckets, handleMessageCall host config call now minted outcome runtime =
      (.error refusal, { runtime with buckets })) ∨
    ∃ task buckets, prepareTask host call minted runtime.state = .ok task ∧
      handleMessageCall host config call now minted outcome runtime =
        begun host config minted outcome task { runtime with buckets } := by
  cases prepared : prepareTask host call minted runtime.state with
  | error refusal => exact .inl ⟨_, _, handleMessageCall_refused prepared⟩
  | ok task =>
    simp only [handleMessageCall, prepared]
    cases (checkRate (caller host call) config now runtime.buckets).1 with
    | error limited => exact .inl ⟨limited, _, rfl⟩
    | ok _ =>
      cases checkCapacity config runtime.inFlight.length with
      | error busy => exact .inl ⟨busy, _, rfl⟩
      | ok _ =>
        refine .inr ⟨task, (checkRate (caller host call) config now runtime.buckets).2, rfl, ?_⟩
        unfold begun
        cases config.mode <;> rfl

/-- The task of an accepted call is stored as working, and then finished if the call runs in line. -/
theorem begun_getTask (task : Task) :
    ∃ later answers, later.id = task.id ∧ later.history = task.history ++ answers ∧ Answers answers ∧
      (config.mode = .async → answers = [] ∧ later.status.state = .working) ∧
      (∀ refusal, (begun host config minted outcome task runtime).1 ≠ .error refusal) ∧
      ∀ taskId, (begun host config minted outcome task runtime).2.state.getTask taskId =
        if taskId = task.id then some later else runtime.state.getTask taskId := by
  have stored : ∀ taskId, (runtime.accept task).state.getTask taskId =
      if taskId = task.id then some (task.transition .working none) else runtime.state.getTask taskId := by
    intro taskId
    rw [accept, State.getTask_trackContext, State.getTask_putTask, Task.transition_id]
  unfold begun
  cases mode : config.mode with
  | async =>
    refine ⟨task.transition .working none, [], rfl, (List.append_nil _).symm, ?_, fun _ => ⟨rfl, rfl⟩, nofun, stored⟩
    exact fun _ member => absurd member List.not_mem_nil
  | inline =>
    have here := (stored task.id).trans (if_pos rfl)
    rcases @finish_cases host outcome minted task.id _ _ here with ⟨-, ended⟩ | ⟨written, answers, answer, finished, -,
      same, history, agents, served⟩
    · cases ended
    · refine ⟨written, answers, same, history, agents, nofun, ?_, fun taskId => ?_⟩
      · rw [finished]
        exact served
      · rw [finished, State.getTask_putTask, same, Task.transition_id, stored]
        split <;> rfl

end

/-! ### Noninterference, from the invariant -/

theorem Sound.isolates (sound : Sound runtime) : Noninterference host runtime where
  foreign config call now minted minted' outcome outcome' taskId unknown task other stored foreign absent buckets
      running := by
    have given : prepareTask host { call with taskId := some taskId } minted runtime.state = .error .notFound :=
      continue_foreign stored foreign
    have elsewhere : prepareTask host { call with taskId := some unknown } minted' other.state = .error .notFound :=
      continue_unknown absent
    dsimp only
    rw [handleMessageCall_refused given, handleMessageCall_refused elsewhere, buckets, running]
    exact ⟨rfl, rfl⟩
  busy config call now minted outcome taskId task asked stored turn := by
    have busy : task.status.state = .working ∨ task.terminal = true := by
      rcases turn with flying | working
      · obtain ⟨found, kept, busy⟩ := sound.running taskId flying
        rw [stored] at kept
        cases kept
        exact busy
      · exact .inl working
    obtain ⟨refusal, refused⟩ := @continue_busy host taskId call runtime.state task stored busy
    have prepared : prepareTask host call minted runtime.state = .error refusal := by
      simp only [prepareTask, asked]
      exact refused
    exact ⟨_, _, handleMessageCall_refused prepared⟩
  accepted config call now minted outcome taskId asked := by
    intro given served
    rcases @handleMessageCall_cases host runtime config call now minted outcome with ⟨refusal, buckets, refused⟩ |
      ⟨next, buckets, prepared, started⟩
    · exact absurd (congrArg Prod.fst refused) (served refusal)
    · simp only [prepareTask, asked] at prepared
      obtain ⟨task, stored, owned, -, -, same, history⟩ := continue_ok prepared
      have id : next.id = taskId := same.trans (sound.keyed _ _ stored)
      obtain ⟨later, answers, -, longer, agents, asynchronous, -, put⟩ :=
        @begun_getTask host { runtime with buckets } config minted outcome next
      refine ⟨task, later, answers, stored, owned, ?_, ?_, agents, fun mode => (asynchronous mode).1, ?_⟩
      · dsimp only [given]
        rw [started, put, if_pos id.symm]
      · rw [longer, history, List.append_assoc]
        rfl
      · intro other different
        dsimp only [given]
        rw [started, put, if_neg (id ▸ different)]
  merged token outcome minted taskId task stored := by
    have none : ∃ later answers, runtime.state.getTask taskId = some later ∧ later.history = task.history ++ answers ∧
        Answers answers :=
      ⟨task, [], stored, (List.append_nil _).symm, fun _ member => absurd member List.not_mem_nil⟩
    cases flying : runtime.inFlight.lookup token with
    | none => simpa only [apply, flying] using none
    | some own =>
      simp only [apply, flying]
      cases found : runtime.state.getTask own with
      | none => simpa only [finish, found] using none
      | some held =>
        rcases @finish_cases host outcome minted own _ _ found with ⟨finished, -⟩ | ⟨written, answers, answer, finished,
          -, same, history, agents, -⟩
        · rw [finished]
          exact none
        · rw [finished, State.getTask_putTask, same, sound.keyed _ _ found]
          by_cases itself : taskId = own
          · subst itself
            rw [found] at stored
            cases stored
            exact ⟨written, answers, if_pos rfl, history, agents⟩
          · rw [if_neg itself]
            exact none

/-! ### Every event -/

namespace Sound

theorem start (taskStore : Option (String → Option Task)) (keyed : (start taskStore).state.Keyed) :
    Sound (start taskStore) where
  keyed := keyed
  distinct := List.nodup_nil
  running _ member := absurd member List.not_mem_nil

/-- One task is written: none that is in flight, or one that works on or has ended. -/
theorem put (sound : Sound runtime) {after : Runtime} {written : Task}
    (put : ∀ taskId, after.state.getTask taskId = if taskId = written.id then some written else runtime.state.getTask taskId)
    (distinct : (after.inFlight.map Prod.snd).Nodup)
    (others : ∀ taskId ∈ after.inFlight.map Prod.snd, taskId ≠ written.id → taskId ∈ runtime.inFlight.map Prod.snd)
    (flying : written.id ∈ after.inFlight.map Prod.snd → written.status.state = .working ∨ written.terminal = true) :
    Sound after where
  keyed taskId task stored := by
    rw [put] at stored
    split at stored
    case isTrue equal =>
      cases stored
      exact equal.symm
    case isFalse => exact sound.keyed taskId task stored
  distinct := distinct
  running taskId member := by
    rw [put]
    by_cases itself : taskId = written.id
    · exact ⟨written, if_pos itself, flying (itself ▸ member)⟩
    · rw [if_neg itself]
      exact sound.running taskId (others taskId member itself)

/-- Workers go, and nothing is written. -/
theorem pop (sound : Sound runtime) {after : Runtime} (state : after.state = runtime.state)
    (workers : after.inFlight.Sublist runtime.inFlight) : Sound after where
  keyed := state ▸ sound.keyed
  distinct := sound.distinct.sublist (workers.map Prod.snd)
  running taskId member := by
    rw [state]
    exact sound.running taskId ((workers.map Prod.snd).subset member)

/-- The task of an accepted call was not in flight. -/
theorem idle (sound : Sound runtime) {call : Call} {minted : Minted} {task : Task}
    (fresh : call.taskId = none → runtime.state.getTask minted.ids.task = none)
    (prepared : prepareTask host call minted runtime.state = .ok task) :
    task.id ∉ runtime.inFlight.map Prod.snd := by
  intro flying
  obtain ⟨held, stored, busy⟩ := sound.running _ flying
  cases asked : call.taskId with
  | none =>
    simp only [prepareTask, asked] at prepared
    cases prepared
    rw [show (Task.new minted.ids.task _ _).id = minted.ids.task from rfl, fresh asked] at stored
    cases stored
  | some taskId =>
    simp only [prepareTask, asked] at prepared
    obtain ⟨found, kept, -, running, working, same, -⟩ := continue_ok prepared
    rw [same, sound.keyed _ _ kept, kept] at stored
    cases stored
    rcases busy with busy | ended
    · exact working busy
    · rw [running] at ended
      cases ended

theorem message (sound : Sound runtime) (config : Config) (call : Call) (now : Int) (minted : Minted)
    (outcome : Outcome) (fresh : call.taskId = none → runtime.state.getTask minted.ids.task = none) :
    Sound (handleMessageCall host config call now minted outcome runtime).2 := by
  rcases @handleMessageCall_cases host runtime config call now minted outcome with ⟨refusal, buckets, refused⟩ |
    ⟨task, buckets, prepared, started⟩
  · rw [refused]
    exact sound.pop rfl (List.Sublist.refl _)
  · have idle := sound.idle fresh prepared
    obtain ⟨later, answers, same, -, -, asynchronous, -, put⟩ :=
      @begun_getTask host { runtime with buckets } config minted outcome task
    rw [started]
    rw [← same] at put idle
    cases mode : config.mode with
    | inline =>
      have flying : (begun host config minted outcome task { runtime with buckets }).2.inFlight = runtime.inFlight := by
        simp only [begun, mode, accept]
      refine sound.put put ?_ ?_ ?_
      · rw [flying]
        exact sound.distinct
      · rw [flying]
        exact fun _ member _ => member
      · rw [flying]
        exact fun member => absurd member idle
    | async =>
      have flying : (begun host config minted outcome task { runtime with buckets }).2.inFlight =
          (runtime.tokens, later.id) :: runtime.inFlight := by
        simp only [begun, mode, accept, spawnWorker, same]
      refine sound.put put ?_ ?_ fun _ => .inl (asynchronous mode).2
      · rw [flying]
        exact List.nodup_cons.mpr ⟨idle, sound.distinct⟩
      · rw [flying]
        intro taskId member different
        exact (List.mem_cons.mp member).resolve_left different

/-- A token is taken out with its task. -/
theorem done (sound : Sound runtime) (token : Nat) (outcome : Outcome) (minted : Minted) :
    Sound (runtime.apply host (.done token outcome minted)) := by
  cases flying : runtime.inFlight.lookup token with
  | none => simpa only [apply, flying] using sound
  | some own =>
    simp only [apply, flying]
    have workers : (runtime.inFlight.filter fun worker => worker.1 ≠ token).Sublist runtime.inFlight :=
      List.filter_sublist
    cases found : runtime.state.getTask own with
    | none => exact sound.pop (by simp only [finish, found]) workers
    | some held =>
      rcases @finish_cases host outcome minted own _ _ found with ⟨finished, -⟩ | ⟨written, answers, answer, finished,
        -, same, -, -, -⟩
      · exact sound.pop (by rw [finished]) workers
      · rw [finished]
        have id : written.id = own := same.trans (sound.keyed _ _ found)
        refine sound.put (fun taskId => State.getTask_putTask _ _ _) (sound.distinct.sublist (workers.map _))
          (fun taskId member _ => (workers.map _).subset member) fun member => ?_
        -- Its worker was the only one of its task.
        obtain ⟨worker, among, task⟩ := List.mem_map.mp member
        obtain ⟨among, other⟩ := List.mem_filter.mp among
        have only := List.inj_on_of_nodup_map sound.distinct among (mem_of_lookup flying) (task.trans id)
        simp [only] at other

theorem apply (sound : Sound runtime) (event : Event) (possible : runtime.Possible event) :
    Sound (runtime.apply host event) := by
  cases event with
  | message config call now minted outcome => exact sound.message config call now minted outcome possible
  | done token outcome minted => exact sound.done token outcome minted
  | cancel taskId hook =>
    simp only [Runtime.apply]
    split
    case isTrue => exact sound
    case isFalse idle =>
      rcases Agent.cancel_getTask taskId hook runtime.state with same | ⟨stored, found, active, put⟩
      · exact sound.pop same (List.Sublist.refl _)
      · rw [put]
        have written : ∀ other, (runtime.state.putTask (stored.transition .canceled none)).getTask other =
            if other = (stored.transition .canceled none).id then some (stored.transition .canceled none)
            else runtime.state.getTask other := State.getTask_putTask _ _
        exact sound.put written sound.distinct (fun _ member _ => member) fun _ => .inr rfl
  | streamDone taskId artifactId parts complete ids =>
    rcases Agent.streamDone_getTask ids taskId artifactId parts complete runtime.state with
      same | ⟨stored, written, put, found, kept, state, -⟩
    · exact sound.pop same (List.Sublist.refl _)
    · simp only [Runtime.apply]
      rw [put]
      refine sound.put (fun _ => State.getTask_putTask _ _ _) sound.distinct (fun _ member _ => member) fun _ => .inr ?_
      rw [Task.terminal, state]
      cases complete <;> rfl

end Sound

/-! ### Every run -/

/-- A store, if there is one, keeps each task under its own id, and new ids are drawn afresh. In
every state that a process reaches, callers learn and do no more. -/
theorem noninterference (host : Host) (taskStore : Option (String → Option Task))
    (keyed : (start taskStore).state.Keyed) (events : List Event)
    (possible : Throughout (apply host) Possible (start taskStore) events) :
    Noninterference host (events.foldl (apply host) (start taskStore)) := by
  have sound : Sound (events.foldl (apply host) (start taskStore)) :=
    possible.invariant_foldl (Sound.start taskStore keyed) fun _ event sound possible => Sound.apply sound event possible
  exact sound.isolates

private def plain : Host := ⟨⟨fun _ => "", id⟩, ⟨fun _ => "", fun _ _ => ""⟩, []⟩

/-- Alice is asked back, and answers. -/
private def conversation : List Event :=
  let alice : TermMap := [(authKey, .map (.cons (.tuple (.cons (.atom "identity") (.cons (.binary "alice") .empty))) .empty))]
  let minted : Minted := ⟨"ctx-1", "m0", ⟨"tsk-1", "m2", "art-1", "art-2"⟩⟩
  [.message {} { message := ⟨"m1", .user, [], none⟩, metadata := alice } 0 minted (.working []),
    .done 0 (.handled (.inputRequired [])) minted,
    .message {} { message := ⟨"m3", .user, [], none⟩, taskId := some "tsk-1", metadata := alice } 1 minted (.working [])]

theorem noninterference_conversation : Noninterference plain (conversation.foldl (apply plain) (start none)) :=
  noninterference plain none nofun conversation ⟨fun _ => rfl, True.intro, nofun, True.intro⟩

end AshA2A.Transport.Runtime
