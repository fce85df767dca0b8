import AshA2A.Cluster.Handover
import AshA2A.Concurrency.Safety

/-! A suspended task is taken up once, as long as no peer acts on a listing that another has
overtaken, and no drain on a task that has ended meanwhile. -/

namespace AshA2A.Cluster.Handover
open Protocol Concurrency Checkpoint

variable {Pid : Type}

abbrev Trace (Pid : Type) := List (Event Pid Op Reply)

abbrev State (Pid : Type) := Shared Pid Op Reply TaskStore

/-! ## What a run has done -/

/-- The store after the writes of a run. -/
def replay (start : TaskStore) : Trace Pid → TaskStore
  | [] => start
  | event :: earlier =>
    match event with
    | ⟨_, .put task, _⟩ => (replay start earlier).put task
    | _ => replay start earlier

/-- The resume function has concluded for this envelope of the task. -/
def concludes (taskId : String) (suspension : Term) (event : Event Pid Op Reply) : Bool :=
  match event with
  | ⟨_, .resume task _, .ok _⟩ => task.id = taskId ∧ envelope task = some suspension
  | _ => false

def lands (taskId : String) (suspension : Term) (event : Event Pid Op Reply) : Bool :=
  match event with
  | ⟨_, .put task, _⟩ => task.id = taskId ∧ envelope task = some suspension
  | _ => false

/-- How often this envelope was landed for the task, the store of the start included. -/
def landings (start : TaskStore) (trace : Trace Pid) (taskId : String) (suspension : Term) : Nat :=
  trace.countP (lands taskId suspension) + if (start.get taskId).bind envelope = some suspension then 1 else 0

/-- A task as a peer writes it back. -/
structure WrittenBack (task : Task) (conclusion : Term) : Prop where
  state : task.status.state = .completed
  cleared : envelope task = none
  result : result task = some conclusion

/-- What a write does to the task that is stored. -/
structure Overwrites (stored task : Task) : Prop where
  settled : ∀ former conclusion, WrittenBack stored former → WrittenBack task conclusion → conclusion = former
  ended : stored.terminal = true → task.status.state ≠ .working

def Overwriting (start : TaskStore) (trace : Trace Pid) : Prop :=
  ∀ later earlier pid task, trace = later ++ ⟨pid, .put task, ()⟩ :: earlier →
    ∀ stored, (replay start earlier).get task.id = some stored → Overwrites stored task

/-- Each suspended task is completed once. -/
structure CompletedOnce (start : TaskStore) (trace : Trace Pid) : Prop where
  resumed : ∀ taskId suspension, trace.countP (concludes taskId suspension) ≤ landings start trace taskId suspension
  overwriting : Overwriting start trace

/-! ## Which steps are orderly -/

/-- The process has seen the task concluded and has not written it back yet. -/
def AtWork (pid : Pid) (taskId : String) : Trace Pid → Prop
  | [] => False
  | event :: earlier =>
    match event with
    | ⟨other, .resume task _, .ok _⟩ => (other = pid ∧ task.id = taskId) ∨ AtWork pid taskId earlier
    | ⟨other, .put task, _⟩ => ¬ (other = pid ∧ task.id = taskId) ∧ AtWork pid taskId earlier
    | _ => AtWork pid taskId earlier

/-- The task was written in an end state after the process read it. -/
def EndedSince (pid : Pid) (taskId : String) : Trace Pid → Prop
  | [] => False
  | event :: earlier =>
    match event with
    | ⟨other, .get read, _⟩ => ¬ (other = pid ∧ read = taskId) ∧ EndedSince pid taskId earlier
    | ⟨_, .put task, _⟩ => (task.id = taskId ∧ task.terminal = true) ∨ EndedSince pid taskId earlier
    | _ => EndedSince pid taskId earlier

/-- A resume concludes only for the envelope that its task still has in the store, while nobody else is at
work on the task. A drain reads a task that has not ended, and lands it unless it has ended meanwhile. -/
def Orderly (pid : Pid) (op : Op) (choice : Choice) (shared : State Pid) : Prop :=
  match op with
  | .resume task _ => (∃ conclusion, choice.outcome = .ok conclusion) →
      ((shared.world.get task.id).bind envelope = envelope task ∧ ∀ other, ¬ AtWork other task.id shared.trace)
  | .get taskId => ∀ stored, shared.world.get taskId = some stored → stored.terminal = false
  | .put task => checkpointed task = true → ¬ EndedSince pid task.id shared.trace
  | _ => True

structure Sound (start : TaskStore) (shared : State Pid) : Prop where
  world : shared.world = replay start shared.trace
  held : ∀ pid taskId, AtWork pid taskId shared.trace →
    ∃ stored, shared.world.get taskId = some stored ∧ checkpointed stored = true
  sole : ∀ first second taskId, AtWork first taskId shared.trace → AtWork second taskId shared.trace → first = second
  resumed : ∀ taskId suspension,
    shared.trace.countP (concludes taskId suspension) ≤ landings start shared.trace taskId suspension
  free : ∀ taskId suspension, (shared.world.get taskId).bind envelope = some suspension →
    (∀ pid, ¬ AtWork pid taskId shared.trace) →
    shared.trace.countP (concludes taskId suspension) < landings start shared.trace taskId suspension
  overwriting : Overwriting start shared.trace

/-- A landing of a task that has not ended, or the write back of a task that the process has at work. -/
inductive Write (pid : Pid) (task : Task) (shared : State Pid) : Prop where
  | landing (checkpointed : checkpointed task = true) (working : task.status.state = .working)
      (open_ : ∀ stored, shared.world.get task.id = some stored → stored.terminal = false)
  | completion (conclusion : Term) (back : WrittenBack task conclusion) (work : AtWork pid task.id shared.trace)

def Justified (pid : Pid) (op : Op) (shared : State Pid) : Prop :=
  match op with
  | .resume task _ => checkpointed task = true
  | .put task => Write pid task shared
  | _ => True

/-! ## The steps -/

section Steps
variable {start : TaskStore} {shared : State Pid} {pid : Pid} {task : Task}

theorem Overwriting.quiet {event : Event Pid Op Reply} {trace : Trace Pid} (before : Overwriting start trace)
    (quiet : ∀ pid task, event ≠ ⟨pid, .put task, ()⟩) : Overwriting start (event :: trace) := by
  intro later earlier pid task split
  cases later with
  | nil =>
    obtain ⟨now, -⟩ := List.cons.inj split
    exact absurd now (quiet pid task)
  | cons first later =>
    obtain ⟨-, rest⟩ := List.cons.inj split
    exact before later earlier pid task rest

theorem Overwriting.write {trace : Trace Pid} (before : Overwriting start trace)
    (now : ∀ stored, (replay start trace).get task.id = some stored → Overwrites stored task) :
    Overwriting start (⟨pid, .put task, ()⟩ :: trace) := by
  intro later earlier other written split
  cases later with
  | nil =>
    obtain ⟨same, rfl⟩ := List.cons.inj split
    cases same
    exact now
  | cons first later =>
    obtain ⟨-, rest⟩ := List.cons.inj split
    exact before later earlier other written rest

/-- A step that neither writes nor concludes. -/
theorem Sound.quiet (sound : Sound start shared) {op : Op} {reply : Reply op}
    (replayed : replay start (⟨pid, op, reply⟩ :: shared.trace) = replay start shared.trace)
    (work : ∀ other taskId, AtWork other taskId (⟨pid, op, reply⟩ :: shared.trace) = AtWork other taskId shared.trace)
    (concluded : ∀ taskId suspension, concludes taskId suspension (⟨pid, op, reply⟩ : Event Pid Op Reply) = false)
    (landed : ∀ taskId suspension, lands taskId suspension (⟨pid, op, reply⟩ : Event Pid Op Reply) = false)
    (silent : ∀ other task, (⟨pid, op, reply⟩ : Event Pid Op Reply) ≠ ⟨other, .put task, ()⟩) :
    Sound start (shared.after pid op reply shared.world) := by
  obtain ⟨world, held, sole, resumed, free, overwriting⟩ := sound
  constructor
  · simpa only [Shared.after_world, Shared.after_trace, replayed] using world
  · simpa only [Shared.after_world, Shared.after_trace, work] using held
  · simpa only [Shared.after_trace, work] using sole
  · simpa [landings, concluded, landed] using resumed
  · simpa [landings, concluded, landed, work] using free
  · exact overwriting.quiet silent

theorem Sound.list (sound : Sound start shared) (tasks : List Task) :
    Sound start (shared.after pid .list tasks shared.world) :=
  sound.quiet rfl (fun _ _ => rfl) (fun _ _ => rfl) (fun _ _ => rfl) (fun _ _ same => by cases same)

theorem Sound.read (sound : Sound start shared) (taskId : String) (found : Option Task) :
    Sound start (shared.after pid (.get taskId) found shared.world) :=
  sound.quiet rfl (fun _ _ => rfl) (fun _ _ => rfl) (fun _ _ => rfl) (fun _ _ same => by cases same)

theorem Sound.now (sound : Sound start shared) (time : Term) :
    Sound start (shared.after pid .now time shared.world) :=
  sound.quiet rfl (fun _ _ => rfl) (fun _ _ => rfl) (fun _ _ => rfl) (fun _ _ same => by cases same)

theorem Sound.refused (sound : Sound start shared) (frame reason : Term) :
    Sound start (shared.after pid (.resume task frame) (.error reason) shared.world) :=
  sound.quiet rfl (fun _ _ => rfl) (fun _ _ => rfl) (fun _ _ => rfl) (fun _ _ same => by cases same)

/-- A resume that concludes puts the process at work, where nobody was. -/
theorem Sound.concluded (sound : Sound start shared) (suspended : checkpointed task = true)
    (current : (shared.world.get task.id).bind envelope = envelope task)
    (nobody : ∀ other, ¬ AtWork other task.id shared.trace) (frame conclusion : Term) :
    Sound start (shared.after pid (.resume task frame) (.ok conclusion) shared.world) := by
  obtain ⟨suspension, own⟩ := Option.isSome_iff_exists.mp suspended
  have own : envelope task = some suspension := own
  have strict := sound.free task.id suspension (current.trans own) nobody
  have landed : ∀ taskId suspension,
      landings start (shared.after pid (.resume task frame) (.ok conclusion) shared.world).trace taskId suspension =
        landings start shared.trace taskId suspension := fun _ _ => by simp [landings, lands]
  constructor
  · exact sound.world
  · rintro other taskId (⟨-, rfl⟩ | work)
    · obtain ⟨stored, found, same⟩ := Option.bind_eq_some_iff.mp (current.trans own)
      exact ⟨stored, found, Option.isSome_iff_exists.mpr ⟨suspension, same⟩⟩
    · exact sound.held other taskId work
  · rintro first second taskId (⟨rfl, rfl⟩ | left) (⟨rfl, same⟩ | right)
    · rfl
    · exact absurd right (nobody second)
    · exact absurd (same ▸ left) (nobody first)
    · exact sound.sole first second taskId left right
  · intro taskId other
    rw [landed]
    have before := sound.resumed taskId other
    rw [Shared.after_trace, List.countP_cons]
    split
    case isTrue here =>
      obtain ⟨rfl, same⟩ : task.id = taskId ∧ envelope task = some other := by simpa [concludes] using here
      obtain rfl : suspension = other := Option.some.inj (own.symm.trans same)
      exact strict
    case isFalse => exact before
  · intro taskId other found free
    rw [landed]
    have elsewhere : task.id ≠ taskId := fun same => free pid (.inl ⟨rfl, same⟩)
    have before := sound.free taskId other found fun other work => free other (.inr work)
    rw [Shared.after_trace, List.countP_cons_of_neg (by simp [concludes, elsewhere])]
    exact before
  · exact sound.overwriting.quiet fun _ _ same => by cases same

theorem Sound.written (sound : Sound start shared) (write : Write pid task shared) :
    Sound start (shared.after pid (.put task) () (shared.world.put task)) := by
  have concluded : ∀ taskId suspension,
      (shared.after pid (.put task) () (shared.world.put task)).trace.countP (concludes taskId suspension) =
        shared.trace.countP (concludes taskId suspension) := fun _ _ => by simp [concludes]
  have grown : ∀ taskId suspension, landings start shared.trace taskId suspension ≤
      landings start (shared.after pid (.put task) () (shared.world.put task)).trace taskId suspension := by
    intro taskId suspension
    simp only [landings, Shared.after_trace, List.countP_cons]
    omega
  constructor
  · exact congrArg (TaskStore.put · task) sound.world
  · rintro other taskId ⟨elsewhere, work⟩
    obtain ⟨stored, found, suspended⟩ := sound.held other taskId work
    rw [Shared.after_world, TaskStore.get_put]
    split
    case isTrue same =>
      subst same
      cases write with
      | landing checkpointed => exact ⟨task, rfl, checkpointed⟩
      | completion conclusion back own => exact absurd ⟨sound.sole pid other task.id own work, rfl⟩ elsewhere
    case isFalse => exact ⟨stored, found, suspended⟩
  · rintro first second taskId ⟨-, left⟩ ⟨-, right⟩
    exact sound.sole first second taskId left right
  · intro taskId suspension
    rw [concluded]
    exact Nat.le_trans (sound.resumed taskId suspension) (grown taskId suspension)
  · intro taskId suspension found free
    rw [concluded]
    rw [Shared.after_world, TaskStore.get_put] at found
    split at found
    case isTrue same =>
      subst same
      have own : envelope task = some suspension := found
      have landed : lands task.id suspension (⟨pid, .put task, ()⟩ : Event Pid Op Reply) = true := by
        simp [lands, own]
      have before := sound.resumed task.id suspension
      simp only [landings, Shared.after_trace, List.countP_cons_of_pos landed] at before ⊢
      omega
    case isFalse different =>
      have nobody : ∀ other, ¬ AtWork other taskId shared.trace := fun other work =>
        free other ⟨fun same => different same.2.symm, work⟩
      exact Nat.lt_of_lt_of_le (sound.free taskId suspension found nobody) (grown taskId suspension)
  · refine sound.overwriting.write fun stored found => ?_
    rw [← sound.world] at found
    cases write with
    | landing checkpointed working open_ =>
      refine ⟨fun former conclusion _ back => ?_, fun ended => ?_⟩
      · have state := back.state
        rw [working] at state
        cases state
      · rw [open_ stored found] at ended
        cases ended
    | completion conclusion back work =>
      obtain ⟨held, same, suspended⟩ := sound.held pid task.id work
      obtain rfl : stored = held := Option.some.inj (found.symm.trans same)
      refine ⟨fun former conclusion last _ => ?_, fun _ working => ?_⟩
      · have cleared : (envelope stored).isSome = true := suspended
        rw [last.cleared] at cleared
        cases cleared
      · rw [back.state] at working
        cases working

end Steps

/-! ## The discipline -/

theorem Sound.keeps {start : TaskStore} {pid : Pid} {op : Op} {choice : Choice} {reply : Reply op} {shared : State Pid}
    {world : TaskStore} (sound : Sound start shared) (orderly : Orderly pid op choice shared)
    (justified : Justified pid op shared) (served : exec choice shared.world op = some (reply, world)) :
    Sound start (shared.after pid op reply world) := by
  cases op with
  | list =>
    simp only [exec] at served
    split at served
    · cases served
      exact sound.list _
    · cases served
  | get taskId =>
    cases served
    exact sound.read taskId _
  | put task =>
    cases served
    exact sound.written justified
  | resume task frame =>
    obtain ⟨concluded, same⟩ := Prod.mk.inj (Option.some.inj served)
    subst same
    cases reply with
    | error reason => exact sound.refused frame reason
    | ok conclusion =>
      obtain ⟨current, nobody⟩ := orderly ⟨conclusion, concluded⟩
      exact sound.concluded justified current nobody frame conclusion
  | now =>
    cases served
    exact sound.now _

def handover (start : TaskStore) : Discipline (machine Pid) Unit where
  allowed := Orderly
  valid shared _ := Sound start shared
  justified pid op _ shared _ _ := Justified pid op shared
  keeps sound orderly justified served := Sound.keeps sound orderly justified served

section Peers
variable {start : TaskStore} {pid : Pid} {task : Task} {shared : State Pid}

/-- Only its own steps end the work of a process. -/
theorem atWork_stable (taskId : String) :
    (handover start).Stable pid fun shared _ => AtWork pid taskId shared.trace := by
  intro other shared after before final different moves work
  cases moves with
  | @served op choice reply world _ _ _ _ served =>
    cases op with
    | put task => exact ⟨fun same => different same.1, work⟩
    | resume task frame =>
      cases reply with
      | error reason => exact work
      | ok conclusion => exact .inr work
    | list => exact work
    | get taskId => exact work
    | now => exact work

/-- What a landing knows of the task it has read. -/
def ReadOpen (pid : Pid) (taskId : String) (shared : State Pid) : Prop :=
  EndedSince pid taskId shared.trace ∨ ∀ stored, shared.world.get taskId = some stored → stored.terminal = false

theorem readOpen_stable (taskId : String) : (handover start).Stable pid fun shared _ => ReadOpen pid taskId shared := by
  intro other shared after before final different moves known
  cases moves with
  | @served op choice reply world _ _ _ justified served =>
    cases op with
    | put task =>
      cases served
      by_cases same : taskId = task.id
      · subst same
        cases ended : task.terminal with
        | true => exact .inl (.inl ⟨rfl, ended⟩)
        | false =>
          refine .inr fun stored found => ?_
          rw [Shared.after_world, TaskStore.get_put, if_pos rfl] at found
          cases found
          exact ended
      · refine known.imp .inr fun fresh stored found => fresh stored ?_
        rwa [Shared.after_world, TaskStore.get_put, if_neg same] at found
    | resume task frame =>
      cases served
      exact known
    | list =>
      simp only [machine, exec] at served
      split at served
      · cases served
        exact known
      · cases served
    | get read =>
      cases served
      exact known.imp (fun ended => ⟨fun same => different same.1, ended⟩) id
    | now =>
      cases served
      exact known

/-! ## The processes -/

/-- What a peer writes back. -/
theorem completed_writtenBack (task : Task) (conclusion : Term) : WrittenBack (completed task conclusion) conclusion where
  state := rfl
  cleared := by
    have other : metadataKey ≠ resultMetadataKey := by decide
    simp only [envelope, completed, cleared, TermMap.get?_put, if_neg other]
    exact get?_deleteKey_self task.metadata metadataKey
  result := by simp [result, completed, TermMap.get?_put]

/-- What a drain lands. -/
theorem suspended_checkpointed (task : Task) (suspension : Term) : envelope (suspended task suspension) = some suspension := by
  have auth : metadataKey ≠ .binary "a2a.auth" := by decide
  have stream : metadataKey ≠ .atom "stream" := by decide
  simp only [envelope, suspended]
  rw [get?_deleteKey _ stream, get?_deleteKey _ auth, TermMap.get?_put, if_pos rfl]

variable {α : Type}

/-- Nothing is promised of what a process returns. -/
abbrev Keeps (start : TaskStore) (pid : Pid) (program : Peer α) : Prop :=
  ∀ shared : State Pid, (handover start).valid shared () →
    (handover start).Safe pid (fun _ _ _ => True) program shared ()

theorem Keeps.pure (value : α) : Keeps start pid (Pure.pure value : Peer α) :=
  fun _ _ => Discipline.Safe.pure (fun _ _ => True) .true trivial fun _ _ _ _ => trivial

theorem Keeps.bind {β : Type} {program : Peer α} {next : α → Peer β} (first : Keeps start pid program)
    (rest : ∀ value, Keeps start pid (next value)) : Keeps start pid (program >>= next) :=
  fun shared sound => Discipline.Safe.bind sound (first shared sound) fun value after _ sound _ => rest value after sound

theorem rehydrateOne_keeps (task : Task) : Keeps start pid (rehydrateOne task) := by
  intro shared _
  unfold rehydrateOne
  cases own : envelope task with
  | none => exact .pure (fun _ _ => True) .true trivial fun _ _ _ _ => trivial
  | some suspension =>
    refine Discipline.Safe.request (fun _ _ => True) .true trivial ?_
    intro shared before _ _ choice reply world _ _
    refine ⟨(), Option.isSome_iff_exists.mpr ⟨suspension, own⟩, ?_⟩
    cases reply with
    | error reason => exact .pure (fun _ _ => True) .true trivial fun _ _ _ _ => trivial
    | ok conclusion =>
      refine Discipline.Safe.request _ (atWork_stable task.id) (.inl ⟨rfl, rfl⟩) ?_
      intro shared before _ work choice reply world _ _
      refine ⟨(), .completion conclusion (completed_writtenBack task conclusion) work, ?_⟩
      exact .pure (fun _ _ => True) .true trivial fun _ _ _ _ => trivial

theorem rehydrateEach_keeps (tasks : List Task) (done : List Resumed × List Failed) :
    Keeps start pid (rehydrateEach tasks done) := by
  induction tasks generalizing done with
  | nil => exact .pure done
  | cons task rest ih =>
    refine (rehydrateOne_keeps task).bind fun answer => ?_
    cases answer with
    | ok entry => exact ih _
    | error entry => exact ih _

theorem rehydrate_keeps : Keeps start pid rehydrate := by
  refine Keeps.bind (Keeps.bind ?_ fun tasks => .pure _) fun suspended =>
    (rehydrateEach_keeps suspended ([], [])).bind fun answer => ?_
  · intro shared _
    refine Discipline.Safe.request (fun _ _ => True) .true trivial ?_
    intro shared before _ _ choice reply world _ _
    exact ⟨(), trivial, .pure (fun _ _ => True) .true trivial fun _ _ _ _ => trivial⟩
  · obtain ⟨resumed, failed⟩ := answer
    cases failed with
    | nil => exact .pure _
    | cons _ _ => exact .pure _

/-- From the read on, the landing knows that its task is open, or that it has ended since. -/
theorem landing_safe (frame : Term) (opts : Options) {shared : State Pid} (known : ReadOpen pid task.id shared) :
    (handover start).Safe pid (fun _ _ _ => True) (do
      let time ← utcNow
      let checkpointed := suspended task (landedEnvelope frame time opts)
      Store.put checkpointed
      pure checkpointed : Peer Task) shared () := by
  refine Discipline.Safe.request _ (readOpen_stable task.id) known ?_
  intro shared before _ known clock _ world _ served
  cases served
  refine ⟨(), trivial, Discipline.Safe.request _ (readOpen_stable task.id) known ?_⟩
  intro shared before _ known choice reply world orderly _
  have landed := suspended_checkpointed task (landedEnvelope frame clock.time opts)
  have suspends : checkpointed (suspended task (landedEnvelope frame clock.time opts)) = true :=
    Option.isSome_iff_exists.mpr ⟨_, landed⟩
  refine ⟨(), .landing suspends rfl fun stored found => ?_, .pure (fun _ _ => True) .true trivial fun _ _ _ _ => trivial⟩
  rcases known with ended | fresh
  · exact absurd ended (orderly suspends)
  · exact fresh stored found

theorem land_keeps (taskId : String) (frame : Term) (opts : Options) : Keeps start pid (land taskId frame opts) := by
  intro shared _
  refine Discipline.Safe.request (fun _ _ => True) .true trivial ?_
  intro shared before _ _ choice found world orderly served
  cases served
  refine ⟨(), trivial, ?_⟩
  cases found : shared.world.get taskId with
  | none => exact landing_safe frame opts (.inr orderly)
  | some task =>
    have same : task.id = taskId := by simpa using List.find?_some found
    subst same
    exact landing_safe frame opts (.inr orderly)

theorem work_keeps (jobs : List Job) : Keeps start pid (work jobs) := by
  induction jobs with
  | nil => exact .pure ()
  | cons job rest ih =>
    refine Keeps.bind ?_ fun _ => ih
    cases job with
    | rehydrate => exact rehydrate_keeps.bind fun _ => .pure ()
    | land taskId frame opts => exact (land_keeps taskId frame opts).bind fun _ => .pure ()

end Peers

/-! ## Runs -/

/-- The processes of the cluster before their first request. -/
def started (start : TaskStore) (jobs : Pid → List Job) : Config Pid Op Reply TaskStore Unit :=
  ⟨⟨start, []⟩, fun pid => work (jobs pid)⟩

theorem Sound.start (start : TaskStore) : Sound start (⟨start, []⟩ : State Pid) where
  world := rfl
  held _ _ := False.elim
  sole _ _ _ := False.elim
  resumed _ _ := Nat.zero_le _
  free taskId suspension found _ := by simp [landings, found]
  overwriting later earlier pid task split := by simp at split

theorem completed_once [DecidableEq Pid] (start : TaskStore) (jobs : Pid → List Job) {final : Config Pid Op Reply TaskStore Unit}
    (reached : (machine Pid).Reaches Orderly (started start jobs) final) : CompletedOnce start final.shared.trace := by
  have verified : (handover start).Verified (fun _ _ _ _ => True) (started start jobs) () :=
    ⟨.start start, fun pid => work_keeps (jobs pid) _ (.start start)⟩
  obtain ⟨_, verified⟩ := verified.reaches reached
  have sound : Sound start final.shared := verified.valid
  exact ⟨sound.resumed, sound.overwriting⟩

/-! ### One suspended task -/

private def parked : Task :=
  { id := "task"
    contextId := none
    status := ⟨.working, none⟩
    metadata := [(metadataKey, .map (entriesOf [(.binary "frame", .integer 1)]))] }

private def answers (answer : String) : Choice := { order := [parked], outcome := .ok (.atom answer) }

theorem taken_up_once : ∃ final,
    (machine Nat).Reaches Orderly (started [parked] fun _ => [.rehydrate]) final ∧
    final.shared.world = [completed parked (.atom "done")] ∧ CompletedOnce [parked] final.shared.trace := by
  have listed : (machine Nat).exec 0 .list (answers "done") [parked] = some ([parked], [parked]) := by decide
  have resumed : (machine Nat).exec 0 (.resume parked (.integer 1)) (answers "done") [parked] =
      some (.ok (.atom "done"), [parked]) := rfl
  have written : (machine Nat).exec 0 (.put (completed parked (.atom "done"))) {} [parked] =
      some ((), [completed parked (.atom "done")]) := by decide
  let seen : State Nat := (⟨[parked], []⟩ : State Nat).after 0 .list [parked] [parked]
  have current : Orderly 0 (.resume parked (.integer 1)) (answers "done") seen := fun _ => ⟨rfl, fun _ work => work⟩
  have back : Orderly 0 (.put (completed parked (.atom "done"))) {}
      (seen.after 0 (.resume parked (.integer 1)) (.ok (.atom "done")) [parked]) :=
    fun landed => absurd landed (by decide)
  have before : (machine Nat).Reaches Orderly (started [parked] fun _ => [.rehydrate])
      (started [parked] fun _ => [.rehydrate]) := .start
  have reached := ((before.step rfl trivial listed).step rfl current resumed).step rfl back written
  exact ⟨_, reached, rfl, completed_once [parked] (fun _ => [.rehydrate]) reached⟩

/-- Two peers take up the task from the same listing, and a drain lands it that has read it before. -/
private def jobs : Nat → List Job
  | 2 => [.land "task" (.integer 1) { sourceNode := .atom "node" }]
  | _ => [.rehydrate]

private def schedule : List (Nat × Choice) :=
  [(2, {}), (0, answers "first"), (1, answers "second"), (0, answers "first"), (1, answers "second"), (0, {}), (1, {})]

/-- The last write of a run, with the task it found. -/
def lastWrite (start : TaskStore) : Trace Pid → Option (Option Task × Task)
  | ⟨_, .put task, _⟩ :: earlier => some ((replay start earlier).get task.id, task)
  | _ => none

theorem taken_up_twice : ∃ final, (machine Nat).Reachable (started [parked] jobs) final ∧
    ¬ CompletedOnce [parked] final.shared.trace ∧
    lastWrite [parked] final.shared.trace =
      some (some (completed parked (.atom "first")), completed parked (.atom "second")) := by
  have ran : (((machine Nat).run schedule (started [parked] jobs)).map fun final =>
      ((parked.metadata.get? metadataKey).map fun suspension =>
        (final.shared.trace.countP (concludes "task" suspension), landings [parked] final.shared.trace "task" suspension),
        lastWrite [parked] final.shared.trace)) =
      some (some (2, 1), some (some (completed parked (.atom "first")), completed parked (.atom "second"))) := by
    decide
  obtain ⟨final, reached, result⟩ := Option.map_eq_some_iff.mp ran
  obtain ⟨counts, last⟩ := Prod.mk.inj result
  refine ⟨final, Machine.reachable_of_run .start reached, fun once => ?_, last⟩
  obtain ⟨suspension, _, counts⟩ := Option.map_eq_some_iff.mp counts
  obtain ⟨twice, landed⟩ := Prod.mk.inj counts
  have most := once.resumed "task" suspension
  rw [twice, landed] at most
  exact absurd most (by decide)

end AshA2A.Cluster.Handover
