import AshA2A.A2ATransport.TaskEvents
import Mathlib.Data.List.Induction

/-! What the log of a task holds after any operations, and when its numbers are given again. -/

namespace AshA2A.A2ATransport.TaskEvents

inductive Op where
  | publish (taskId kind : String) (payload : Json) (final : Bool)
  | subscribe (taskId : String)
  | sweep

/-- The process beside all that was ever published. -/
structure Trace where
  state : State
  given : String → List Event := fun _ => []

def Trace.step (trace : Trace) : Op → Trace
  | .publish taskId kind payload final =>
    { state := publish trace.state taskId kind payload final
      given := Function.update trace.given taskId
        (trace.given taskId ++ [numbered trace.state taskId kind payload final]) }
  | .subscribe _ => trace
  | .sweep => { trace with state := sweep trace.state }

def run (maxEvents : Nat) (ops : List Op) : Trace := ops.foldl Trace.step { state := { maxEvents } }

/-- The number that was given last, and is still known. -/
def State.last (state : State) (taskId : String) : Nat := (state.seqs taskId).getD 0

/-! ## One step -/

section Step

variable (state : State) (taskId kind : String) (payload : Json) (final : Bool)

@[simp] theorem publish_seqs : (publish state taskId kind payload final).seqs =
    Function.update state.seqs taskId (some (state.last taskId + 1)) := by
  unfold publish trim
  dsimp only
  split <;> split <;> rfl

@[simp] theorem publish_maxEvents : (publish state taskId kind payload final).maxEvents = state.maxEvents := by
  unfold publish trim
  dsimp only
  split <;> split <;> rfl

@[simp] theorem publish_timers : (publish state taskId kind payload final).timers =
    if final then state.timers ++ [(taskId, state.last taskId + 1)] else state.timers := by
  unfold publish trim
  dsimp only
  split <;> split <;> rfl

theorem publish_counts : (publish state taskId kind payload final).counts =
    if state.maxEvents < (state.counts taskId).getD 0 + 1 then state.counts
    else Function.update state.counts taskId (some ((state.counts taskId).getD 0 + 1)) := by
  unfold publish trim
  dsimp only
  split <;> split <;> rfl

theorem publish_rows : (publish state taskId kind payload final).rows =
    if state.maxEvents < (state.counts taskId).getD 0 + 1 then
      Function.update state.rows taskId
        ((insertRow (numbered state taskId kind payload final) (state.rows taskId)).filter fun row =>
          row.seq ≠ state.last taskId + 1 - state.maxEvents)
    else Function.update state.rows taskId
      (insertRow (numbered state taskId kind payload final) (state.rows taskId)) := by
  unfold publish trim
  dsimp only
  split <;> split <;> simp only [Function.update_self, Function.update_idem] <;> rfl

end Step

theorem insertRow_append {event : Event} {rows : List Event} (later : ∀ row ∈ rows, row.seq < event.seq) :
    insertRow event rows = rows ++ [event] := by
  induction rows with
  | nil => rfl
  | cons row rows ih =>
    obtain ⟨first, rest⟩ := List.forall_mem_cons.mp later
    rw [insertRow, if_neg (by omega), if_neg (by omega), ih rest]
    rfl

theorem filter_first {events : List Event} {first count : Nat}
    (consecutive : events.map Event.seq = List.range' first count) :
    (events.filter fun row => row.seq ≠ first) = events.drop 1 := by
  cases events with
  | nil => rfl
  | cons event rest =>
    cases count with
    | zero => simp at consecutive
    | succ count =>
      rw [List.map_cons, List.range'_succ, List.cons.injEq] at consecutive
      obtain ⟨rfl, consecutive⟩ := consecutive
      rw [List.filter_cons_of_neg (by simp), List.drop_one, List.tail_cons, List.filter_eq_self]
      intro row member
      have later : row.seq ∈ List.range' (event.seq + 1) count := consecutive ▸ List.mem_map_of_mem member
      have bounds := List.mem_range'_1.mp later
      simpa using (by omega : row.seq ≠ event.seq)

/-! ## What is kept -/

/-- The events of a task that its number still counts, and the table with the last of them. -/
structure Kept (state : State) (given current : List Event) (taskId : String) : Prop where
  recent : current <:+ given
  known : state.seqs taskId ≠ some 0
  consecutive : current.map Event.seq = List.range' 1 (state.last taskId)
  rows : state.rows taskId = current.drop (current.length - state.maxEvents)
  counts : (state.counts taskId).getD 0 = min (state.last taskId) state.maxEvents

/-- The timers of a task are set for later and later final events that are still counted. -/
structure Pending (timers : List (String × Nat)) (current : String → List Event) : Prop where
  final : ∀ timer ∈ timers, ∃ event ∈ current timer.1, event.seq = timer.2 ∧ event.final
  ascending : timers.Pairwise fun first second => first.1 = second.1 → first.2 < second.2

structure Lawful (trace : Trace) (current : String → List Event) : Prop where
  kept : ∀ taskId, Kept trace.state (trace.given taskId) (current taskId) taskId
  pending : Pending trace.state.timers current

theorem Kept.length {state : State} {given current : List Event} {taskId : String}
    (kept : Kept state given current taskId) : current.length = state.last taskId := by
  simpa using congrArg List.length kept.consecutive

theorem Kept.seq_le {state : State} {given current : List Event} {taskId : String}
    (kept : Kept state given current taskId) : ∀ event ∈ current, event.seq ≤ state.last taskId := by
  intro event member
  have within : event.seq ∈ List.range' 1 (state.last taskId) := kept.consecutive ▸ List.mem_map_of_mem member
  have bounds := List.mem_range'_1.mp within
  omega

theorem last_publish (state : State) (taskId kind other : String) (payload : Json) (final : Bool) :
    (publish state taskId kind payload final).last other =
      if other = taskId then state.last taskId + 1 else state.last other := by
  by_cases same : other = taskId <;> simp [State.last, Function.update, same]

/-- The row that the trim deletes is the oldest one. -/
theorem rows_publish {state : State} {given current : List Event} {taskId kind : String} {payload : Json}
    {final : Bool} (kept : Kept state given current taskId) :
    (publish state taskId kind payload final).rows taskId =
      (current ++ [numbered state taskId kind payload final]).drop (current.length + 1 - state.maxEvents) := by
  have length := kept.length
  have inserted : insertRow (numbered state taskId kind payload final) (state.rows taskId) =
      (current ++ [numbered state taskId kind payload final]).drop (current.length - state.maxEvents) := by
    rw [insertRow_append, kept.rows, List.drop_append_of_le_length (by omega)]
    intro row member
    have old := kept.seq_le row (List.mem_of_mem_drop (kept.rows ▸ member))
    exact Nat.lt_succ_of_le old
  have consecutive : (current ++ [numbered state taskId kind payload final]).map Event.seq =
      List.range' 1 (state.last taskId + 1) := by
    rw [List.map_append, kept.consecutive, List.range'_1_concat, Nat.add_comm]
    rfl
  rw [publish_rows, kept.counts, inserted]
  split
  next full =>
    have dropped := congrArg (List.drop (current.length - state.maxEvents)) consecutive
    rw [← List.map_drop, List.drop_range'] at dropped
    have oldest : state.last taskId + 1 - state.maxEvents = 1 + (current.length - state.maxEvents) * 1 := by omega
    rw [Function.update_self, oldest, filter_first dropped, List.drop_drop]
    congr 1
    omega
  next room =>
    rw [Function.update_self]
    congr 1
    omega

theorem Kept.publish {state : State} {given current : List Event} {taskId kind : String} {payload : Json}
    {final : Bool} (kept : Kept state given current taskId) :
    Kept (publish state taskId kind payload final) (given ++ [numbered state taskId kind payload final])
      (current ++ [numbered state taskId kind payload final]) taskId where
  recent := by
    obtain ⟨forgotten, rfl⟩ := kept.recent
    exact ⟨forgotten, by rw [List.append_assoc]⟩
  known := by simp
  consecutive := by
    rw [last_publish, if_pos rfl, List.map_append, kept.consecutive, List.range'_1_concat, Nat.add_comm]
    rfl
  rows := by
    rw [rows_publish kept, publish_maxEvents, List.length_append]
    rfl
  counts := by
    have counts := kept.counts
    rw [last_publish, if_pos rfl, publish_maxEvents, publish_counts]
    split
    · omega
    · simp
      omega

theorem Kept.other {state next : State} {given current : List Event} {taskId : String}
    (kept : Kept state given current taskId) (seqs : next.seqs taskId = state.seqs taskId)
    (rows : next.rows taskId = state.rows taskId) (counts : next.counts taskId = state.counts taskId)
    (most : next.maxEvents = state.maxEvents) : Kept next given current taskId where
  recent := kept.recent
  known := seqs ▸ kept.known
  consecutive := by rw [State.last, seqs]; exact kept.consecutive
  rows := by rw [rows, most]; exact kept.rows
  counts := by rw [counts, most, State.last, seqs]; exact kept.counts

theorem Pending.publish {state : State} {given current : List Event} {all : String → List Event}
    {taskId kind : String} {payload : Json} {final : Bool} (pending : Pending state.timers all)
    (counted : all taskId = current) (kept : Kept state given current taskId) :
    Pending (publish state taskId kind payload final).timers
      (Function.update all taskId (current ++ [numbered state taskId kind payload final])) := by
  have grown : ∀ timer ∈ state.timers, ∃ event ∈ Function.update all taskId
      (current ++ [numbered state taskId kind payload final]) timer.1, event.seq = timer.2 ∧ event.final := by
    intro timer member
    obtain ⟨event, within, facts⟩ := pending.final timer member
    by_cases same : timer.1 = taskId
    · rw [same, Function.update_self]
      exact ⟨event, List.mem_append_left _ (counted ▸ same ▸ within), facts⟩
    · rw [Function.update_of_ne same]
      exact ⟨event, within, facts⟩
  rw [publish_timers]
  split
  next last =>
    refine ⟨fun timer member => ?_, List.pairwise_append.mpr ⟨pending.ascending, List.pairwise_singleton .., ?_⟩⟩
    · obtain member | member := List.mem_append.mp member
      · exact grown timer member
      · obtain rfl := List.mem_singleton.mp member
        rw [Function.update_self]
        exact ⟨_, List.mem_append_right _ (List.mem_singleton_self _), rfl, last⟩
    · intro timer member other single same
      obtain rfl := List.mem_singleton.mp single
      obtain ⟨event, within, numbered, _⟩ := pending.final timer member
      have bound := kept.seq_le event (counted ▸ (show timer.1 = taskId from same) ▸ within)
      exact numbered ▸ Nat.lt_succ_of_le bound
  next => exact ⟨grown, pending.ascending⟩

theorem Lawful.publish {trace : Trace} {current : String → List Event} (lawful : Lawful trace current)
    (taskId kind : String) (payload : Json) (final : Bool) :
    Lawful (trace.step (.publish taskId kind payload final)) (Function.update current taskId
      (current taskId ++ [numbered trace.state taskId kind payload final])) where
  kept other := by
    by_cases same : other = taskId
    · subst same
      simp only [Trace.step, Function.update_self]
      exact (lawful.kept other).publish
    · simp only [Trace.step, Function.update_of_ne same]
      refine (lawful.kept other).other ?_ ?_ ?_ (publish_maxEvents ..)
      · rw [publish_seqs, Function.update_of_ne same]
      · rw [publish_rows]
        split <;> rw [Function.update_of_ne same]
      · rw [publish_counts]
        split
        · rfl
        · rw [Function.update_of_ne same]
  pending := lawful.pending.publish rfl (lawful.kept taskId)

/-- The task that the next sweep forgets. -/
def State.expired (state : State) : Option String :=
  match state.timers with
  | (taskId, seq) :: _ => if state.seqs taskId = some seq then some taskId else none
  | [] => none

theorem Pending.tail {state : State} {current : String → List Event} (pending : Pending state.timers current) :
    Pending state.timers.tail current :=
  ⟨fun timer member => pending.final timer (List.mem_of_mem_tail member), pending.ascending.tail⟩

theorem sweep_timers (state : State) : (sweep state).timers = state.timers.tail := by
  unfold sweep
  split
  next none => rw [none]; rfl
  next given => split <;> rw [given] <;> rfl

theorem sweep_maxEvents (state : State) : (sweep state).maxEvents = state.maxEvents := by
  unfold sweep
  split
  · rfl
  · split <;> rfl

theorem sweep_idle {state : State} (idle : state.expired = none) : (sweep state).seqs = state.seqs ∧
    (sweep state).rows = state.rows ∧ (sweep state).counts = state.counts := by
  unfold sweep
  unfold State.expired at idle
  split
  · exact ⟨rfl, rfl, rfl⟩
  next given =>
    split
    next known => simp [given, known] at idle
    next => exact ⟨rfl, rfl, rfl⟩

theorem sweep_expired {state : State} {taskId : String} (expired : state.expired = some taskId) :
    (sweep state).seqs = Function.update state.seqs taskId none ∧
      (sweep state).rows = Function.update state.rows taskId [] ∧
      (sweep state).counts = Function.update state.counts taskId none := by
  unfold State.expired at expired
  unfold sweep
  split at expired
  next given =>
    split at expired
    next known => cases expired; simp [given, known]
    next => cases expired
  · cases expired

/-- Nothing of the task is pending once its last number is forgotten. -/
theorem Lawful.expired {trace : Trace} {current : String → List Event} (lawful : Lawful trace current)
    {taskId : String} (expired : trace.state.expired = some taskId) :
    (∃ event ∈ current taskId, event.seq = trace.state.last taskId ∧ event.final) ∧
      ∀ timer ∈ trace.state.timers.tail, timer.1 ≠ taskId := by
  unfold State.expired at expired
  split at expired
  next other seq rest given =>
    split at expired
    next known =>
      cases expired
      have last : trace.state.last taskId = seq := by rw [State.last, known]; rfl
      obtain ⟨event, member, numbered, final⟩ := lawful.pending.final (taskId, seq) (by rw [given]; simp)
      refine ⟨⟨event, member, by rw [last]; exact numbered, final⟩, ?_⟩
      rw [given, List.tail_cons]
      rintro timer later rfl
      have ascending := lawful.pending.ascending
      rw [given, List.pairwise_cons] at ascending
      have after := ascending.1 timer later rfl
      obtain ⟨event, member, numbered, _⟩ := lawful.pending.final timer (by rw [given]; exact List.mem_cons_of_mem _ later)
      have bound := (lawful.kept timer.1).seq_le event member
      have after : seq < timer.2 := after
      omega
    next => cases expired
  · cases expired

theorem Lawful.idle {trace : Trace} {current : String → List Event} (lawful : Lawful trace current)
    (idle : trace.state.expired = none) : Lawful (trace.step .sweep) current where
  kept taskId := by
    obtain ⟨seqs, rows, counts⟩ := sweep_idle idle
    exact (lawful.kept taskId).other (congrFun seqs taskId) (congrFun rows taskId) (congrFun counts taskId)
      (sweep_maxEvents _)
  pending := by
    show Pending (sweep trace.state).timers current
    rw [sweep_timers]
    exact lawful.pending.tail

theorem Lawful.cleared {trace : Trace} {current : String → List Event} (lawful : Lawful trace current)
    {taskId : String} (expired : trace.state.expired = some taskId) :
    Lawful (trace.step .sweep) (Function.update current taskId []) where
  kept other := by
    obtain ⟨seqs, rows, counts⟩ := sweep_expired expired
    by_cases same : other = taskId
    · subst same
      rw [Function.update_self]
      refine ⟨List.nil_suffix, ?_, ?_, ?_, ?_⟩ <;> simp [Trace.step, State.last, seqs, rows, counts]
    · rw [Function.update_of_ne same]
      refine (lawful.kept other).other ?_ ?_ ?_ (sweep_maxEvents _)
      · simp [Trace.step, seqs, same]
      · simp [Trace.step, rows, same]
      · simp [Trace.step, counts, same]
  pending := by
    obtain ⟨_, others⟩ := lawful.expired expired
    show Pending (sweep trace.state).timers _
    rw [sweep_timers]
    refine ⟨fun timer member => ?_, lawful.pending.tail.ascending⟩
    rw [Function.update_of_ne (others timer member)]
    exact lawful.pending.tail.final timer member

theorem Lawful.step {trace : Trace} {current : String → List Event} (lawful : Lawful trace current) (op : Op) :
    ∃ next, Lawful (trace.step op) next := by
  cases op with
  | publish taskId kind payload final => exact ⟨_, lawful.publish taskId kind payload final⟩
  | subscribe taskId => exact ⟨current, lawful⟩
  | sweep =>
    cases expired : trace.state.expired with
    | none => exact ⟨current, lawful.idle expired⟩
    | some taskId => exact ⟨_, lawful.cleared expired⟩

theorem initial_lawful (maxEvents : Nat) : Lawful { state := { maxEvents } } fun _ => [] where
  kept taskId := by
    refine ⟨List.nil_suffix, ?_, ?_, ?_, ?_⟩ <;> simp [State.last]
  pending := ⟨nofun, .nil⟩

theorem run_append (maxEvents : Nat) (before after : List Op) :
    run maxEvents (before ++ after) = after.foldl Trace.step (run maxEvents before) := by
  rw [run, run, List.foldl_append]

theorem run_lawful (maxEvents : Nat) (ops : List Op) : ∃ current, Lawful (run maxEvents ops) current := by
  induction ops using List.reverseRecOn with
  | nil => exact ⟨_, initial_lawful maxEvents⟩
  | append_singleton ops op ih =>
    obtain ⟨current, lawful⟩ := ih
    rw [run_append]
    exact lawful.step op

theorem run_maxEvents (maxEvents : Nat) (ops : List Op) : (run maxEvents ops).state.maxEvents = maxEvents := by
  induction ops using List.reverseRecOn with
  | nil => rfl
  | append_singleton ops op ih =>
    rw [run_append]
    cases op with
    | publish taskId kind payload final => exact (publish_maxEvents ..).trans ih
    | subscribe taskId => exact ih
    | sweep => exact (sweep_maxEvents _).trans ih

/-! ## Numbers given again -/

/-- The table holds the newest events of the task, without a gap and no more than the limit. -/
def Contiguous (maxEvents : Nat) (trace : Trace) (taskId : String) : Prop :=
  ∃ count first, count ≤ maxEvents ∧ count ≤ (trace.given taskId).length ∧
    backlog trace.state taskId = (trace.given taskId).drop ((trace.given taskId).length - count) ∧
    (backlog trace.state taskId).map Event.seq = List.range' first count

/-- No number stands for two events, and what is resumed after an event is what came later. -/
structure Unrepeated (trace : Trace) (taskId : String) : Prop where
  numbers : ((trace.given taskId).map Event.seq).Nodup
  resumed : ∀ before event after, trace.given taskId = before ++ event :: after →
    ((backlog trace.state taskId).filter fun row => event.seq < row.seq) =
      after.drop (after.length - (backlog trace.state taskId).length)

/-- Nothing is published for a task whose number was forgotten. -/
def Steady (trace : Trace) : Op → Prop
  | .publish taskId _ _ _ => trace.state.seqs taskId = none → trace.given taskId = []
  | .subscribe _ | .sweep => True

theorem Kept.contiguous {trace : Trace} {current : List Event} {taskId : String}
    (kept : Kept trace.state (trace.given taskId) current taskId) :
    Contiguous trace.state.maxEvents trace taskId := by
  obtain ⟨forgotten, split⟩ := kept.recent
  have length := kept.length
  refine ⟨min current.length trace.state.maxEvents, 1 + (current.length - trace.state.maxEvents) * 1, by omega, ?_, ?_,
    ?_⟩
  · rw [← split, List.length_append]
    omega
  · have old : forgotten.drop (forgotten.length + current.length - min current.length trace.state.maxEvents) = [] :=
      List.drop_eq_nil_of_le (by omega)
    rw [backlog, kept.rows, ← split, List.length_append, List.drop_append, old, List.nil_append]
    congr 1
    omega
  · rw [backlog, kept.rows, List.map_drop, kept.consecutive, List.drop_range']
    congr 1
    omega

/-- All that was published is numbered from 1 on, and a number that is known is the last one. -/
structure Numbered (trace : Trace) (taskId : String) : Prop where
  all : (trace.given taskId).map Event.seq = List.range' 1 (trace.given taskId).length
  known : trace.state.seqs taskId = none ∨ trace.state.last taskId = (trace.given taskId).length

theorem Numbered.step {trace : Trace} {op : Op} (steady : Steady trace op) (numbered : ∀ taskId, Numbered trace taskId)
    (taskId : String) : Numbered (trace.step op) taskId := by
  obtain ⟨all, known⟩ := numbered taskId
  cases op with
  | publish other kind payload final =>
    by_cases same : taskId = other
    · subst same
      have next : trace.state.last taskId = (trace.given taskId).length := by
        obtain none | last := known
        · rw [State.last, none, steady none]
          rfl
        · exact last
      refine ⟨?_, .inr ?_⟩ <;> simp only [Trace.step, Function.update_self, last_publish, List.length_append]
      · rw [List.map_append, all, List.length_singleton, List.range'_1_concat, ← next, Nat.add_comm 1]
        rfl
      · rw [if_pos trivial, next]
        rfl
    · refine ⟨?_, ?_⟩ <;> simp only [Trace.step, Function.update_of_ne same, last_publish, if_neg same]
      · exact all
      · rwa [publish_seqs, Function.update_of_ne same]
  | subscribe other => exact ⟨all, known⟩
  | sweep =>
    refine ⟨all, ?_⟩
    show (sweep trace.state).seqs taskId = none ∨ ((sweep trace.state).seqs taskId).getD 0 = _
    cases expired : trace.state.expired with
    | none =>
      rw [(sweep_idle expired).1]
      exact known
    | some other =>
      rw [(sweep_expired expired).1]
      by_cases same : taskId = other
      · exact .inl (by rw [same, Function.update_self])
      · rwa [Function.update_of_ne same]

theorem run_numbered {maxEvents : Nat} {ops : List Op}
    (steady : ∀ before op after, ops = before ++ op :: after → Steady (run maxEvents before) op) (taskId : String) :
    Numbered (run maxEvents ops) taskId := by
  induction ops using List.reverseRecOn generalizing taskId with
  | nil => exact ⟨rfl, .inl rfl⟩
  | append_singleton ops op ih =>
    rw [run_append]
    refine Numbered.step (steady ops op [] rfl) (ih fun before other after split => ?_) taskId
    exact steady before other (after ++ [op]) (by rw [split, List.append_assoc, List.cons_append])

theorem Numbered.unrepeated {trace : Trace} {taskId : String} {maxEvents : Nat} (numbered : Numbered trace taskId)
    (contiguous : Contiguous maxEvents trace taskId) : Unrepeated trace taskId := by
  have ascending : ((trace.given taskId).map Event.seq).Pairwise (· < ·) := numbered.all ▸ List.pairwise_lt_range'
  refine ⟨ascending.imp Nat.ne_of_lt, fun before event after split => ?_⟩
  obtain ⟨count, first, _, within, rows, _⟩ := contiguous
  have length : (backlog trace.state taskId).length = count := by
    rw [rows, List.length_drop]
    omega
  have whole : trace.given taskId = (before ++ [event]) ++ after := by rw [split, List.append_assoc]; rfl
  rw [whole, List.map_append, List.map_append, List.pairwise_append, List.pairwise_append] at ascending
  obtain ⟨⟨_, _, earlier⟩, _, later⟩ := ascending
  have old : ∀ row ∈ before ++ [event], ¬ event.seq < row.seq := by
    intro row member
    obtain member | member := List.mem_append.mp member
    · have before := earlier _ (List.mem_map_of_mem member) _ (List.mem_map_of_mem (List.mem_singleton_self event))
      omega
    · rw [List.mem_singleton.mp member]
      exact lt_irrefl _
  have new : ∀ row ∈ after, event.seq < row.seq := fun row member =>
    later _ (List.mem_append_right _ (List.mem_map_of_mem (List.mem_singleton_self event))) _ (List.mem_map_of_mem member)
  rw [length, rows, whole, List.drop_append, List.filter_append,
    List.filter_eq_nil_iff.mpr fun row member => by simpa using old row (List.mem_of_mem_drop member),
    List.filter_eq_self.mpr fun row member => by simpa using new row (List.mem_of_mem_drop member), List.nil_append]
  have total := congrArg List.length whole
  simp only [List.length_append] at total ⊢
  congr 1
  omega

theorem given_step (trace : Trace) (op : Op) (taskId : String) : trace.given taskId <+: (trace.step op).given taskId := by
  cases op with
  | publish other kind payload final =>
    by_cases same : taskId = other
    · subst same
      simp only [Trace.step, Function.update_self]
      exact List.prefix_append ..
    · simp only [Trace.step, Function.update_of_ne same]
      exact List.prefix_refl _
  | subscribe other => exact List.prefix_refl _
  | sweep => exact List.prefix_refl _

theorem given_run (trace : Trace) (ops : List Op) (taskId : String) :
    trace.given taskId <+: (ops.foldl Trace.step trace).given taskId := by
  induction ops generalizing trace with
  | nil => exact List.prefix_refl _
  | cons op ops ih => exact (given_step trace op taskId).trans (ih (trace.step op))

/-- The first event of every task was given the number 1. -/
theorem run_first (maxEvents : Nat) (ops : List Op) (taskId : String) (published : (run maxEvents ops).given taskId ≠ []) :
    1 ∈ ((run maxEvents ops).given taskId).map Event.seq := by
  induction ops using List.reverseRecOn with
  | nil => exact absurd rfl published
  | append_singleton ops op ih =>
    by_cases fresh : (run maxEvents ops).given taskId = []
    · obtain ⟨current, lawful⟩ := run_lawful maxEvents ops
      have kept := lawful.kept taskId
      have none : current taskId = [] := List.suffix_nil.mp (fresh ▸ kept.recent)
      have last : (run maxEvents ops).state.last taskId = 0 := by rw [← kept.length, none]; rfl
      rw [run_append] at published ⊢
      cases op with
      | publish other kind payload final =>
        by_cases same : taskId = other
        · subst same
          simp only [List.foldl_cons, List.foldl_nil, Trace.step, Function.update_self, fresh, List.nil_append]
          have number : (numbered (run maxEvents ops).state taskId kind payload final).seq = 0 + 1 :=
            congrArg (· + 1) last
          simp [number]
        · simp [Trace.step, Function.update_of_ne same, fresh] at published
      | subscribe other => exact absurd fresh published
      | sweep => exact absurd fresh published
    · rw [run_append]
      exact ((given_step _ op taskId).map Event.seq).mem (ih fresh)

theorem run_repeated {maxEvents : Nat} {before : List Op} {op : Op} (unsteady : ¬ Steady (run maxEvents before) op)
    (after : List Op) : ∃ taskId, ¬ Unrepeated (run maxEvents (before ++ op :: after)) taskId := by
  cases op with
  | publish taskId kind payload final =>
    obtain ⟨forgotten, published⟩ := Classical.not_imp.mp unsteady
    refine ⟨taskId, fun unrepeated => ?_⟩
    rw [run_append, List.foldl_cons] at unrepeated
    have grown := (given_run ((run maxEvents before).step (.publish taskId kind payload final)) after taskId).map Event.seq
    have distinct := grown.sublist.nodup unrepeated.numbers
    have number : (numbered (run maxEvents before).state taskId kind payload final).seq = 1 := by
      simp [numbered, forgotten]
    simp only [Trace.step, Function.update_self, List.map_append, List.map_cons, List.map_nil, number] at distinct
    exact (List.nodup_append.mp distinct).2.2 1 (run_first maxEvents before taskId published) 1 (List.mem_singleton_self _) rfl
  | subscribe taskId => exact absurd trivial unsteady
  | sweep => exact absurd trivial unsteady

theorem numbers_unrepeated_iff (maxEvents : Nat) (ops : List Op) :
    (∀ taskId, Contiguous maxEvents (run maxEvents ops) taskId) ∧
    ((∀ taskId, Unrepeated (run maxEvents ops) taskId) ↔
      ∀ before op after, ops = before ++ op :: after → Steady (run maxEvents before) op) := by
  have contiguous : ∀ taskId, Contiguous maxEvents (run maxEvents ops) taskId := by
    intro taskId
    obtain ⟨current, lawful⟩ := run_lawful maxEvents ops
    have contiguous := (lawful.kept taskId).contiguous
    rwa [run_maxEvents] at contiguous
  refine ⟨contiguous, fun unrepeated before op after split => ?_, fun steady taskId => ?_⟩
  · by_contra unsteady
    obtain ⟨taskId, repeated⟩ := run_repeated unsteady after
    exact repeated (split ▸ unrepeated taskId)
  · exact (run_numbered steady taskId).unrepeated (contiguous taskId)

/-- A turn, the sweep of its log and a further turn of the same task. -/
theorem number_repeated : ¬ Unrepeated (run 10 [.publish "task" "status-update" .null true, .sweep,
    .publish "task" "task" .null false]) "task" := by
  intro unrepeated
  have numbers : ((run 10 [.publish "task" "status-update" .null true, .sweep,
      .publish "task" "task" .null false]).given "task").map Event.seq = [1, 1] := by decide
  exact absurd (numbers ▸ unrepeated.numbers) (by decide)

end AshA2A.A2ATransport.TaskEvents
