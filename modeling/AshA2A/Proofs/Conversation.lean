import AshA2A.Proofs.TaskLifecycle
import AshA2A.Term
import Mathlib.Data.List.Nodup

/-! The turns of a conversation. A worker makes its task out of a snapshot, and the server
stores it whole: a turn stays in the history as long as no turn is stored over it that was
begun before it. -/

namespace AshA2A.Protocol
open Concurrency

def State.historyOf (state : State) (taskId : String) : List Message :=
  ((state.getTask taskId).map Task.history).getD []

namespace Agent
open Agent.Runtime

variable {host : Host} {agent after : Agent}

/-- The turns of a task, oldest first. -/
def turnsOf (agent : Agent) (taskId : String) : List Turn :=
  (agent.turns.filter fun turn => turn.taskId = taskId).reverse

/-- In the order in which the server accepted their calls, the messages of the turns of a task
are in its history. -/
def TurnsKept (agent : Agent) : Prop :=
  ∀ (taskId : String) (turns : List Turn), turns.Perm (agent.turnsOf taskId) →
    turns.Pairwise (fun earlier later => earlier.call ≤ later.call) →
    (turns.map Turn.message).Sublist (agent.state.historyOf taskId)

/-- Since the call was accepted, no other turn of its task was stored. -/
def Undisturbed (agent : Agent) : Event → Prop
  | .done call reply _ => ∀ taskId message snapshot,
      agent.workers.lookup call = some ⟨taskId, .continue message snapshot⟩ → snapshot.terminal = false →
      (∀ parts, reply ≠ .message parts) → ∀ turn ∈ agent.turns, turn.taskId = snapshot.id → turn.stored ≤ call
  | _ => True

/-- What the server keeps of the turns, and a worker as long as no turn was stored since its call. -/
structure Kept (agent : Agent) : Prop where
  keyed : agent.state.Keyed
  waiting : ∀ entry ∈ agent.workers, entry.1 < agent.calls
  past : ∀ turn ∈ agent.turns, turn.call < turn.stored ∧ turn.stored ≤ agent.calls
  ordered : ∀ taskId, (agent.turnsOf taskId).Pairwise fun earlier later => earlier.call < later.call
  history : ∀ taskId, ((agent.turnsOf taskId).map Turn.message).Sublist (agent.state.historyOf taskId)
  snapshots : ∀ call taskId message snapshot, (call, ⟨taskId, .continue message snapshot⟩) ∈ agent.workers →
    (∀ turn ∈ agent.turns, turn.taskId = snapshot.id → turn.stored ≤ call) →
    ((agent.turnsOf snapshot.id).map Turn.message).Sublist snapshot.history

/-! ### The turns of a task -/

theorem mem_turnsOf {taskId : String} {turn : Turn} :
    turn ∈ agent.turnsOf taskId ↔ turn ∈ agent.turns ∧ turn.taskId = taskId := by
  simp [turnsOf]

theorem turnsOf_cons {turn : Turn} (turns : after.turns = turn :: agent.turns) (taskId : String) :
    after.turnsOf taskId = agent.turnsOf taskId ++ if turn.taskId = taskId then [turn] else [] := by
  unfold turnsOf
  rw [turns, List.filter_cons]
  by_cases same : turn.taskId = taskId
  · simp [same]
  · simp [same]

theorem historyOf_some {taskId : String} {task : Task} (stored : agent.state.getTask taskId = some task) :
    agent.state.historyOf taskId = task.history := by
  simp [State.historyOf, stored]

/-- Only a worker's result may take anything out of a history. -/
theorem Writes.history {event : Event} (writes : Writes agent after event) (keyed : agent.state.Keyed)
    (aside : ∀ call reply ids, event ≠ .done call reply ids) (taskId : String) :
    (agent.state.historyOf taskId).Sublist (after.state.historyOf taskId) := by
  rcases writes with same | ⟨written, wrote, put⟩
  · rw [State.historyOf, State.historyOf, same]
  · by_cases itself : taskId = written.id
    case neg => rw [State.historyOf, State.historyOf, put, if_neg itself]
    case pos =>
      have now : after.state.getTask taskId = some written := by rw [put, if_pos itself]
      rw [historyOf_some now]
      cases wrote with
      | opened => exact absurd rfl (aside _ _ _)
      | continued => exact absurd rfl (aside _ _ _)
      | canceled found _ same history | failed found _ same history =>
        rw [itself, same, keyed _ _ found, historyOf_some found, history]
      | streamed found same _ history =>
        rw [itself, same, keyed _ _ found, historyOf_some found, history]
        exact List.sublist_append_left _ _

/-! ### Every event -/

namespace Kept

theorem start (taskStore : Option (String → Option Task)) (keyed : (start taskStore).state.Keyed) :
    Kept (start taskStore) where
  keyed := keyed
  waiting _ member := absurd member List.not_mem_nil
  past _ member := absurd member List.not_mem_nil
  ordered _ := List.Pairwise.nil
  history _ := List.nil_sublist _
  snapshots _ _ _ _ member := absurd member List.not_mem_nil

/-- Nothing is begun, and no turn is stored. -/
theorem aside (kept : Kept agent) (keyed : after.state.Keyed) (workers : after.workers ⊆ agent.workers)
    (calls : agent.calls ≤ after.calls) (turns : after.turns = agent.turns)
    (history : ∀ taskId, (agent.state.historyOf taskId).Sublist (after.state.historyOf taskId)) : Kept after where
  keyed := keyed
  waiting entry member := Nat.lt_of_lt_of_le (kept.waiting entry (workers member)) calls
  past turn member := by
    obtain ⟨begun, stored⟩ := kept.past turn (turns ▸ member)
    exact ⟨begun, Nat.le_trans stored calls⟩
  ordered taskId := by
    unfold turnsOf
    rw [turns]
    exact kept.ordered taskId
  history taskId := by
    unfold turnsOf
    rw [turns]
    exact (kept.history taskId).trans (history taskId)
  snapshots call taskId message snapshot member since := by
    unfold turnsOf
    rw [turns] at since ⊢
    exact kept.snapshots call taskId message snapshot (workers member) since

/-- A worker begins on the task as it is stored. -/
theorem spawn (kept : Kept agent) {worker : Worker}
    (current : ∀ taskId message snapshot, worker = ⟨taskId, .continue message snapshot⟩ →
      agent.state.historyOf snapshot.id = snapshot.history) : Kept (agent.spawn worker) where
  keyed := kept.keyed
  waiting entry member := by
    rcases List.mem_cons.mp member with rfl | member
    · exact Nat.lt_succ_self _
    · exact Nat.lt_succ_of_lt (kept.waiting entry member)
  past turn member := by
    obtain ⟨begun, stored⟩ := kept.past turn member
    exact ⟨begun, Nat.le_succ_of_le stored⟩
  ordered := kept.ordered
  history := kept.history
  snapshots call taskId message snapshot member since := by
    rcases List.mem_cons.mp member with now | member
    · rw [← current taskId message snapshot (congrArg Prod.snd now).symm]
      exact kept.history snapshot.id
    · exact kept.snapshots call taskId message snapshot member since

/-- A turn is stored: what the worker knew of its task, and then the message of the call. -/
theorem turn (kept : Kept agent) {turn : Turn} {written : Task} {earlier answers : List Message}
    (put : ∀ taskId, after.state.getTask taskId = if taskId = written.id then some written else agent.state.getTask taskId)
    (workers : after.workers ⊆ agent.workers) (calls : after.calls = agent.calls)
    (turns : after.turns = turn :: agent.turns) (same : turn.taskId = written.id) (begun : turn.call < agent.calls)
    (now : turn.stored = agent.calls)
    (since : ∀ other ∈ agent.turns, other.taskId = written.id → other.stored ≤ turn.call)
    (known : ((agent.turnsOf written.id).map Turn.message).Sublist earlier)
    (history : written.history = earlier ++ turn.message :: answers) : Kept after where
  keyed taskId task stored := by
    rw [put] at stored
    split at stored
    case isTrue equal =>
      cases stored
      exact equal.symm
    case isFalse => exact kept.keyed taskId task stored
  waiting entry member := by
    rw [calls]
    exact kept.waiting entry (workers member)
  past other member := by
    rw [turns] at member
    rw [calls]
    rcases List.mem_cons.mp member with rfl | member
    · exact ⟨now ▸ begun, Nat.le_of_eq now⟩
    · exact kept.past other member
  ordered taskId := by
    rw [turnsOf_cons turns]
    split
    case isFalse => simpa using kept.ordered taskId
    case isTrue equal =>
      refine List.pairwise_append.mpr ⟨kept.ordered taskId, List.pairwise_singleton _ _, ?_⟩
      intro other member last among
      obtain ⟨member, task⟩ := mem_turnsOf.mp member
      rw [List.mem_singleton.mp among]
      have before := since other member (task.trans (equal.symm.trans same))
      exact Nat.lt_of_lt_of_le (kept.past other member).1 before
  history taskId := by
    rw [turnsOf_cons turns]
    by_cases itself : taskId = written.id
    · subst itself
      rw [if_pos same, List.map_append, historyOf_some ((put _).trans (if_pos rfl)), history]
      exact known.append (List.cons_sublist_cons.mpr (List.nil_sublist _))
    · rw [if_neg fun equal => itself (equal.symm.trans same), List.append_nil, State.historyOf, put, if_neg itself]
      exact kept.history taskId
  snapshots call taskId message snapshot member since := by
    rw [turns] at since
    rw [turnsOf_cons turns]
    by_cases itself : turn.taskId = snapshot.id
    · -- The turn is later than the call of any worker.
      have later := since turn List.mem_cons_self itself
      have waiting := kept.waiting _ (workers member)
      omega
    · rw [if_neg itself, List.append_nil]
      exact kept.snapshots call taskId message snapshot (workers member)
        fun other member => since other (List.mem_cons_of_mem _ member)

/-- What a worker makes of its job holds what the turns of the task have said, if the call was
undisturbed. -/
theorem made (kept : Kept agent) {call : Nat} {worker : Worker} {reply : Reply} {ids : Ids} {made : Task}
    (working : agent.workers.lookup call = some worker)
    (left : runDefaultTask host worker.job reply ids = .ok (.inr made))
    (possible : agent.Possible (.done call reply ids)) (undisturbed : agent.Undisturbed (.done call reply ids)) :
    (∀ turn ∈ agent.turns, turn.taskId = made.id → turn.stored ≤ call) ∧
      ∃ earlier answers, ((agent.turnsOf made.id).map Turn.message).Sublist earlier ∧
        made.history = earlier ++ worker.job.message :: answers := by
  obtain ⟨taskId, job⟩ := worker
  cases job with
  | new message contextId metadata =>
    obtain ⟨same, answers, history⟩ := processMessage_task (Except.ok.inj left)
    have none : agent.state.historyOf made.id = [] := by
      rw [State.historyOf, same, possible _ _ _ _ working]
      rfl
    have known := kept.history made.id
    rw [none] at known
    refine ⟨fun turn member task => ?_, [], answers, known, history⟩
    have among := List.mem_map_of_mem (f := Turn.message) (mem_turnsOf.mpr ⟨member, task⟩)
    rw [List.sublist_nil.mp known] at among
    cases among
  | «continue» message snapshot =>
    cases run : continueTask host ids reply message snapshot with
    | error refused =>
      rw [runDefaultTask, run] at left
      cases left
    | ok task =>
      rw [runDefaultTask, run] at left
      cases left
      obtain ⟨same, -, answers, history⟩ := continueTask_task run
      obtain ⟨bare, continuable⟩ := continueTask_ok run
      have since := undisturbed taskId message snapshot working continuable bare
      rw [same]
      exact ⟨since, snapshot.history, answers, kept.snapshots _ _ _ _ (mem_of_lookup working) since, history⟩

/-- A result is stored. -/
theorem done (kept : Kept agent) {call : Nat} {reply : Reply} {ids : Ids}
    (possible : agent.Possible (.done call reply ids)) (undisturbed : agent.Undisturbed (.done call reply ids)) :
    Kept (agent.apply host (.done call reply ids)) := by
  cases working : agent.workers.lookup call with
  | none => simpa only [Agent.apply, working] using kept
  | some worker =>
    have popped : (agent.popWorker call).workers ⊆ agent.workers := List.filter_subset_self _
    cases left : runDefaultTask host worker.job reply ids with
    | error refused =>
      simp only [Agent.apply, working, left]
      exact kept.aside kept.keyed popped (Nat.le_refl _) rfl fun _ => List.Sublist.refl _
    | ok result =>
      cases result with
      | inl bare =>
        simp only [Agent.apply, working, left]
        exact kept.aside kept.keyed popped (Nat.le_refl _) rfl fun _ => List.Sublist.refl _
      | inr made =>
        have frame := maybeWrapStream_frame ids made
        obtain ⟨since, earlier, answers, known, history⟩ := kept.made working left possible undisturbed
        have put : ∀ taskId, (agent.apply host (.done call reply ids)).state.getTask taskId =
            if taskId = (maybeWrapStream ids made).id then some (maybeWrapStream ids made)
            else agent.state.getTask taskId := by
          intro taskId
          simp [Agent.apply, working, left, answer, popWorker, applyDefaultResult]
        have turns : (agent.apply host (.done call reply ids)).turns =
            ⟨made.id, call, worker.job.message, agent.calls⟩ :: agent.turns := by
          simp [Agent.apply, working, left, took, answer, popWorker]
        have workers : (agent.apply host (.done call reply ids)).workers ⊆ agent.workers := by
          simpa [Agent.apply, working, left, took, answer] using popped
        have calls : (agent.apply host (.done call reply ids)).calls = agent.calls := by
          simp [Agent.apply, working, left, took, answer, popWorker]
        have begun : call < agent.calls := kept.waiting _ (mem_of_lookup working)
        refine kept.turn put workers calls turns frame.1.symm begun rfl ?_ ?_ (frame.2.2.trans history)
        · rw [frame.1]
          exact since
        · rw [frame.1]
          exact known

theorem apply (kept : Kept agent) (event : Event) (possible : agent.Possible event)
    (undisturbed : agent.Undisturbed event) : Kept (agent.apply host event) := by
  have writes := apply_writes host agent event
  cases event with
  | message message taskId contextId metadata =>
    cases taskId with
    | none =>
      refine kept.spawn fun taskId' message' snapshot same => ?_
      cases same
    | some taskId =>
      cases found : agent.state.getTask taskId with
      | none =>
        simp only [Agent.apply, found]
        exact kept.aside kept.keyed (List.Subset.refl _) (Nat.le_succ _) rfl fun _ => List.Sublist.refl _
      | some task =>
        simp only [Agent.apply, found]
        refine kept.spawn fun taskId' message' snapshot same => ?_
        cases same
        rw [kept.keyed _ _ found, historyOf_some found]
  | cancel taskId hook =>
    exact kept.aside (writes.keyed kept.keyed) (List.Subset.refl _) (Nat.le_refl _) rfl (writes.history kept.keyed (by simp))
  | done call reply ids => exact kept.done possible undisturbed
  | down call error ids =>
    cases working : agent.workers.lookup call with
    | none => simpa only [Agent.apply, working] using kept
    | some worker =>
      have keyed := writes.keyed kept.keyed
      have history := writes.history kept.keyed (by simp)
      simp only [Agent.apply, working] at keyed history ⊢
      exact kept.aside keyed (List.filter_subset_self _) (Nat.le_refl _) rfl history
  | streamDone taskId artifactId parts complete ids =>
    exact kept.aside (writes.keyed kept.keyed) (List.Subset.refl _) (Nat.le_refl _) rfl (writes.history kept.keyed (by simp))

theorem turnsKept (kept : Kept agent) : TurnsKept agent := by
  intro taskId turns perm ordered
  have sorted : (agent.turnsOf taskId).Pairwise fun earlier later => earlier.call ≤ later.call :=
    (kept.ordered taskId).imp Nat.le_of_lt
  have distinct : ((agent.turnsOf taskId).map Turn.call).Nodup :=
    List.pairwise_map.mpr ((kept.ordered taskId).imp Nat.ne_of_lt)
  have same : turns = agent.turnsOf taskId := by
    refine perm.eq_of_pairwise (fun first second among member before after => ?_) ordered sorted
    exact List.inj_on_of_nodup_map distinct (perm.subset among) member (Nat.le_antisymm before after)
  rw [same]
  exact kept.history taskId

end Kept

/-! ### Every run -/

/-- A store, if there is one, keeps each task under its own id. In any run in which no result
is stored over a turn that its call had not seen, every turn is kept. -/
theorem turns_kept (host : Host) (taskStore : Option (String → Option Task))
    (keyed : (start taskStore).state.Keyed) (events : List Event)
    (guarded : Throughout (apply host) (fun agent event => agent.Possible event ∧ agent.Undisturbed event)
      (start taskStore) events) : TurnsKept (events.foldl (apply host) (start taskStore)) :=
  (guarded.invariant_foldl (.start taskStore keyed)
    fun _ event kept guarded => Kept.apply kept event guarded.1 guarded.2).turnsKept

/-! ### Two answers at once -/

/-- A conversation waits for its user, who answers twice. -/
private def answeredTwice : List Event :=
  [.message ⟨"m1", .user, [], none⟩ none none [], .done 0 (.inputRequired []) ⟨"t", "m2", "a", "s"⟩,
    .message ⟨"m3", .user, [], none⟩ (some "t") none [], .message ⟨"m4", .user, [], none⟩ (some "t") none []]

private def silent : Host := ⟨fun _ => "", id⟩

private def handled (call : Nat) (messageId : String) : Event :=
  .done call (.inputRequired []) ⟨"u", messageId, "a", "s"⟩

/-- The worker of the second answer dies, and the first one is kept. -/
theorem turns_kept_one :
    TurnsKept ((answeredTwice ++ [handled 1 "m5", .down 2 (.atom "killed") ⟨"t", "m6", "a", "s"⟩]).foldl (apply silent)
      (start none)) := by
  have keyed : (start none).state.Keyed := nofun
  have guarded : Throughout (apply silent) (fun agent event => agent.Possible event ∧ agent.Undisturbed event)
      (start none) answeredTwice := by
    refine ⟨⟨True.intro, True.intro⟩, ⟨fun _ _ _ _ _ => rfl, ?_⟩, ⟨True.intro, True.intro⟩, ⟨True.intro, True.intro⟩,
      True.intro⟩
    intro taskId message snapshot working
    cases working
  have turns : (answeredTwice.foldl (apply silent) (start none)).turns = [⟨"t", 0, ⟨"m1", .user, [], none⟩, 1⟩] := by
    decide
  refine turns_kept silent none keyed _ (Throughout.append.mpr ⟨guarded, ⟨?_, ?_⟩, ⟨True.intro, True.intro⟩, True.intro⟩)
  · intro _ _ _ _ _
    decide
  · intro taskId message snapshot _ _ _ turn member
    rw [turns] at member
    rw [List.mem_singleton.mp member]
    exact fun _ => Nat.le_refl 1

/-- Both are handled, and the answer that is stored first is not in the history. -/
theorem turn_lost :
    Throughout (apply silent) Possible (start none) (answeredTwice ++ [handled 1 "m5", handled 2 "m6"]) ∧
      ¬ TurnsKept ((answeredTwice ++ [handled 1 "m5", handled 2 "m6"]).foldl (apply silent) (start none)) := by
  constructor
  · refine ⟨True.intro, fun _ _ _ _ _ => rfl, True.intro, True.intro, ?_, ?_, True.intro⟩
    · intro _ _ _ _ _
      decide
    · intro _ _ _ _ _
      decide
  · intro kept
    have lost := kept "t" _ (List.Perm.refl _) (by decide)
    revert lost
    decide

end Agent
end AshA2A.Protocol
