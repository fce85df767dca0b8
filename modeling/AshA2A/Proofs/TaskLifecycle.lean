import AshA2A.Proofs.AgentWrites
import AshA2A.Concurrency.Paths

/-! Where a task that has ended stays. Of the five writes of the server of an agent, a
cancellation and a failure look at the task as it is stored. What a worker made of a snapshot,
and what a stream reports, do not. -/

namespace AshA2A.Protocol.Agent
open Agent.Runtime Concurrency

variable {host : Host} {agent : Agent}

/-- What arrives for a task that has ended leaves it in the state it ended in. -/
def Respectful (agent : Agent) : Event → Prop
  | .done call reply _ => ∀ taskId message snapshot ended,
      agent.workers.lookup call = some ⟨taskId, .continue message snapshot⟩ → snapshot.terminal = false →
      (∀ parts, reply ≠ .message parts) → agent.state.getTask snapshot.id = some ended → ended.terminal = true →
      stateAfter reply = ended.status.state
  | .streamDone taskId _ _ complete _ => ∀ ended, agent.state.getTask taskId = some ended → ended.terminal = true →
      outcomeState complete = ended.status.state
  | _ => True

/-! ### One event -/

theorem Writes.keyed {after : Agent} {event : Event} (writes : Writes agent after event)
    (keyed : agent.state.Keyed) : after.state.Keyed := by
  intro taskId task stored
  rcases writes with same | ⟨written, -, put⟩
  · rw [same] at stored
    exact keyed taskId task stored
  · rw [put] at stored
    split at stored
    case isTrue equal =>
      cases stored
      exact equal.symm
    case isFalse => exact keyed taskId task stored

/-- A write over a task that has ended leaves it where it was. -/
theorem Wrote.terminal {event : Event} {written ended : Task} (wrote : Wrote agent event written)
    (keyed : agent.state.Keyed) (possible : agent.Possible event) (respectful : agent.Respectful event)
    (stored : agent.state.getTask written.id = some ended) (terminal : ended.terminal = true) :
    written.status.state = ended.status.state := by
  cases wrote with
  | opened working same history =>
    rw [same, possible _ _ _ _ working] at stored
    cases stored
  | continued working bare continuable same state history =>
    rw [same] at stored
    rw [state]
    exact respectful _ _ _ ended working continuable bare stored terminal
  | canceled found active same history =>
    rw [same, keyed _ _ found, found] at stored
    cases stored
    exact absurd terminal (Bool.eq_false_iff.mp active)
  | failed found active same history =>
    rw [same, keyed _ _ found, found] at stored
    cases stored
    exact absurd terminal (Bool.eq_false_iff.mp active)
  | streamed found same state history =>
    rw [same, keyed _ _ found, found] at stored
    cases stored
    rw [state]
    exact respectful ended found terminal

/-- The task is stored, and has ended there. -/
structure Ended (taskId : String) (state : TaskState) (agent : Agent) : Prop where
  keyed : agent.state.Keyed
  stays : ∃ task, agent.state.getTask taskId = some task ∧ task.status.state = state

theorem Ended.apply {taskId : String} {state : TaskState} (terminal : state.terminal = true)
    (ended : Ended taskId state agent) (event : Event) (possible : agent.Possible event)
    (respectful : agent.Respectful event) : Ended taskId state (agent.apply host event) where
  keyed := (apply_writes host agent event).keyed ended.keyed
  stays := by
    obtain ⟨keyed, task, stored, rfl⟩ := ended
    rcases apply_writes host agent event with same | ⟨written, wrote, put⟩
    · exact ⟨task, (same taskId).trans stored, rfl⟩
    · by_cases itself : taskId = written.id
      · subst itself
        exact ⟨written, by rw [put, if_pos rfl], wrote.terminal keyed possible respectful stored terminal⟩
      · exact ⟨task, by rw [put, if_neg itself, stored], rfl⟩

/-! ### Every run -/

/-- A store, if there is one, keeps each task under its own id. In any run whose events meet
the condition, a task that has ended keeps the state it ended in to the end of the run. -/
theorem terminal_stays (host : Host) (taskStore : Option (String → Option Task))
    (keyed : (start taskStore).state.Keyed) (first second : List Event)
    (guarded : Throughout (apply host) (fun agent event => agent.Possible event ∧ agent.Respectful event)
      (start taskStore) (first ++ second))
    {taskId : String} {ended : Task}
    (stored : (first.foldl (apply host) (start taskStore)).state.getTask taskId = some ended)
    (terminal : ended.terminal = true) :
    ∃ task, ((first ++ second).foldl (apply host) (start taskStore)).state.getTask taskId = some task ∧
      task.status.state = ended.status.state := by
  obtain ⟨before, after⟩ := Throughout.append.mp guarded
  have middle : (first.foldl (apply host) (start taskStore)).state.Keyed :=
    before.invariant_foldl keyed fun agent event keyed _ => (apply_writes host agent event).keyed keyed
  have final : Ended taskId ended.status.state ((first ++ second).foldl (apply host) (start taskStore)) := by
    rw [List.foldl_append]
    exact after.invariant_foldl ⟨middle, ended, stored, rfl⟩
      fun agent event ended guarded => ended.apply terminal event guarded.1 guarded.2
  exact final.stays

/-! ### A cancel while the handler runs -/

/-- A conversation that waited for its user is canceled while the user's answer is handled. -/
private def canceled : List Event :=
  [.message ⟨"m1", .user, [], none⟩ none none [], .done 0 (.inputRequired []) ⟨"t", "m2", "a", "s"⟩,
    .message ⟨"m3", .user, [], none⟩ (some "t") none [], .cancel "t" (.ok ())]

private def quiet : Host := ⟨fun _ => "", id⟩

private def dies : Event := .down 1 (.atom "killed") ⟨"t", "m4", "a", "s"⟩

private def replies : Event := .done 1 (.reply []) ⟨"u", "m4", "a", "s"⟩

/-- The worker dies, and the task stays canceled. -/
theorem terminal_stays_canceled :
    ∃ task, ((canceled ++ [dies]).foldl (apply quiet) (start none)).state.getTask "t" = some task ∧
      task.status.state = .canceled := by
  have keyed : (start none).state.Keyed := nofun
  have guarded : Throughout (apply quiet) (fun agent event => agent.Possible event ∧ agent.Respectful event) (start none)
      (canceled ++ [dies]) := by
    refine ⟨⟨True.intro, True.intro⟩, ⟨fun _ _ _ _ _ => rfl, ?_⟩, ⟨True.intro, True.intro⟩, ⟨True.intro, True.intro⟩,
      ⟨True.intro, True.intro⟩, True.intro⟩
    intro taskId message snapshot ended working
    cases working
  obtain ⟨ended, stored, state⟩ : ∃ ended, (canceled.foldl (apply quiet) (start none)).state.getTask "t" = some ended ∧
      ended.status.state = .canceled := ⟨_, rfl, rfl⟩
  have terminal : ended.terminal = true := by
    rw [Task.terminal, state]
    rfl
  rw [← state]
  exact terminal_stays quiet none keyed canceled [dies] guarded stored terminal

/-- The worker's result arrives, and the canceled task becomes a completed one. -/
theorem canceled_task_completed :
    Throughout (apply quiet) Possible (start none) (canceled ++ [replies]) ∧
      ((canceled.foldl (apply quiet) (start none)).state.getTask "t").map (·.status.state) = some .canceled ∧
      (((canceled ++ [replies]).foldl (apply quiet) (start none)).state.getTask "t").map (·.status.state) =
        some .completed := by
  refine ⟨⟨True.intro, fun _ _ _ _ _ => rfl, True.intro, True.intro, ?_, True.intro⟩, by decide,
    by decide⟩
  intro taskId message contextId metadata working
  cases working

end AshA2A.Protocol.Agent
