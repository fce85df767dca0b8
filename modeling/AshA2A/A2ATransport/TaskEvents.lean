import AshA2A.Json
import Mathlib.Logic.Function.Basic

/-! The event log of each task. One process numbers what is published, keeps it in an ordered
table and forgets it some time after a final event. -/

namespace AshA2A.A2ATransport

/-- `{seq, kind, payload, final?}`. -/
structure Event where
  seq : Nat
  kind : String
  payload : Json
  final : Bool
  deriving Repr

namespace TaskEvents

/-- The process and its table. The rows are those of one task, in the order of the keys. -/
structure State where
  rows : String → List Event := fun _ => []
  seqs : String → Option Nat := fun _ => none
  counts : String → Option Nat := fun _ => none
  /-- The `{:sweep, task_id, seq}` under way. All wait for the same time. -/
  timers : List (String × Nat) := []
  maxEvents : Nat

/-- `:ets.insert/2`. -/
def insertRow (event : Event) : List Event → List Event
  | [] => [event]
  | row :: rows =>
    if event.seq < row.seq then event :: row :: rows
    else if event.seq = row.seq then event :: rows
    else row :: insertRow event rows

def backlog (state : State) (taskId : String) : List Event := state.rows taskId

def trim (state : State) (taskId : String) (seq : Nat) : State :=
  let count := (state.counts taskId).getD 0 + 1
  if state.maxEvents < count then
    { state with
      rows := Function.update state.rows taskId
        ((state.rows taskId).filter fun row => row.seq ≠ seq - state.maxEvents) }
  else { state with counts := Function.update state.counts taskId (some count) }

/-- The number and the fan-out of the next event. -/
def numbered (state : State) (taskId kind : String) (payload : Json) (final : Bool) : Event :=
  ⟨(state.seqs taskId).getD 0 + 1, kind, payload, final⟩

/-- `handle_call({:publish, …})`. -/
def publish (state : State) (taskId kind : String) (payload : Json) (final : Bool) : State :=
  let event := numbered state taskId kind payload final
  let state := trim
    { state with
      rows := Function.update state.rows taskId (insertRow event (state.rows taskId))
      seqs := Function.update state.seqs taskId (some event.seq) }
    taskId event.seq
  if final then { state with timers := state.timers ++ [(taskId, event.seq)] } else state

/-- `handle_info({:sweep, …})` of the timer that was set first. -/
def sweep (state : State) : State :=
  match state.timers with
  | [] => state
  | (taskId, seq) :: timers =>
    if state.seqs taskId = some seq then
      { state with
        rows := Function.update state.rows taskId []
        seqs := Function.update state.seqs taskId none
        counts := Function.update state.counts taskId none
        timers }
    else { state with timers }

end TaskEvents

end AshA2A.A2ATransport
