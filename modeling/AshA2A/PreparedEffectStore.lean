import AshA2A.Term
import Mathlib.Logic.Function.Basic

/-! Prepared effects and the claims on them: what the store contract asks for, and the
in-memory store. -/

namespace AshA2A.PreparedEffectStore

/-- A record is any map with a digest. Of its other keys the stores look at the state only;
sealed records carry one. -/
structure Record where
  digest : String
  state : Option Term
  outcome : Option Term := none
  rest : TermMap := []
  deriving Repr, DecidableEq

inductive Key where
  | requests | effects
  deriving Repr, DecidableEq

inductive Call where
  | put (record : Record)
  | fetch (digest : String)
  | transition (digest : String) (source target : String)
  | claimRequest (id : String) (owner : Term)
  | claimEffect (id : String) (owner : Term)
  | complete (digest : String) (outcome : Term)
  deriving Repr, DecidableEq

inductive Error where
  | preparedDuplicate | preparedTransitionRefused | preparedNotCompleted | preparedRecordMissing
  | claimConflict
  | journalCorrupt | journalTruncated | journalSequenceGap | preparedAuthenticationFailed
  deriving Repr, DecidableEq

/-- What the caller gets to see. -/
inductive Answer where
  | ok
  | found (record : Record)
  | notFound
  | error (code : Error)
  /-- The call raises, or the process it is sent to is gone. -/
  | raised
  deriving Repr, DecidableEq

def Transition.allowed : String → List String
  | "prepared" => ["claimed", "refused", "released"]
  | "claimed" => ["applying", "released"]
  | "applying" => ["completed", "unknown_outcome"]
  | "unknown_outcome" => ["reconciled", "compensated"]
  | _ => []

def Transition.admit (source target : String) : Bool := target ∈ Transition.allowed source

/-- The three maps that both stores keep. -/
structure State where
  records : String → Option Record := fun _ => none
  requests : String → Option Term := fun _ => none
  effects : String → Option Term := fun _ => none

namespace State

def putRecord (state : State) (digest : String) (record : Record) : State :=
  { state with records := Function.update state.records digest (some record) }

/-- `get_in/2`: a stored `nil` reads like an absent key. -/
def owner (state : State) (key : Key) (id : String) : Option Term :=
  let owners := match key with
    | .requests => state.requests
    | .effects => state.effects
  (owners id).filter fun owner => owner ≠ Term.nil

def putOwner (state : State) (key : Key) (id : String) (owner : Term) : State :=
  match key with
  | .requests => { state with requests := Function.update state.requests id (some owner) }
  | .effects => { state with effects := Function.update state.effects id (some owner) }

end State

/-! ## The in-memory store

An agent: the functions below run in its process, so one that raises takes the state with
it. `none` is a call that raises. -/

namespace Memory

def put (state : State) (record : Record) : Answer × State :=
  if (state.records record.digest).isSome then (.error .preparedDuplicate, state)
  else (.ok, state.putRecord record.digest { record with outcome := some .nil })

def fetch (state : State) (digest : String) : Answer :=
  match state.records digest with
  | some record => .found record
  | none => .notFound

def transition (state : State) (digest source target : String) : Option (Answer × State) :=
  match state.records digest with
  | none => some (.error .preparedTransitionRefused, state)
  | some record =>
    match record.state with
    | none => none
    | some current =>
      if current = .atom source ∧ Transition.admit source target then
        some (.ok, state.putRecord digest { record with state := some (.atom target) })
      else some (.error .preparedTransitionRefused, state)

def claim (state : State) (key : Key) (id : String) (owner : Term) : Answer × State :=
  match state.owner key id with
  | none => (.ok, state.putOwner key id owner)
  | some current => if current = owner then (.ok, state) else (.error .claimConflict, state)

def complete (state : State) (digest : String) (outcome : Term) : Answer × State :=
  match state.records digest with
  | some record =>
    if record.state = some (.atom "completed") then
      (.ok, state.putRecord digest { record with outcome := some outcome })
    else (.error .preparedNotCompleted, state)
  | none => (.error .preparedRecordMissing, state)

def handle (state : State) : Call → Option (Answer × State)
  | .put record => some (put state record)
  | .fetch digest => some (fetch state digest, state)
  | .transition digest source target => transition state digest source target
  | .claimRequest id owner => some (claim state .requests id owner)
  | .claimEffect id owner => some (claim state .effects id owner)
  | .complete digest outcome => some (complete state digest outcome)

/-- An agent that is gone answers nothing any more. -/
def serve (agent : Option State) (call : Call) : Answer × Option State :=
  match agent.bind fun state => handle state call with
  | some (answer, state) => (answer, some state)
  | none => (.raised, none)

def answers : Option State → List Call → List Answer
  | _, [] => []
  | agent, call :: calls =>
    let (answer, agent) := serve agent call
    answer :: answers agent calls

end Memory

end AshA2A.PreparedEffectStore
