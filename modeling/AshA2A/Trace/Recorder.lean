import Mathlib.Data.List.Basic

/-! The recorder of traces: it runs in the process whose telemetry it hears, keeps the stack of the open spans there, and stores
one record for each event under the task of the process. -/

namespace AshA2A.Trace.Recorder

/-- `"task"`, `"dispatch:<n>"` or `"actuation:<n>"`. -/
inductive SpanKey where
  | task
  | dispatch (number : Nat)
  | actuation (number : Nat)
  deriving Repr, DecidableEq

inductive Suffix where
  | stop | exception
  deriving Repr, DecidableEq

inductive Status where
  | ok | error
  deriving Repr, DecidableEq

def status : Suffix → Status
  | .stop => .ok
  | .exception => .error

/-- What is mapped from the metadata of an event. -/
abbrev Attrs := List (String × Option String)

/-- The monotonic clock counts the events of the process; the system's clock may be anything. -/
structure Instant where
  mono : Nat
  sys : Int
  deriving Repr, DecidableEq

inductive Record where
  | opened (key : SpanKey) (name : String) (parent : Option SpanKey) (start : Instant) (attrs : Attrs)
  | closed (key : SpanKey) (finish : Instant) (attrs : Attrs) (status : Status)
  | event (key : Option SpanKey) (name : String) (time : Instant) (attrs : Attrs)
  deriving Repr, DecidableEq

structure Entry where
  key : SpanKey
  taskId : Option String
  reopened : Bool
  deriving Repr, DecidableEq

/-- The keys of the process dictionary. -/
structure Process where
  stack : List Entry := []
  task : Option String := none
  dispatchN : Nat := 0
  actuationN : Nat := 0

/-- The records of each task in their sequence. -/
abbrev Table := String → List Record

structure State where
  process : Process
  table : Table

inductive Telemetry where
  | messageStart (taskId : Option String) (attrs : Attrs)
  | messageEnd (suffix : Suffix) (attrs : Attrs)
  | dispatchStart (attrs : Attrs)
  | dispatchEnd (suffix : Suffix) (attrs : Attrs)
  | actuateStart (attrs : Attrs)
  | actuateStop (attrs : Attrs)
  /-- A boundary of the saga, or a receipt that was committed or outboxed. -/
  | boundary (name : String) (attrs : Attrs)

namespace State

def boundTask (state : State) : Option String := state.process.task

def innermostSpanKey (state : State) : Option SpanKey := state.process.stack.head?.map Entry.key

def insert (state : State) (taskId : String) (record : Record) : State :=
  { state with table := Function.update state.table taskId (state.table taskId ++ [record]) }

def push (state : State) (entry : Entry) : State :=
  { state with process := { state.process with stack := entry :: state.process.stack } }

def pop (state : State) : Option Entry × State :=
  match state.process.stack with
  | top :: rest => (some top, { state with process := { state.process with stack := rest } })
  | [] => (none, state)

def taskSpanRecorded (state : State) (taskId : String) : Bool :=
  (state.table taskId).any fun
    | .opened .task .. => true
    | _ => false

end State

/-- A task that is not there is not written to. -/
def writeClose (now : Instant) (taskId : Option String) (key : SpanKey) (status : Status) (attrs : Attrs) (state : State) : State :=
  match taskId with
  | some taskId => state.insert taskId (.closed key now attrs status)
  | none => state

def entry (state : State) (key : SpanKey) (reopened : Bool) : Entry := ⟨key, state.boundTask, reopened⟩

def messageStart (now : Instant) (taskId : Option String) (attrs : Attrs) (state : State) : State :=
  match taskId with
  | none => state
  | some taskId =>
    if state.process.stack = [] then
      let reopened := state.taskSpanRecorded taskId
      let state := { state with process := { state.process with task := some taskId } }
      let state := state.push (entry state .task reopened)
      if reopened then state else state.insert taskId (.opened .task "a2a.task" none now attrs)
    else state

def messageEnd (now : Instant) (suffix : Suffix) (attrs : Attrs) (state : State) : State :=
  match state.pop with
  | (some ⟨.task, taskId, false⟩, state) => writeClose now taskId .task (status suffix) attrs state
  | (_, state) => state

def dispatchStart (now : Instant) (attrs : Attrs) (state : State) : State :=
  match state.boundTask with
  | none => state
  | some taskId =>
    let n := state.process.dispatchN + 1
    let state := { state with process := { state.process with dispatchN := n } }
    let parent := state.innermostSpanKey
    (state.push (entry state (.dispatch n) false)).insert taskId (.opened (.dispatch n) "a2a.dispatch" parent now attrs)

def dispatchEnd (now : Instant) (suffix : Suffix) (attrs : Attrs) (state : State) : State :=
  match state.pop with
  | (some ⟨.dispatch n, taskId, _⟩, state) => writeClose now taskId (.dispatch n) (status suffix) attrs state
  | (_, state) => state

def actuateStart (now : Instant) (attrs : Attrs) (state : State) : State :=
  match state.boundTask, state.innermostSpanKey with
  | some taskId, some key =>
    let n := state.process.actuationN + 1
    let state := { state with process := { state.process with actuationN := n } }
    (state.push (entry state (.actuation n) false)).insert taskId (.opened (.actuation n) "a2a.actuation" (some key) now attrs)
  | _, _ => state

def actuateStop (now : Instant) (attrs : Attrs) (state : State) : State :=
  match state.pop with
  | (some ⟨.actuation n, taskId, _⟩, state) => writeClose now taskId (.actuation n) .ok attrs state
  | (_, state) => state

def boundary (now : Instant) (name : String) (attrs : Attrs) (state : State) : State :=
  match state.boundTask with
  | some taskId => state.insert taskId (.event state.innermostSpanKey name now attrs)
  | none => state

def handleEvent (now : Instant) (state : State) : Telemetry → State
  | .messageStart taskId attrs => messageStart now taskId attrs state
  | .messageEnd suffix attrs => messageEnd now suffix attrs state
  | .dispatchStart attrs => dispatchStart now attrs state
  | .dispatchEnd suffix attrs => dispatchEnd now suffix attrs state
  | .actuateStart attrs => actuateStart now attrs state
  | .actuateStop attrs => actuateStop now attrs state
  | .boundary name attrs => boundary now name attrs state

/-! ## Runs -/

/-- The events of a process, the first of them at the given count. -/
def run (clock : Nat → Int) : Nat → State → List Telemetry → State
  | _, state, [] => state
  | mono, state, event :: events => run clock (mono + 1) (handleEvent ⟨mono, clock mono⟩ state event) events

/-- A process that has heard nothing. -/
def start : State := ⟨{}, fun _ => []⟩

inductive Kind where
  | message (taskId : Option String)
  | dispatch
  | actuate

/-- Properly nested work of a process, one piece after the other. -/
inductive Work where
  | done
  | boundary (name : String) (attrs : Attrs) (rest : Work)
  | span (kind : Kind) (attrs : Attrs) (inner : Work) (suffix : Suffix) (closing : Attrs) (rest : Work)

def opening : Kind → Attrs → Telemetry
  | .message taskId, attrs => .messageStart taskId attrs
  | .dispatch, attrs => .dispatchStart attrs
  | .actuate, attrs => .actuateStart attrs

/-- An exception that unwinds an actuation leaves no event of it. -/
def closing : Kind → Suffix → Attrs → List Telemetry
  | .message _, suffix, attrs => [.messageEnd suffix attrs]
  | .dispatch, suffix, attrs => [.dispatchEnd suffix attrs]
  | .actuate, .stop, attrs => [.actuateStop attrs]
  | .actuate, .exception, _ => []

def Work.events : Work → List Telemetry
  | .done => []
  | .boundary name attrs rest => .boundary name attrs :: rest.events
  | .span kind attrs inner suffix ended rest =>
    opening kind attrs :: (inner.events ++ (closing kind suffix ended ++ rest.events))

end AshA2A.Trace.Recorder
