import AshA2A.A2ATransport.TaskEvents

/-! One connection of `message/stream` or `tasks/resubscribe` beside the event log, one step of
its process at a time. -/

namespace AshA2A.A2ATransport.SSE

open TaskEvents

inductive Mode where
  | stream | resubscribe
  deriving Repr, DecidableEq

/-- The logged event of the task, or a transition that the agent tells its own subscribers. -/
inductive Message where
  | logged (event : Event)
  | transition (status : Json) (terminal : Bool)
  deriving Repr

/-- A frame and its `id:`. -/
inductive Frame where
  | snapshot (task : Json)
  | event (event : Event)
  | transition (id : Int) (status : Json)
  deriving Repr

inductive Ending where
  | final | terminal | idle | closed
  deriving Repr, DecidableEq

inductive Phase where
  | opening
  /-- The snapshot is published and the pump runs. -/
  | announced
  | registered
  /-- A terminal task without a final event to replay. -/
  | refused
  /-- The agent's subscribers are joined next. -/
  | opened (backlog : List Event)
  | replaying (backlog : List Event)
  | following (idle : Nat)
  | done (ending : Ending)
  deriving Repr

/-- What the pump publishes of a turn. -/
structure Publication where
  kind : String
  payload : Json
  final : Bool
  deriving Repr

/-- One update for each part up to the end of the stream or to what it raises, then the status. -/
def pump (updates : List Json) (status : Json) : List Publication :=
  updates.map (⟨"artifact-update", ·, false⟩) ++ [⟨"status-update", status, true⟩]

structure Connection where
  mode : Mode
  taskId : String
  /-- The task as it was encoded, and whether it was terminal then. -/
  task : Json
  terminal : Bool := false
  start : Int := 0
  last : Int := start
  phase : Phase := .opening
  mailbox : List Message := []
  frames : List Frame := []
  /-- Whether the next chunk still reaches the client. -/
  connected : Bool := true
  pumping : List Publication := []

def streamMessage (taskId : String) (task : Json) (updates : List Json) (status : Json) : Connection :=
  { mode := .stream, taskId, task, pumping := pump updates status }

/-- `last_event_id/1` is 0 where the header is no number. -/
def resubscribe (taskId : String) (task : Json) (terminal : Bool) (lastEventId : Option Int) : Connection :=
  { mode := .resubscribe, taskId, task, terminal, start := lastEventId.getD 0 }

structure Options where
  heartbeatMs : Nat := 15000
  maxIdleMs : Nat := 300000

structure System where
  events : TaskEvents.State
  conn : Connection

/-- Registered for the events of the task. -/
def Phase.listening : Phase → Bool
  | .registered | .opened _ | .replaying _ | .following _ => true
  | .opening | .announced | .refused | .done _ => false

/-- Among the agent's subscribers. -/
def Phase.riding : Phase → Bool
  | .replaying _ | .following _ => true
  | _ => false

namespace Connection

/-- `done/3` drains the queued events. -/
def close (conn : Connection) (ending : Ending) : Connection := { conn with phase := .done ending, mailbox := [] }

def tell (conn : Connection) (message : Message) : Connection := { conn with mailbox := conn.mailbox ++ [message] }

/-- A frame that is written, or the end of the connection; `next` is what follows. -/
def chunk (conn : Connection) (frame : Frame) (next : Connection → Connection) : Connection :=
  if conn.connected then next { conn with frames := conn.frames ++ [frame] } else conn.close .closed

/-- The next row of the backlog. -/
def replay (conn : Connection) (row : Event) (backlog : List Event) : Connection :=
  if (row.seq : Int) ≤ conn.last ∧ row.final then conn.close .final
  else if (row.seq : Int) ≤ conn.last then { conn with phase := .replaying backlog }
  else conn.chunk (.event row) fun conn =>
    if row.final then conn.close .final else { conn with phase := .replaying backlog, last := row.seq }

/-- `follow/7` passes over what it has written; `follow7/7` does not. -/
def follow (conn : Connection) (message : Message) (rest : List Message) (idle : Nat) : Connection :=
  let conn := { conn with mailbox := rest }
  match message with
  | .logged event =>
    if conn.mode = .stream ∧ (event.seq : Int) ≤ conn.last then { conn with phase := .following idle }
    else conn.chunk (.event event) fun conn =>
      if event.final then conn.close .final else { conn with phase := .following 0, last := event.seq }
  | .transition status terminal =>
    conn.chunk (.transition (conn.last + 1) status) fun conn =>
      if terminal then conn.close .terminal else { conn with phase := .following 0, last := conn.last + 1 }

/-- No message came in time; `follow7/7` counts from the start again. -/
def heartbeat (conn : Connection) (opts : Options) (idle : Nat) : Connection :=
  let idle := idle + opts.heartbeatMs
  if opts.maxIdleMs ≤ idle then conn.close .idle
  else if conn.connected then
    { conn with phase := .following (match conn.mode with | .stream => idle | .resubscribe => 0) }
  else conn.close .closed

/-- The backlog that was read after registration. -/
def opens (conn : Connection) (backlog : List Event) : Connection :=
  match conn.mode with
  | .stream => { conn with phase := .replaying backlog }
  | .resubscribe =>
    -- The snapshot replaces logged "task" events.
    let backlog := backlog.filter fun row => row.kind ≠ "task"
    if conn.terminal ∧ ¬ backlog.any Event.final then { conn with phase := .refused, mailbox := [] }
    else { conn with
      phase := .opened backlog
      frames := if conn.connected then conn.frames ++ [.snapshot conn.task] else conn.frames }

end Connection

/-- The log appends the event and tells who is registered. -/
def System.publish (system : System) (taskId kind : String) (payload : Json) (final : Bool) : System where
  events := TaskEvents.publish system.events taskId kind payload final
  conn :=
    if taskId = system.conn.taskId ∧ system.conn.phase.listening then
      system.conn.tell (.logged (numbered system.events taskId kind payload final))
    else system.conn

/-- The next step of the connection's own process. -/
def System.advance (system : System) : System :=
  let conn := system.conn
  match conn.phase with
  | .opening =>
    match conn.mode with
    | .stream =>
      let system := system.publish conn.taskId "task" conn.task false
      { system with conn := { system.conn with phase := .announced } }
    | .resubscribe => { system with conn := { conn with phase := .registered } }
  | .announced => { system with conn := { conn with phase := .registered } }
  | .registered => { system with conn := conn.opens (backlog system.events conn.taskId) }
  | .opened backlog => { system with conn := { conn with phase := .replaying backlog } }
  | .replaying [] => { system with conn := { conn with phase := .following 0 } }
  | .replaying (row :: rows) => { system with conn := conn.replay row rows }
  | .following idle =>
    match conn.mailbox with
    | [] => system
    | message :: rest => { system with conn := conn.follow message rest idle }
  | .refused | .done _ => system

inductive Step where
  /-- By anyone but the connection and its pump. -/
  | publish (taskId kind : String) (payload : Json) (final : Bool)
  | sweep
  | transition (status : Json) (terminal : Bool)
  | disconnect
  | pump
  | heartbeat
  | advance

def System.step (opts : Options) (system : System) : Step → System
  | .publish taskId kind payload final => system.publish taskId kind payload final
  | .sweep => { system with events := TaskEvents.sweep system.events }
  | .transition status terminal =>
    if system.conn.mode = .resubscribe ∧ system.conn.phase.riding then
      { system with conn := system.conn.tell (.transition status terminal) }
    else system
  | .disconnect => { system with conn := { system.conn with connected := false } }
  | .pump =>
    match system.conn.phase, system.conn.pumping with
    | .opening, _ | _, [] => system
    | _, publication :: rest =>
      let system := { system with conn := { system.conn with pumping := rest } }
      system.publish system.conn.taskId publication.kind publication.payload publication.final
  | .heartbeat =>
    match system.conn.phase, system.conn.mailbox with
    | .following idle, [] => { system with conn := system.conn.heartbeat opts idle }
    | _, _ => system
  | .advance => system.advance

end AshA2A.A2ATransport.SSE
