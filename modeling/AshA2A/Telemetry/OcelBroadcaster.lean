import AshA2A.Value
import AshA2A.Receipt

/-! The broadcaster: a process that turns telemetry events into records, buffers them up to a bound
and flushes them to its sinks. -/

namespace AshA2A.Telemetry.OcelBroadcaster

inductive Kind where
  | dispatchStop | dispatchException | receiptCommitted | receiptOutboxed
  deriving Repr, DecidableEq

/-- The metadata of a telemetry event: a receipt itself, or any other map. The receipt events of the
command bus carry a map with the receipt under `receipt`. -/
inductive Metadata where
  | receipt (receipt : Receipt)
  | map (entries : Value)

/-- An event as the sinks are given it. `number` stands for the identifier that is generated for it,
which no other event has. -/
structure Event where
  number : Nat
  eventType : Bytes
  eventTime : Nat
  /-- A value that is `nil` stays so. -/
  attributes : List (String × Option Bytes)
  /-- The object that was acted on. -/
  objectId : Option Bytes
  deriving Repr, DecidableEq

/-- The resources of the application, and what the runtime prints. `text` is `to_string/1`, which
raises on a term that it does not know how to print. -/
structure Host where
  isResource : String → Bool
  shortName : String → Bytes
  inspect : Value → Bytes
  text : Value → Option Bytes
  /-- `SemanticProjection.ocel_event/1`. -/
  receiptEvent : Receipt → Nat → Event

/-! ## Conversion -/

def named : Value → Option String
  | .atom name => if name = "nil" then none else some name
  | _ => none

/-- `Redact.error_summary/1`, of which only the kind is used. -/
def errorKind (reason : Value) : String :=
  match reason with
  | .struct _ fields =>
    if fields.lookup "__exception__" matches some (.atom "true") then "exception"
    else ((named (reason.get "code")).or (named (reason.get "kind"))).getD "other"
  | .map _ => ((named (reason.get "code")).or (named (reason.get "kind"))).getD "other"
  | .atom name => if name = "nil" then "other" else name
  | .tuple (tag :: _ :: _) => (named tag).getD "other"
  | _ => "other"

variable (host : Host)

def textOrNil (value : Value) : Option (Option Bytes) :=
  match value with
  | .atom "nil" => some none
  | _ => (host.text value).map some

def stopEventType (metadata : Value) : Option Bytes := do
  let shortName :=
    match metadata.get "resource_or_domain" with
    | .atom name => if host.isResource name then host.shortName name else host.inspect (.atom name)
    | resource => host.inspect resource
  let skill ← host.text (metadata.get "skill_name")
  some (utf8 "ash_a2a.dispatch." ++ shortName ++ utf8 "." ++ skill)

def dispatchEventType (metadata : Value) : Kind → Option Bytes
  | .dispatchException => (stopEventType host metadata).map (· ++ utf8 ".exception")
  | _ => stopEventType host metadata

def stopAttributes (measurements metadata : Value) : Option (List (String × Option Bytes)) := do
  let skill ← host.text (metadata.get "skill_name")
  let replyType ← textOrNil host (metadata.get "reply_type")
  let duration ← textOrNil host (measurements.get "duration")
  some [("skill_name", some skill), ("resource_or_domain", some (host.inspect (metadata.get "resource_or_domain"))),
    ("reply_type", replyType), ("duration_native", duration)]

def dispatchAttributes (measurements metadata : Value) : Kind → Option (List (String × Option Bytes))
  | .dispatchException => do
    let attributes ← stopAttributes host measurements metadata
    let kind ← textOrNil host (metadata.get "kind")
    some (attributes ++ [("kind", kind), ("error_code", some (utf8 (errorKind (metadata.get "reason"))))])
  | _ => stopAttributes host measurements metadata

def relationships (metadata : Value) : Option Bytes :=
  match metadata.get "object_id" with
  | .binary bytes => if bytes = [] then none else some bytes
  | _ => none

/-- `none` where a value cannot be printed. -/
def dispatchEvent (number time : Nat) (measurements metadata : Value) (kind : Kind) : Option Event := do
  let eventType ← dispatchEventType host metadata kind
  let attributes ← dispatchAttributes host measurements metadata kind
  some ⟨number, eventType, time, attributes, relationships metadata⟩

inductive Conversion where
  | event (event : Event)
  /-- The event is none of the kinds that are converted. -/
  | nothing
  | raised

def Conversion.ofOption : Option Event → Conversion
  | some converted => .event converted
  | none => .raised

def toOcelEvent (number time : Nat) (kind : Kind) (measurements : Value) (metadata : Metadata) : Conversion :=
  match metadata with
  | .receipt receipt => .event { host.receiptEvent receipt time with number := number }
  | .map metadata =>
    match kind with
    | .dispatchStop | .dispatchException =>
      if measurements.isMap then .ofOption (dispatchEvent host number time measurements metadata kind) else .nothing
    | .receiptCommitted | .receiptOutboxed => .nothing

/-! ## The buffer -/

structure Sink where
  platform : String
  config : Value

structure State where
  sinks : List Sink
  maxBuffer : Nat
  queue : List Event := []
  size : Nat := 0
  drops : Nat := 0

/-- `init/1`: the bound is never less than one. -/
def State.init (sinks : List Sink) (maxBuffer : Int) : State := { sinks, maxBuffer := (max 1 maxBuffer).toNat }

namespace State

def buffer (state : State) (event : Event) : State :=
  if state.maxBuffer ≤ state.size then
    { state with queue := state.queue.tail ++ [event], drops := state.drops + 1 }
  else { state with queue := state.queue ++ [event], size := state.size + 1 }

def drain (state : State) : List Event × State := (state.queue, { state with queue := [], size := 0 })

/-- Behind what is buffered already, with the same bound. -/
def rebuffer (state : State) (events : List Event) : State := events.foldl buffer state

/-- What is left of the flush when the sinks with these numbers have been served. `accepts` says
which of the deliveries succeeds. -/
def deliverTo (accepts : Nat → Bool) (events : List Event) (state : State) (sinks : List Nat) : State :=
  sinks.foldl (fun state sink => if accepts sink then state else state.rebuffer events) state

/-- An argument of `deliver/2`, whose clauses look at what they are given. -/
inductive Argument where
  | events (events : List Event)
  | state (state : State)

def deliver (accepts : Nat → Bool) : Argument → Argument → Option State
  | events, .state state =>
    if state.sinks = [] then some state
    else
      match events with
      | .events [] => some state
      | .events events => some (deliverTo accepts events state (List.range state.sinks.length))
      | .state _ => none
  | _, .events _ => none

/-- The call `flush/1`. -/
def flush (accepts : Nat → Bool) (state : State) : Option State :=
  if state.sinks = [] then some state
  else
    let (events, state) := state.drain
    deliver accepts (.events events) (.state state)

/-- The message of the timer: the state is piped into `deliver/2` as its first argument. -/
def tick (accepts : Nat → Bool) (state : State) : Option State :=
  if state.sinks = [] then some state
  else
    let (events, state) := state.drain
    deliver accepts (.state state) (.events events)

def receive (number time : Nat) (kind : Kind) (measurements : Value) (metadata : Metadata) (state : State) :
    Option State :=
  if state.sinks = [] then some state
  else
    match toOcelEvent host number time kind measurements metadata with
    | .event event => some (state.buffer event)
    | .nothing => some state
    | .raised => none

end State

/-! ## Runs -/

inductive Message where
  | event (kind : Kind) (measurements : Value) (metadata : Metadata) (time : Nat)
  | flush (accepts : Nat → Bool)
  | tick (accepts : Nat → Bool)
  /-- A question for a counter, or a message that is not known. -/
  | other

structure World where
  /-- `none` when the process has crashed. -/
  server : Option State
  /-- How many events it was sent while it had a sink. -/
  arrivals : Nat := 0
  /-- The events that the sink with this number has accepted. -/
  delivered : Nat → List Nat := fun _ => []

def World.step (world : World) (message : Message) : World :=
  match world.server with
  | none => world
  | some state =>
    match message with
    | .event kind measurements metadata time =>
      { world with
        server := state.receive host world.arrivals time kind measurements metadata
        arrivals := if state.sinks = [] then world.arrivals else world.arrivals + 1 }
    | .flush accepts =>
      { world with
        server := state.flush accepts
        delivered := fun sink =>
          if accepts sink then world.delivered sink ++ state.queue.map Event.number else world.delivered sink }
    | .tick accepts => { world with server := state.tick accepts }
    | .other => world

end AshA2A.Telemetry.OcelBroadcaster
