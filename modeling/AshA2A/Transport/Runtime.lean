import AshA2A.Transport.Principal
import AshA2A.Protocol.Agent
import Mathlib.Algebra.Order.Ring.Unbundled.Rat
import Mathlib.Data.Rat.Defs

/-! The runtime behind every agent: who may continue a task, how much may run, and where. -/

namespace AshA2A.Transport
open Protocol

namespace Runtime

inductive Mode where
  | inline | async
  deriving Repr, DecidableEq

/-- `rateLimit` is a number of calls and the milliseconds they are spread over. -/
structure Config where
  mode : Mode := .async
  maxInFlight : Option Int := some 256
  rateLimit : Option (Int × Rat) := none
  deriving Repr, DecidableEq

/-- What the environment or an agent sets of it. -/
structure Settings where
  mode : Option Mode := none
  maxInFlight : Option (Option Int) := none
  rateLimit : Option (Option (Int × Rat)) := none
  deriving Repr, DecidableEq

def config (environment agent : Settings) : Config :=
  let defaults : Config := {}
  { mode := (agent.mode <|> environment.mode).getD defaults.mode
    maxInFlight := (agent.maxInFlight <|> environment.maxInFlight).getD defaults.maxInFlight
    rateLimit := (agent.rateLimit <|> environment.rateLimit).getD defaults.rateLimit }

/-- What the runtime finds around it: the hash function, the claims that name a principal, and
how reasons are shown. -/
structure Host extends Agent.Host where
  crypto : Crypto
  claims : List String

inductive Refusal where
  | notFound | notContinuable | taskInProgress | serverBusy | rateLimited
  deriving Repr, DecidableEq

inductive Answer where
  | task (task : Task)
  | message (message : Message)
  | error (refusal : Refusal)
  /-- The caller is answered when its worker is done. -/
  | later
  deriving Repr, DecidableEq

/-- What a handler, or a durable run in its place, comes to. -/
inductive Outcome where
  | handled (reply : Agent.Reply)
  | working (parts : List Term)
  | canceled (parts : List Term)
  deriving Repr, DecidableEq

/-- A message call, under what the transport verified of its caller. -/
structure Call where
  message : Message
  taskId : Option String := none
  contextId : Option String := none
  metadata : TermMap := []
  deriving Repr, DecidableEq

/-- The ids generated in a call: of a context, of a bare answer, and those of a turn. -/
structure Minted where
  context : String
  answer : String
  ids : Agent.Ids
  deriving Repr, DecidableEq

/-! ## Ownership -/

def ownerKey : Term := .binary "ash_a2a.owner"
def authKey : Term := .binary "a2a.auth"

variable (host : Host)

def owner (task : Task) : Principal :=
  match task.metadata.get? ownerKey with
  | some (.binary key) => some key
  | _ => Principal.fromMetadata host.crypto host.claims task.metadata

def ownedBy (task : Task) (principal : Principal) : Bool := owner host task = principal

def caller (call : Call) : Principal := Principal.fromMetadata host.crypto host.claims call.metadata

def putOwner (metadata : TermMap) : Principal → TermMap
  | none => deleteKey metadata ownerKey
  | some key => metadata.put ownerKey (.binary key)

/-- The empty one that the wire writes for an omitted one is none. -/
def explicitContextId : Option String → Option String
  | some "" | none => none
  | some id => some id

def matchingContext (task : Task) : Option String → Bool
  | none => true
  | some explicit => task.contextId = some explicit

/-- A continuation runs under what was verified of the current call. -/
def rebindAuth (taskMetadata callMetadata : TermMap) : TermMap :=
  match callMetadata.get? authKey with
  | some auth => taskMetadata.put authKey auth
  | none => deleteKey taskMetadata authKey

def «continue» (taskId : String) (call : Call) (state : State) : Except Refusal Task :=
  match state.getTask taskId with
  | none => .error .notFound
  | some task =>
    if !ownedBy host task (caller host call) then .error .notFound
    else if !matchingContext task (explicitContextId call.contextId) then .error .notFound
    else if task.terminal then .error .notContinuable
    else if task.status.state = .working then .error .taskInProgress
    else
      .ok { task with
        history := task.history ++ [call.message]
        metadata := rebindAuth (deleteKey task.metadata (.atom "stream")) call.metadata }

def prepareTask (call : Call) (minted : Minted) (state : State) : Except Refusal Task :=
  match call.taskId with
  | none =>
    let contextId := (explicitContextId call.contextId).getD minted.context
    let task := Task.new minted.ids.task (some contextId) (putOwner call.metadata (caller host call))
    .ok { task with history := [call.message] }
  | some taskId => «continue» host taskId call state

/-! ## Admission limits -/

/-- The tokens left, and when they were counted. -/
abbrev Buckets := List (Principal × Rat × Int)

def maxBuckets : Nat := 10000

def prune (buckets : Buckets) (capacity : Int) (perMs : Rat) (now : Int) : Buckets :=
  buckets.filter fun bucket => ¬ bucket.2.1 + (now - bucket.2.2) * capacity / perMs ≥ capacity

def takeToken (principal : Principal) (capacity : Int) (perMs : Rat) (now : Int) (buckets : Buckets) :
    Except Refusal Unit × Buckets :=
  let (tokens, last) := (buckets.lookup principal).getD (capacity, now)
  let tokens := min (capacity : Rat) (tokens + (now - last) * capacity / perMs)
  let (result, tokens) := if tokens ≥ 1 then (.ok (), tokens - 1) else (.error .rateLimited, tokens)
  let buckets := (principal, tokens, now) :: buckets.filter fun bucket => bucket.1 ≠ principal
  (result, if buckets.length > maxBuckets then prune buckets capacity perMs now else buckets)

def checkRate (principal : Principal) (config : Config) (now : Int) (buckets : Buckets) :
    Except Refusal Unit × Buckets :=
  match config.rateLimit with
  | some (capacity, perMs) =>
    if capacity > 0 ∧ perMs > 0 then takeToken principal capacity perMs now buckets else (.ok (), buckets)
  | none => (.ok (), buckets)

def checkCapacity (config : Config) (running : Nat) : Except Refusal Unit :=
  match config.maxInFlight with
  | some max => if (running : Int) ≥ max then .error .serverBusy else .ok ()
  | none => .ok ()

/-! ## The end of a turn -/

/-- A bare message finishes its task as a reply does. -/
def applyReply (ids : Agent.Ids) (task : Task) : Outcome → Task
  | .handled (.reply parts) | .handled (.message parts) =>
    let task : Task := { task with
      artifacts := task.artifacts ++ [⟨ids.artifact, parts⟩]
      history := task.history ++ [.newAgent ids.message parts] }
    task.transition .completed none
  | .handled (.inputRequired parts) =>
    let message := Message.newAgent ids.message parts
    let task : Task := { task with history := task.history ++ [message] }
    task.transition .inputRequired (some message)
  | .handled (.error reason) =>
    let shown := host.inspect (host.redact reason)
    if Agent.Runtime.admissionRefusal reason then
      task.transition .rejected (some (.newAgent ids.message [textPart ("Rejected: " ++ shown)]))
    else if Agent.Runtime.authFailure reason then
      task.transition .authRequired (some (.newAgent ids.message [textPart ("Auth required: " ++ shown)]))
    else task.transition .failed (some (.newAgent ids.message [textPart ("Error: " ++ shown)]))
  | .handled (.stream enum) => { task with metadata := task.metadata.put (.atom "stream") enum }
  | .working parts => task.transition .working (some (.newAgent ids.message parts))
  | .canceled parts => task.transition .canceled (some (.newAgent ids.message parts))

/-- A task that has ended does not run again under a credential. -/
def dropTerminalAuth (task : Task) : Task :=
  if task.terminal then { task with metadata := deleteKey task.metadata authKey } else task

def finish (taskId : String) (outcome : Outcome) (minted : Minted) (state : State) : Answer × State :=
  match state.getTask taskId with
  | none => (.error .notFound, state)
  | some task =>
    if task.terminal then (.task task, state)
    else
      let task := dropTerminalAuth (Agent.maybeWrapStream minted.ids (applyReply host minted.ids task outcome))
      let answer : Answer :=
        match outcome with
        | .handled (.message parts) =>
          .message { Message.newAgent minted.answer parts with contextId := task.contextId }
        | _ => .task task
      (answer, state.putTask task)

end Runtime

/-- The process of an agent: its tasks, the workers by their token with the task each one runs,
and the buckets of its callers. -/
structure Runtime where
  state : State := {}
  inFlight : List (Nat × String) := []
  tokens : Nat := 0
  buckets : Runtime.Buckets := []

namespace Runtime
variable (host : Host)

def spawnWorker (runtime : Runtime) (taskId : String) : Runtime :=
  { runtime with inFlight := (runtime.tokens, taskId) :: runtime.inFlight, tokens := runtime.tokens + 1 }

def inFlight? (runtime : Runtime) (taskId : String) : Bool := runtime.inFlight.any fun worker => worker.2 = taskId

/-- What the call leaves once it was accepted: the task is working. -/
def accept (runtime : Runtime) (task : Task) : Runtime :=
  let task := task.transition .working none
  { runtime with state := (runtime.state.putTask task).trackContext task }

/-- `outcome` is what the handler of an inline call comes to. -/
def handleMessageCall (config : Config) (call : Call) (now : Int) (minted : Minted) (outcome : Outcome)
    (runtime : Runtime) : Answer × Runtime :=
  let (rate, buckets) := checkRate (caller host call) config now runtime.buckets
  let runtime := { runtime with buckets }
  let prepared := do
    rate
    checkCapacity config runtime.inFlight.length
    prepareTask host call minted runtime.state
  match prepared with
  | .error refusal => (.error refusal, runtime)
  | .ok task =>
    let runtime := runtime.accept task
    match config.mode with
    | .inline =>
      let (answer, state) := finish host task.id outcome minted runtime.state
      (answer, { runtime with state })
    | .async => (.later, runtime.spawnWorker task.id)

inductive Event where
  | message (config : Config) (call : Call) (now : Int) (minted : Minted) (outcome : Outcome)
  /-- A worker has sent what its handler came to, or has died and an error is sent for it. -/
  | done (token : Nat) (outcome : Outcome) (minted : Minted)
  | cancel (taskId : String) (hook : Except Term Unit)
  | streamDone (taskId : String) (artifactId : Option String) (parts : List Term) (complete : Bool)
      (ids : Agent.Ids)

/-- A cancel that races a running handler is refused. -/
def apply (runtime : Runtime) : Event → Runtime
  | .message config call now minted outcome => (handleMessageCall host config call now minted outcome runtime).2
  | .done token outcome minted =>
    match runtime.inFlight.lookup token with
    | some taskId =>
      { runtime with
        inFlight := runtime.inFlight.filter fun worker => worker.1 ≠ token
        state := (finish host taskId outcome minted runtime.state).2 }
    | none => runtime
  | .cancel taskId hook =>
    if runtime.inFlight? taskId then runtime
    else { runtime with state := (Agent.cancel taskId hook runtime.state).2 }
  | .streamDone taskId artifactId parts complete ids =>
    { runtime with state := Agent.streamDone ids taskId artifactId parts complete runtime.state }

/-- The ids of new tasks are drawn afresh. -/
def Possible (runtime : Runtime) : Event → Prop
  | .message _ call _ minted _ => call.taskId = none → runtime.state.getTask minted.ids.task = none
  | _ => True

/-- A process that has just started, on what the store of an earlier one holds. -/
def start (taskStore : Option (String → Option Task)) : Runtime := { state := { taskStore } }

end Runtime
end AshA2A.Transport
