import AshA2A.Value

/-! The egress to the SIEM platforms: events are checked, cut into batches, and each batch is sent until it is accepted or
its retries are used up. -/

namespace AshA2A.Telemetry.SIEM

/-- Why an attempt was refused. -/
inductive Reason where
  | httpStatus (status : Int)
  | transport (kind : String)
  | endpointRefused (code detail : Value)
  | other (reason : Value)

/-- What the adapter answers to one attempt. -/
inductive Answer where
  | ok (status : Nat)
  | error (reason : Reason)
  | raised (summary : Value)

/-- The options of the configuration with their defaults. A batch size that is not positive is refused by every adapter. -/
structure Config where
  batchSize : Nat := 500
  positive : 0 < batchSize := by decide
  maxRetries : Nat := 2
  backoffBaseMs : Nat := 50
  maxBackoffMs : Nat := 2000

/-- The adapter of a platform, with its answer to each of the attempts that are made. -/
structure Adapter where
  platform : String
  validateConfig : Config → Except Value Config
  sendEvents : Nat → Answer

/-- What is done on the way: a batch is sent, or the process sleeps. -/
inductive Effect where
  | sent (batch : List Value)
  | slept (ms : Nat)

structure Report where
  platform : String
  events : Nat
  batches : Nat
  httpRequests : Nat
  attempts : Nat
  deriving Repr, DecidableEq

structure FailureDetail where
  batch : Nat
  attempts : Nat
  flushedBatches : Nat
  unflushedEvents : Nat
  reason : Reason

inductive Delivery where
  | delivered (report : Report)
  | failed (platform : String) (detail : FailureDetail)
  /-- `{:siem_delivery_failed, platform, {:raised, _}}` -/
  | raised (platform : String) (summary : Value)
  | invalidEvent (platform : String) (index : Nat) (missing : List String)
  | configInvalid (platform : String) (reason : Value)
  | unknownPlatform

/-! ## The shape of the events -/

def requiredKeys : List String := ["event_id", "event_type", "event_time"]

/-- The entry of a map under a text; a struct has atoms for keys. -/
def entry (event : Value) (key : String) : Option Value :=
  match event with
  | .map entries => (entries.find? fun entry => match entry.1 with
    | .binary bytes => bytes = utf8 key
    | _ => false).map Prod.snd
  | _ => none

def isList : Value → Bool
  | .list _ | .improper _ _ => true
  | _ => false

/-- The shapes that are wrong, the last one first. -/
def shapeErrors (event : Value) : List String :=
  let attributes := if (entry event "attributes").any fun value => !value.isMap then ["attributes_not_a_map"] else []
  if (entry event "relationships").any fun value => !isList value then "relationships_not_a_list" :: attributes else attributes

/-- The list is matched with the empty one. -/
def missingShape (event : Value) : Option (List String) := if shapeErrors event = [] then some [] else none

/-- None where it raises. -/
def eventShapeErrors (event : Value) : Option (List String) :=
  if event.isMap then do
    let missing := requiredKeys.filter fun key => (entry event key).isNone
    pure (missing ++ (← missingShape event))
  else some ["not_a_map"]

/-- The first event that is refused, with its place from one on. -/
def validateEvents : List Value → Nat → Option (Option (Nat × List String))
  | [], _ => some none
  | event :: rest, ix => do
    match ← eventShapeErrors event with
    | [] => validateEvents rest (ix + 1)
    | missing => pure (some (ix + 1, missing))

/-- `Enum.chunk_every/2` -/
def chunkEvery (size : Nat) (positive : 0 < size) : List Value → List (List Value)
  | [] => []
  | event :: events => ((event :: events).take size) :: chunkEvery size positive ((event :: events).drop size)
termination_by events => events.length
decreasing_by
  simp only [List.length_drop, List.length_cons]
  omega

/-! ## Delivery -/

def retryable : Reason → Bool
  | .httpStatus status => status = 408 ∨ status = 429 ∨ (500 ≤ status ∧ status ≤ 599)
  | .transport _ => true
  | _ => false

def backoff (config : Config) (attempt : Nat) : Nat :=
  min (config.backoffBaseMs * 2 ^ (attempt - 1)) config.maxBackoffMs

/-- How a batch ended, with the number of its attempts. -/
inductive Attempted where
  | ok (attempts : Nat)
  | error (attempts : Nat) (reason : Reason)
  | raised (summary : Value)

section Attempts
variable (sendEvents : Nat → Answer) (config : Config)

/-- `calls` are the attempts that were made before. -/
def attemptWithRetry (batch : List Value) : (retriesLeft attempt calls : Nat) → List Effect × Attempted
  | retriesLeft, attempt, calls =>
    match sendEvents calls with
    | .ok _ => ([.sent batch], .ok attempt)
    | .raised summary => ([.sent batch], .raised summary)
    | .error reason =>
      match retriesLeft with
      | 0 => ([.sent batch], .error attempt reason)
      | left + 1 =>
        if retryable reason then
          let (effects, attempted) := attemptWithRetry batch left (attempt + 1) (calls + 1)
          (.sent batch :: .slept (backoff config attempt) :: effects, attempted)
        else ([.sent batch], .error attempt reason)

/-- The batches from the given index on, of all of them. -/
def runBatches (batches : List (List Value)) (report : Report) : Nat → List (List Value) → List Effect × Delivery
  | _, [] => ([], .delivered report)
  | index, batch :: rest =>
    match attemptWithRetry sendEvents config batch config.maxRetries 1 report.attempts with
    | (effects, .ok attempts) =>
      let report := { report with httpRequests := report.httpRequests + 1, attempts := report.attempts + attempts }
      let (more, delivery) := runBatches batches report (index + 1) rest
      (effects ++ more, delivery)
    | (effects, .error attempts reason) =>
      let remaining := (batches.drop index).flatten.length
      (effects, .failed report.platform ⟨index, report.attempts + attempts, index - 1, remaining, reason⟩)
    | (effects, .raised summary) => (effects, .raised report.platform summary)

end Attempts

/-- The summary of a match that fails. -/
def badMatch : Value := .atom "badmatch"

def doDeliver (adapter : Adapter) (events : List Value) (config : Config) : List Effect × Delivery :=
  match adapter.validateConfig config with
  | .error reason => ([], .configInvalid adapter.platform reason)
  | .ok config =>
    match validateEvents events 0 with
    | none => ([], .raised adapter.platform badMatch)
    | some (some (index, missing)) => ([], .invalidEvent adapter.platform index missing)
    | some none =>
      let batches := chunkEvery config.batchSize config.positive events
      runBatches adapter.sendEvents config batches ⟨adapter.platform, events.length, batches.length, 0, 0⟩ 1 batches

/-- `deliver/3`, with the adapter that was found for the platform; what raises is caught. -/
def deliver (adapter : Option Adapter) (events : List Value) (config : Config) : List Effect × Delivery :=
  match adapter with
  | some adapter => doDeliver adapter events config
  | none => ([], .unknownPlatform)

end AshA2A.Telemetry.SIEM
