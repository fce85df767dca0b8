import AshA2A.Calendar
import AshA2A.Passport.Encoding
import AshA2A.Protocol.AgentCard
import AshA2A.Protocol.Task

/-! Tasks, messages and stream events with every field that goes over the wire, and their JSON.
A field holds whatever the decoder found there, `nil` being JSON's null. -/

namespace AshA2A.Protocol.JSON

open Json (record)
open AgentCard (unlessNil unlessEmpty truthy getOr)
open Calendar (DateTime)

structure FileContent where
  name : Json := .null
  mimeType : Json := .null
  bytes : Option Bytes := none
  uri : Json := .null
  deriving Repr

inductive Part where
  | text (text metadata : Json)
  | file (file : FileContent) (metadata : Json)
  | data (data metadata : Json)
  deriving Repr

structure Message where
  messageId : Json := .null
  role : Role
  parts : List Part
  taskId : Json := .null
  contextId : Json := .null
  referenceTaskIds : Json := .array []
  metadata : Json := .object []
  extensions : Json := .object []
  deriving Repr

structure Artifact where
  artifactId : Json := .null
  name : Json := .null
  description : Json := .null
  parts : List Part
  extensions : Json := .array []
  metadata : Json := .object []
  deriving Repr

structure Status where
  state : TaskState
  message : Option Message := none
  timestamp : Option DateTime
  deriving Repr

structure Task where
  id : Json
  contextId : Json := .null
  status : Status
  history : List Message := []
  artifacts : List Artifact := []
  metadata : Json := .object []
  deriving Repr

structure StatusUpdate where
  taskId : Json
  contextId : Json := .null
  status : Status
  final : Json := .bool false
  metadata : Json := .object []
  deriving Repr

structure ArtifactUpdate where
  taskId : Json
  contextId : Json := .null
  artifact : Artifact
  append : Json := .null
  lastChunk : Json := .null
  metadata : Json := .object []
  deriving Repr

structure PushAuthentication where
  scheme : Option Json := none
  credentials : Option Json := none
  deriving Repr

structure PushNotificationConfig where
  id : Json
  taskId : Json
  url : Json
  token : Json
  authentication : Option PushAuthentication
  deriving Repr

inductive Event where
  | task (task : Task)
  | message (message : Message)
  | statusUpdate (event : StatusUpdate)
  | artifactUpdate (event : ArtifactUpdate)
  deriving Repr

/-- `raised` stands for every exception. -/
inductive Fault where
  | raised
  | missingField (name : String)
  | emptyField (name : String)
  | invalidState (value : Json)
  | invalidRole (value : Json)
  | invalidTimestamp (text : String)
  | invalidBase64
  | unknownKind (kind : Json)
  deriving Repr

/-! ## Names on the wire -/

def stateToString : TaskState → String
  | .submitted => "TASK_STATE_SUBMITTED"
  | .working => "TASK_STATE_WORKING"
  | .inputRequired => "TASK_STATE_INPUT_REQUIRED"
  | .completed => "TASK_STATE_COMPLETED"
  | .canceled => "TASK_STATE_CANCELED"
  | .failed => "TASK_STATE_FAILED"
  | .rejected => "TASK_STATE_REJECTED"
  | .authRequired => "TASK_STATE_AUTH_REQUIRED"
  | .unknown => "TASK_STATE_UNSPECIFIED"

/-- The names of earlier peers are read too. -/
def stringToState : String → Option TaskState
  | "TASK_STATE_SUBMITTED" | "submitted" => some .submitted
  | "TASK_STATE_WORKING" | "working" => some .working
  | "TASK_STATE_INPUT_REQUIRED" | "input-required" => some .inputRequired
  | "TASK_STATE_COMPLETED" | "completed" => some .completed
  | "TASK_STATE_CANCELED" | "canceled" => some .canceled
  | "TASK_STATE_FAILED" | "failed" => some .failed
  | "TASK_STATE_REJECTED" | "rejected" => some .rejected
  | "TASK_STATE_AUTH_REQUIRED" | "auth-required" => some .authRequired
  | "TASK_STATE_UNSPECIFIED" | "TASK_STATE_UNKNOWN" | "unknown" => some .unknown
  | _ => none

/-- The states that end a stream. -/
def finalStates : List TaskState := [.completed, .canceled, .failed, .rejected, .inputRequired, .authRequired]

def roleToString : Role → String
  | .user => "ROLE_USER"
  | .agent => "ROLE_AGENT"

def stringToRole : String → Option Role
  | "ROLE_USER" | "user" => some .user
  | "ROLE_AGENT" | "agent" => some .agent
  | _ => none

/-! ## Encoding -/

/-- `DateTime.shift_zone!/2` to UTC, then the text. -/
def encodeTimestamp (timestamp : DateTime) : Json := .string (Calendar.toIso8601 timestamp.utc)

def encodeBytes (bytes : Bytes) : Json := .string (Base64Padded.encode bytes)

def encodePart : Part → Json
  | .text text metadata => record [("text", text), ("metadata", unlessEmpty metadata)]
  | .file file metadata =>
    record [("filename", unlessNil file.name), ("mediaType", unlessNil file.mimeType), ("url", unlessNil file.uri),
      ("raw", file.bytes.map encodeBytes), ("metadata", unlessEmpty metadata)]
  | .data data metadata => record [("data", data), ("metadata", unlessEmpty metadata)]

def encodeMessage (message : Message) : Json :=
  record
    [("role", some (.string (roleToString message.role))), ("parts", some (.array (message.parts.map encodePart))),
      ("messageId", unlessNil message.messageId), ("taskId", unlessNil message.taskId),
      ("contextId", unlessNil message.contextId), ("referenceTaskIds", unlessEmpty message.referenceTaskIds),
      ("metadata", unlessEmpty message.metadata), ("extensions", unlessEmpty message.extensions)]

def encodeArtifact (artifact : Artifact) : Json :=
  record
    [("parts", some (.array (artifact.parts.map encodePart))), ("artifactId", unlessNil artifact.artifactId),
      ("name", unlessNil artifact.name), ("description", unlessNil artifact.description),
      ("extensions", unlessEmpty artifact.extensions), ("metadata", unlessEmpty artifact.metadata)]

def encodeStatus (status : Status) : Json :=
  record
    [("state", some (.string (stateToString status.state))), ("message", status.message.map encodeMessage),
      ("timestamp", status.timestamp.map encodeTimestamp)]

/-- The context is required on the wire: an empty text stands for `nil`. -/
def encodeTask (task : Task) : Json :=
  record
    [("id", task.id), ("contextId", (truthy task.contextId).getD (.string "")), ("status", encodeStatus task.status),
      ("history", unlessEmpty (.array (task.history.map encodeMessage))),
      ("artifacts", unlessEmpty (.array (task.artifacts.map encodeArtifact))), ("metadata", unlessEmpty task.metadata)]

/-- Whether the event is final is not written. -/
def encodeStatusUpdate (event : StatusUpdate) : Json :=
  record
    [("taskId", event.taskId), ("status", encodeStatus event.status), ("contextId", unlessNil event.contextId),
      ("metadata", unlessEmpty event.metadata)]

def encodeArtifactUpdate (event : ArtifactUpdate) : Json :=
  record
    [("taskId", event.taskId), ("artifact", encodeArtifact event.artifact), ("contextId", unlessNil event.contextId),
      ("append", unlessNil event.append), ("lastChunk", unlessNil event.lastChunk),
      ("metadata", unlessEmpty event.metadata)]

def encodeStreamResponse : Event → Json
  | .task task => .object [("task", encodeTask task)]
  | .message message => .object [("message", encodeMessage message)]
  | .statusUpdate event => .object [("statusUpdate", encodeStatusUpdate event)]
  | .artifactUpdate event => .object [("artifactUpdate", encodeArtifactUpdate event)]

/-! ## Decoding -/

def requireField (json : Json) (name : String) : Except Fault Json :=
  if json.isObject then
    match json.get? name with
    | some value => .ok value
    | none => .error (.missingField name)
  else .error .raised

def requireNonEmpty (json : Json) (name : String) : Except Fault Unit :=
  match json with
  | .array [] => .error (.emptyField name)
  | .array _ => .ok ()
  | _ => .error .raised

def decodeState (json : Json) : Except Fault TaskState :=
  match json with
  | .string text => ((stringToState text).map Except.ok).getD (.error (.invalidState json))
  | _ => .error (.invalidState json)

def decodeRole (json : Json) : Except Fault Role :=
  match json with
  | .string text => ((stringToRole text).map Except.ok).getD (.error (.invalidRole json))
  | _ => .error (.invalidRole json)

def decodeTimestamp : Json → Except Fault (Option DateTime)
  | .null => .ok none
  | .string text =>
    match Calendar.fromIso8601 text with
    | some moment => .ok (some { utc := moment })
    | none => .error (.invalidTimestamp text)
  | _ => .error .raised

def decodeBase64 : Json → Except Fault (Option Bytes)
  | .null => .ok none
  | .string text =>
    match Base64Padded.decode text with
    | some bytes => .ok (some bytes)
    | none => .error .invalidBase64
  | _ => .error .raised

def decodeOptional {α : Type} (json : Json) (decode : Json → Except Fault α) : Except Fault (Option α) :=
  match json with
  | .null => .ok none
  | json => (decode json).map some

/-- A map is gone through entry by entry, and no entry is a map. -/
def decodeList {α : Type} (json : Json) (decode : Json → Except Fault α) : Except Fault (List α) :=
  match json with
  | .array items => items.mapM decode
  | .object [] => .ok []
  | _ => .error .raised

def metadataOf (json : Json) : Json := getOr json "metadata" (.object [])

/-- The spelling of this version before that of earlier peers. -/
def either (json : Json) (name other : String) : Json := (truthy (json.get? name)).getD (getOr json other .null)

def decodeFileContent (json : Json) : Except Fault FileContent :=
  if json.isObject then do
    let bytes ← decodeBase64 (either json "bytes" "fileWithBytes")
    return ⟨getOr json "name" .null, either json "mimeType" "mediaType", bytes, either json "uri" "fileWithUri"⟩
  else .error .raised

def decodeTextPart (json : Json) : Except Fault Part := do
  return .text (← requireField json "text") (metadataOf json)

def decodeFilePart (json : Json) : Except Fault Part := do
  let file ← requireField json "file"
  return .file (← decodeFileContent file) (metadataOf json)

def decodeDataPart (json : Json) : Except Fault Part := do
  return .data (← requireField json "data") (metadataOf json)

def decodeFlatFilePart (json : Json) : Except Fault Part := do
  let bytes ← decodeBase64 (getOr json "raw" .null)
  return .file ⟨getOr json "filename" .null, getOr json "mediaType" .null, bytes, getOr json "url" .null⟩
    (metadataOf json)

def inferPartType (json : Json) : Except Fault Part :=
  if (json.get? "text").isSome then decodeTextPart json
  else if (json.get? "data").isSome then decodeDataPart json
  else if (json.get? "file").isSome then decodeFilePart json
  else if (json.get? "raw").isSome ∨ (json.get? "url").isSome then decodeFlatFilePart json
  else .error (.missingField "kind")

def decodePart (json : Json) : Except Fault Part :=
  if json.isObject then
    match getOr json "kind" .null with
    | .string "text" => decodeTextPart json
    | .string "file" => decodeFilePart json
    | .string "data" => decodeDataPart json
    | .null => inferPartType json
    | other => .error (.unknownKind other)
  else .error .raised

def decodeMessage (json : Json) : Except Fault Message := do
  let messageId ← requireField json "messageId"
  let role ← requireField json "role"
  let role ← decodeRole role
  let parts ← requireField json "parts"
  requireNonEmpty parts "parts"
  let parts ← decodeList parts decodePart
  return {
    messageId, role, parts
    taskId := getOr json "taskId" .null
    contextId := getOr json "contextId" .null
    referenceTaskIds := getOr json "referenceTaskIds" (.array [])
    metadata := metadataOf json
    extensions := getOr json "extensions" (.object []) }

def decodeArtifact (json : Json) : Except Fault Artifact := do
  let parts ← requireField json "parts"
  let parts ← decodeList parts decodePart
  return {
    artifactId := getOr json "artifactId" .null
    name := getOr json "name" .null
    description := getOr json "description" .null
    parts
    extensions := getOr json "extensions" (.array [])
    metadata := metadataOf json }

def decodeStatus (json : Json) : Except Fault Status := do
  let state ← requireField json "state"
  let state ← decodeState state
  let message ← decodeOptional (getOr json "message" .null) decodeMessage
  let timestamp ← decodeTimestamp (getOr json "timestamp" .null)
  return ⟨state, message, timestamp⟩

def decodeTask (json : Json) : Except Fault Task := do
  let id ← requireField json "id"
  let status ← requireField json "status"
  let status ← decodeStatus status
  let history ← decodeList (getOr json "history" (.array [])) decodeMessage
  let artifacts ← decodeList (getOr json "artifacts" (.array [])) decodeArtifact
  return ⟨id, getOr json "contextId" .null, status, history, artifacts, metadataOf json⟩

/-- The flag of earlier peers, or else whether the state ends the stream. -/
def decodeStatusUpdate (json : Json) : Except Fault StatusUpdate := do
  let taskId ← requireField json "taskId"
  let status ← requireField json "status"
  let status ← decodeStatus status
  return ⟨taskId, getOr json "contextId" .null, status,
    getOr json "final" (.bool (status.state ∈ finalStates)), metadataOf json⟩

def decodeArtifactUpdate (json : Json) : Except Fault ArtifactUpdate := do
  let taskId ← requireField json "taskId"
  let artifact ← requireField json "artifact"
  let artifact ← decodeArtifact artifact
  return ⟨taskId, getOr json "contextId" .null, artifact, getOr json "append" .null, getOr json "lastChunk" .null,
    metadataOf json⟩

/-- One scheme, or the first of several. -/
def decodePushAuthentication (json : Json) : Except Fault (Option PushAuthentication) :=
  match json with
  | .object _ => do
    let scheme ← match getOr json "scheme" .null, getOr json "schemes" (.array []) with
      | .null, .array schemes => .ok ((schemes.head?).getD .null)
      | .null, _ => .error .raised
      | scheme, _ => .ok scheme
    match unlessNil scheme, unlessNil (getOr json "credentials" .null) with
      | none, none => return none
      | scheme, credentials => return some ⟨scheme, credentials⟩
  | _ => .ok none

def decodePushNotificationConfig (json : Json) : Except Fault PushNotificationConfig := do
  let url ← requireField json "url"
  let authentication ← decodePushAuthentication (getOr json "authentication" .null)
  return ⟨getOr json "id" .null, either json "taskId" "task_id", url, getOr json "token" .null, authentication⟩

/-- A member that is a map, and not an empty one. -/
def filled (json : Json) (name : String) : Bool :=
  match json.get? name with
  | some (.object (_ :: _)) => true
  | _ => false

/-- A list that is not empty. -/
def listed (json : Json) (name : String) : Bool :=
  match json.get? name with
  | some (.array (_ :: _)) => true
  | _ => false

/-- A frame without wrapper and without kind. -/
def inferBareEvent (json : Json) : Except Fault Event :=
  if (json.get? "taskId").isSome ∧ filled json "status" then (decodeStatusUpdate json).map .statusUpdate
  else if (json.get? "taskId").isSome ∧ filled json "artifact" then (decodeArtifactUpdate json).map .artifactUpdate
  else if (json.get? "messageId").isSome ∧ listed json "parts" then (decodeMessage json).map .message
  else if (json.get? "id").isSome ∧ filled json "status" then (decodeTask json).map .task
  else .error (.missingField "kind")

def decodeEventByKind (json : Json) : Except Fault Event :=
  if json.isObject then
    match getOr json "kind" .null with
    | .string "status-update" => (decodeStatusUpdate json).map .statusUpdate
    | .string "artifact-update" => (decodeArtifactUpdate json).map .artifactUpdate
    | .string "task" => (decodeTask json).map .task
    | .string "message" => (decodeMessage json).map .message
    | .null => inferBareEvent json
    | other => .error (.unknownKind other)
  else .error .raised

/-- What a wrapper of the name holds. -/
def wrapped (json : Json) (name : String) : Option Json := (json.get? name).filter Json.isObject

/-- The first wrapper decides. -/
def decodeEvent (json : Json) : Except Fault Event :=
  match wrapped json "task", wrapped json "message", wrapped json "statusUpdate", wrapped json "artifactUpdate",
    wrapped json "status_update", wrapped json "artifact_update" with
  | some inner, _, _, _, _, _ => (decodeTask inner).map .task
  | _, some inner, _, _, _, _ => (decodeMessage inner).map .message
  | _, _, some inner, _, _, _ => (decodeStatusUpdate inner).map .statusUpdate
  | _, _, _, some inner, _, _ => (decodeArtifactUpdate inner).map .artifactUpdate
  | _, _, _, _, some inner, _ => (decodeStatusUpdate inner).map .statusUpdate
  | _, _, _, _, _, some inner => (decodeArtifactUpdate inner).map .artifactUpdate
  | _, _, _, _, _, _ => decodeEventByKind json

inductive DecodeType where
  | task | status | message | artifact | part | fileContent | event | statusUpdateEvent | artifactUpdateEvent
  | pushNotificationConfig
  deriving Repr, DecidableEq

/-- The struct of the type, or an event. -/
inductive Decoded where
  | status (status : Status)
  | artifact (artifact : Artifact)
  | part (part : Part)
  | fileContent (file : FileContent)
  | event (event : Event)
  | pushNotificationConfig (config : PushNotificationConfig)
  deriving Repr

def decode (json : Json) : DecodeType → Except Fault Decoded
  | .task => (decodeTask json).map fun task => .event (.task task)
  | .status => (decodeStatus json).map .status
  | .message => (decodeMessage json).map fun message => .event (.message message)
  | .artifact => (decodeArtifact json).map .artifact
  | .part => (decodePart json).map .part
  | .fileContent => (decodeFileContent json).map .fileContent
  | .event => (decodeEvent json).map .event
  | .statusUpdateEvent => (decodeStatusUpdate json).map fun event => .event (.statusUpdate event)
  | .artifactUpdateEvent => (decodeArtifactUpdate json).map fun event => .event (.artifactUpdate event)
  | .pushNotificationConfig => (decodePushNotificationConfig json).map .pushNotificationConfig

end AshA2A.Protocol.JSON
