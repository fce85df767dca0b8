import AshA2A.Protocol.JSON

/-! A JSON-RPC request up to the call of the handler: parsed, validated, and its input decoded. -/

namespace AshA2A.Protocol.JSONRPC

open JSON (Fault PushNotificationConfig)
open AgentCard (truthy getOr)

/-- The error that is sent back; `data` is the reason where a decoder gave one. -/
inductive Error where
  | invalidRequest (data : String)
  | invalidParams (data : String)
  | undecodable (reason : Fault)
  | pushNotificationNotSupported
  deriving Repr

structure Request where
  id : Json := .null
  method : String
  params : Json := .object []
  deriving Repr

namespace Request

def validateId (raw : Json) : Except Error Json :=
  match raw.get? "id" with
  | some (.string id) => .ok (.string id)
  | some (.int id) => .ok (.int id)
  | some .null | none => .ok .null
  | some _ => .error (.invalidRequest "\"id\" must be a string, integer, or null")

/-- Params that are no map count as none. -/
def paramsOf (raw : Json) : Json := ((raw.get? "params").filter Json.isObject).getD (.object [])

def parse (raw : Json) : Except Error Request :=
  if raw.isObject then
    match raw.get? "jsonrpc", raw.get? "method" with
    | some (.string "2.0"), some (.string method) => do
      return { id := ← validateId raw, method, params := paramsOf raw }
    | some (.string "2.0"), _ => .error (.invalidRequest "\"method\" must be a string")
    | _, _ => .error (.invalidRequest "\"jsonrpc\" must be \"2.0\"")
  else .error (.invalidRequest "Request must be a JSON object")

/-- Either spelling. -/
def historyLength (params : Json) : Json := (params.get? "historyLength").getD (getOr params "history_length" .null)

def badHistoryLength (params : Json) : Bool :=
  match historyLength params with
  | .null => false
  | .int length => length < 0
  | _ => true

def badPageSize (params : Json) : Bool :=
  match params.get? "pageSize" with
  | some (.int size) => size < 1 ∨ 100 < size
  | some _ => true
  | none => false

/-- Only the names of this version are taken. -/
def badStatus (params : Json) : Bool :=
  match params.get? "status" with
  | some (.string status) => (JSON.stringToState status).all fun state => JSON.stateToString state ≠ status
  | some _ => true
  | none => false

def badTimestamp (params : Json) : Bool :=
  match params.get? "statusTimestampAfter" with
  | some (.string text) => (Calendar.fromIso8601 text).isNone
  | some _ => true
  | none => false

def checkHistoryLength (params : Json) : Except Error Unit :=
  if badHistoryLength params then .error (.invalidParams "\"historyLength\" must be a non-negative integer") else .ok ()

def validateParams (request : Request) : Except Error Unit :=
  let params := request.params
  if request.method ∈ ["message/send", "message/stream"] then
    match params.get? "message" with
    | some (.object _) => checkHistoryLength params
    | _ => .error (.invalidParams "\"message\" must be a JSON object")
  else if request.method ∈ ["tasks/get", "tasks/cancel", "tasks/resubscribe"] then
    match params.get? "id" with
    | some (.string _) => checkHistoryLength params
    | _ => .error (.invalidParams "\"id\" must be a string")
  else if request.method = "tasks/list" then
    if badPageSize params then .error (.invalidParams "\"pageSize\" must be an integer between 1 and 100")
    else if badStatus params then .error (.invalidParams "\"status\" must be a valid task state")
    else do
      checkHistoryLength params
      if badTimestamp params then
        .error (.invalidParams "\"statusTimestampAfter\" must be a valid ISO 8601 timestamp")
      else .ok ()
  else .ok ()

end Request

/-- The names of the methods in the protocol's definition. -/
def methodAliases : List (String × String) :=
  [("SendMessage", "message/send"), ("SendStreamingMessage", "message/stream"), ("GetTask", "tasks/get"),
    ("CancelTask", "tasks/cancel"), ("SubscribeToTask", "tasks/resubscribe"), ("ListTasks", "tasks/list"),
    ("GetExtendedAgentCard", "agent/getAuthenticatedExtendedCard"),
    ("CreateTaskPushNotificationConfig", "tasks/pushNotificationConfig/set"),
    ("GetTaskPushNotificationConfig", "tasks/pushNotificationConfig/get"),
    ("ListTaskPushNotificationConfigs", "tasks/pushNotificationConfig/list"),
    ("DeleteTaskPushNotificationConfig", "tasks/pushNotificationConfig/delete")]

def normalizeMethod (request : Request) : Request :=
  { request with method := (methodAliases.lookup request.method).getD request.method }

/-- What the handler is asked, or the error that is answered instead. -/
inductive Dispatch where
  | reply (error : Error)
  | message (message : JSON.Message) (request : Request)
  | pushConfig (config : PushNotificationConfig) (request : Request)
  | other (request : Request)
  deriving Repr

/-- A reason that a decoder gives is sent back as invalid parameters; an exception is not caught. -/
def mapped {α : Type} (decoded : Except Fault α) (accept : α → Dispatch) : Except Fault Dispatch :=
  match decoded with
  | .ok value => .ok (accept value)
  | .error .raised => .error .raised
  | .error reason => .ok (.reply (.undecodable reason))

def decodeMessage (params : Json) : Except Fault JSON.Message := JSON.decodeMessage (getOr params "message" .null)

/-- The configuration stands in the params or under a member of them; the task is named in the params. -/
def pushSource (params : Json) : Json :=
  let source := ((params.get? "pushNotificationConfig").filter Json.isObject).getD params
  .object (source.entries ++ [("taskId", JSON.either params "taskId" "task_id")])

/-- `pushConfigs` says whether the handler takes configurations for push notifications. -/
def dispatch (pushConfigs : Bool) (request : Request) : Except Fault Dispatch :=
  if request.method ∈ ["message/send", "message/stream"] then
    mapped (decodeMessage request.params) fun message => .message message request
  else if request.method = "tasks/pushNotificationConfig/set" then
    if pushConfigs then
      mapped (JSON.decodePushNotificationConfig (pushSource request.params)) fun config => .pushConfig config request
    else .ok (.reply .pushNotificationNotSupported)
  else .ok (.other request)

/-- `handle/3` before a callback of the handler runs. -/
def handle (pushConfigs : Bool) (raw : Json) : Except Fault Dispatch :=
  match Request.parse raw with
  | .error error => .ok (.reply error)
  | .ok request =>
    match Request.validateParams (normalizeMethod request) with
    | .error error => .ok (.reply error)
    | .ok () => dispatch pushConfigs (normalizeMethod request)

end AshA2A.Protocol.JSONRPC
