import AshA2A.A2ATransport.WebhookPolicy

/-! The delivery of one push notification: each attempt admits the URL again and connects to the
address that was admitted. -/

namespace AshA2A.A2ATransport.PushDelivery
open WebhookPolicy

structure Config where
  taskId : String
  id : String
  url : Term
  token : Option String := none
  /-- The schemes, where they are a list, and the credentials, where they are a text. -/
  authentication : Option (List String × String) := none
  deriving Repr, DecidableEq

structure Options where
  allowHttp : Bool := false
  allowCidrs : CidrList := .entries []
  signingSecret : Option String := none
  maxAttempts : Int := 5

inductive Response where
  | status (code : Nat)
  | exception (message : String)
  deriving Repr, DecidableEq

/-- What an attempt meets: the answers of the resolver, the time, and what the other side does. -/
structure Surroundings where
  resolver : Resolver
  timestamp : String
  response : Response

/-- With the signature of a secret over a text, in hexadecimal digits. -/
structure Client extends Inet where
  mac : String → String → String

structure Request where
  url : String
  body : String
  headers : List (String × String)
  /-- The name that is checked in place of the address. -/
  hostname : String
  deriving Repr, DecidableEq

inductive Sent where
  | ok (status : Nat)
  | httpError (status : Nat)
  | transportError (message : String)
  | refused (refusal : Refusal)
  /-- The delivery raises. -/
  | raised
  deriving Repr, DecidableEq

structure Attempt where
  number : Nat
  request : Option Request
  outcome : Sent
  deriving Repr, DecidableEq

def ipHost (inet : Inet) (ip : Ip) : String :=
  match ip with
  | .v4 .. => inet.ntoa ip
  | .v6 .. => "[" ++ inet.ntoa ip ++ "]"

def hostHeader (uri : Uri) : String :=
  let host := uri.host.getD ""
  if uri.scheme.bind Uri.defaultPort = uri.port then host
  else host ++ ":" ++ (uri.port.map toString).getD ""

def addToken (headers : List (String × String)) (config : Config) : List (String × String) :=
  match config.token with
  | some token => if token = "" then headers else ("x-a2a-notification-token", token) :: headers
  | none => headers

def addBearer (headers : List (String × String)) (config : Config) : List (String × String) :=
  match config.authentication with
  | some (schemes, creds) =>
    if schemes.any fun scheme => scheme.toLower = "bearer" then ("authorization", "Bearer " ++ creds) :: headers
    else headers
  | none => headers

def sign (client : Client) (secret timestamp body : String) : String := client.mac secret (timestamp ++ "." ++ body)

def addSignature (client : Client) (headers : List (String × String)) (body timestamp : String) :
    Option String → List (String × String)
  | none => headers
  | some secret =>
    [("x-a2a-timestamp", timestamp), ("x-a2a-signature", "v1=" ++ sign client secret timestamp body)] ++ headers

def requestTo (client : Client) (pinned : String) (uri : Uri) (config : Config) (body deliveryId : String)
    (opts : Options) (timestamp : String) : Request where
  url := pinned
  body := body
  headers := addSignature client (addBearer (addToken [("content-type", "application/json"), ("host", hostHeader uri),
    ("x-a2a-delivery-id", deliveryId)] config) config) body timestamp opts.signingSecret
  hostname := uri.host.getD ""

def Response.outcome : Response → Sent
  | .status code => if 200 ≤ code ∧ code ≤ 299 then .ok code else .httpError code
  | .exception message => .transportError message

def request (client : Client) (uri : Uri) (ip : Ip) (config : Config) (body deliveryId : String) (opts : Options)
    (surroundings : Surroundings) : Option Request × Sent :=
  match uri.print (ipHost client.toInet ip) with
  | none => (none, .raised)
  | some pinned =>
    (some (requestTo client pinned uri config body deliveryId opts surroundings.timestamp), surroundings.response.outcome)

def policy (opts : Options) (resolver : Resolver) : WebhookPolicy.Options :=
  { allowHttp := opts.allowHttp, allowCidrs := opts.allowCidrs, resolver }

def post (client : Client) (config : Config) (body deliveryId : String) (opts : Options)
    (surroundings : Surroundings) : Option Request × Sent :=
  match admitUrl client.toInet config.url (policy opts surroundings.resolver) with
  | .error refusal => (none, .refused refusal)
  | .ok ⟨uri, ip :: _⟩ => request client uri ip config body deliveryId opts surroundings
  | .ok ⟨_, []⟩ => (none, .raised)

/-- `none` once the delivery is over. -/
def retried (outcome : Sent) (n : Nat) (max : Int) : Bool :=
  match outcome with
  | .ok _ | .refused _ | .raised => false
  | .httpError _ | .transportError _ => ! (n : Int) ≥ max

/-- The attempts from the n-th on, each in its own surroundings. -/
def attempt (client : Client) (config : Config) (body deliveryId : String) (opts : Options)
    (surroundings : Nat → Surroundings) (n : Nat) : List Attempt :=
  let (request, outcome) := post client config body deliveryId opts (surroundings n)
  if retried outcome n opts.maxAttempts then
    ⟨n, request, outcome⟩ :: attempt client config body deliveryId opts surroundings (n + 1)
  else [⟨n, request, outcome⟩]
termination_by (opts.maxAttempts - n).toNat
decreasing_by
  rename_i again
  unfold retried at again
  split at again <;> simp at again <;> omega

def deliveryId (config : Config) (seq : Nat) : String := config.taskId ++ ":" ++ config.id ++ ":" ++ toString seq

/-- The attempts with their numbers, in the order in which they are recorded. -/
def deliver (client : Client) (config : Config) (body : String) (seq : Nat) (opts : Options)
    (surroundings : Nat → Surroundings) : List Attempt :=
  attempt client config body (deliveryId config seq) opts surroundings 1

/-- What `deliver` returns: the last outcome, unless it is a success. -/
def delivered (attempts : List Attempt) : Except Sent Unit :=
  match attempts.getLast? with
  | some ⟨_, _, .ok _⟩ => .ok ()
  | some ⟨_, _, outcome⟩ => .error outcome
  | none => .ok ()

end AshA2A.A2ATransport.PushDelivery
