import AshA2A.Protocol.AgentCard

/-! The client's cache of agent cards: one file for each URL, with the body that was received, its validators and the time. -/

namespace AshA2A.Protocol.CardCache

/-- What the file of a URL holds. -/
structure Entry where
  body : Bytes
  etag : Option String
  lastModified : Option String
  cacheControl : Option String
  fetchedAt : Int

/-- The directory of the cache: the hash that names a file is taken for the URL. -/
abbrev Files := String → Option Entry

structure Response where
  status : Nat
  body : Bytes
  etag : Option String
  lastModified : Option String
  cacheControl : Option String

/-- The header of a conditional request. -/
inductive Validator where
  | ifNoneMatch (etag : String)
  | ifModifiedSince (lastModified : String)
  deriving DecidableEq

inductive CacheState where
  | fresh | cached | notModified | stale
  deriving Repr, DecidableEq

inductive Refusal where
  | invalidCard
  | unexpectedStatus (status : Nat)
  | transport (reason : String)

inductive Answer where
  | ok (card : AgentCard) (state : CacheState)
  | error (reason : Refusal)
  /-- An exception that `fetch/2` lets through. -/
  | raised

/-- What `decode_body/1` makes of a body. -/
inductive Decoded where
  | card (card : AgentCard)
  | error
  | raised

structure Options where
  agentCardPath : String := "/.well-known/agent-card.json"
  /-- Only an integer that is not negative counts. -/
  maxAge : Option Nat := none
  now : Int

def defaultMaxAgeSeconds : Nat := 300

/-! ## The header -/

/-- `\s` -/
def blank (char : Char) : Bool := char ∈ [' ', '\t', '\n', '\r', Char.ofNat 11, Char.ofNat 12]

def digitsOf (chars : List Char) : Option Nat :=
  let digits := chars.takeWhile Char.isDigit
  if digits = [] then none else some (digits.foldl (fun number digit => number * 10 + (digit.toNat - '0'.toNat)) 0)

/-- `max-age\s*=\s*(\d+)` at the start of the text, whatever the case of its letters. -/
def maxAgeHere (chars : List Char) : Option Nat :=
  if (chars.take 7).map Char.toLower = "max-age".toList then
    match (chars.drop 7).dropWhile blank with
    | '=' :: rest => digitsOf (rest.dropWhile blank)
    | _ => none
  else none

def firstMaxAge : List Char → Option Nat
  | [] => none
  | char :: chars => (maxAgeHere (char :: chars)).orElse fun _ => firstMaxAge chars

def parseMaxAge (cacheControl : Option String) : Option Nat := cacheControl.bind fun text => firstMaxAge text.toList

def maxAge (opts : Options) (cacheControl : Option String) : Nat :=
  opts.maxAge.getD ((parseMaxAge cacheControl).getD defaultMaxAgeSeconds)

def isFresh (entry : Entry) (maxAgeSeconds : Nat) (now : Int) : Bool := now - entry.fetchedAt < maxAgeSeconds * 1000

def conditionalHeaders (entry : Entry) : Option Validator :=
  match entry.etag.filter (· ≠ ""), entry.lastModified.filter (· ≠ "") with
  | some etag, _ => some (.ifNoneMatch etag)
  | none, some lastModified => some (.ifModifiedSince lastModified)
  | none, none => none

section Fetch
variable (library : Json.Library)

def decodeBody (body : Bytes) : Decoded :=
  match library.plain body with
  | none => .error
  | some json =>
    match AgentCard.decodeAgentCard json with
    | .ok card => .card card
    | .error .raised => .raised
    | .error _ => .error

/-- What can be put into a JSON text; `Jason.encode!/1` raises on all else. -/
def isText (body : Bytes) : Bool := (String.fromUTF8? ⟨body.toArray⟩).isSome

def write (files : Files) (url : String) (entry : Entry) : Files := Function.update files url (some entry)

/-- None where it raises. -/
def storeResponse (files : Files) (url : String) (response : Response) (now : Int) : Option Files :=
  if isText response.body then
    some (write files url ⟨response.body, response.etag, response.lastModified, response.cacheControl, now⟩)
  else none

/-- The answer of a network path for a decoded body. -/
def answerOf (state : CacheState) : Decoded → Answer
  | .card card => .ok card state
  | .error => .error .invalidCard
  | .raised => .raised

def storeFresh (files : Files) (url : String) (response : Response) (now : Int) : Files × Answer :=
  match storeResponse files url response now with
  | some files => (files, answerOf .fresh (decodeBody library response.body))
  | none => (files, .raised)

/-- The request of a validator at a URL and a path. -/
abbrev Get := Option Validator → Except String Response

def coldFetch (get : Get) (files : Files) (url : String) (now : Int) : Files × Answer :=
  match get none with
  | .ok response =>
    if response.status = 200 then storeFresh library files url response now
    else (files, .error (.unexpectedStatus response.status))
  | .error reason => (files, .error (.transport reason))

def staleOrError (entry : Entry) : Answer := answerOf .stale (decodeBody library entry.body)

def revalidate (get : Get) (files : Files) (url : String) (entry : Entry) (now : Int) : Files × Answer :=
  match get (conditionalHeaders entry) with
  | .ok response =>
    if response.status = 304 then
      (write files url { entry with fetchedAt := now, cacheControl := response.cacheControl.or entry.cacheControl },
        answerOf .notModified (decodeBody library entry.body))
    else if response.status = 200 then storeFresh library files url response now
    else (files, staleOrError library entry)
  | .error _ => (files, staleOrError library entry)

def fetch (get : Get) (files : Files) (url : String) (opts : Options) : Files × Answer :=
  match files url with
  | some entry =>
    if isFresh entry (maxAge opts entry.cacheControl) opts.now then
      match decodeBody library entry.body with
      | .card card => (files, .ok card .cached)
      | .error => revalidate library get files url entry opts.now
      | .raised => (files, .raised)
    else revalidate library get files url entry opts.now
  | none => coldFetch library get files url opts.now

end Fetch

end AshA2A.Protocol.CardCache
