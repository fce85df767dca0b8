import AshA2A.Json.Canonical
import AshA2A.Sa2aCrypto.KeyRef
import Mathlib.Data.List.Lex
import Mathlib.Data.List.Sort
import Mathlib.Data.Nat.Basic

/-! The registry of keys: one canonical document in a file, loaded under the hash that the
caller pins, and replaced as a whole by each mutation. -/

namespace AshA2A.Sa2aCrypto

def KeyState.all : List KeyState := [.preActivation, .active, .suspended, .deactivated, .compromised, .destroyed]

def KeyState.ofName (text : String) : Option KeyState := all.find? fun state => state.name = text

def Tier.name : Tier → String
  | .i1 => "i1"
  | .i2 => "i2"
  | .i3 => "i3"
  | .i4 => "i4"

def Tier.all : List Tier := [.i1, .i2, .i3, .i4]

def Tier.ofName (text : String) : Option Tier := all.find? fun tier => tier.name = text

namespace Registry

/-- An error that is returned, or an exception. -/
inductive Failure where
  | error (reason : String)
  | raised
  deriving Repr, DecidableEq

/-- What is there, or the failure. -/
def expect {ε α : Type} (failure : ε) : Option α → Except ε α
  | some value => .ok value
  | none => .error failure

def ensure {ε : Type} (failure : ε) (holds : Bool) : Except ε Unit := if holds then .ok () else .error failure

def refusing {α : Type} : Except String α → Except Failure α := Except.mapError .error

/-! ## States -/

namespace Lifecycle

def table : KeyState → List KeyState
  | .preActivation => [.active, .compromised, .destroyed]
  | .active => [.suspended, .deactivated, .compromised]
  | .suspended => [.active, .deactivated, .compromised]
  | .deactivated => [.compromised, .destroyed]
  | .compromised => [.destroyed]
  | .destroyed => []

def allowed (source target : KeyState) : Bool := target ∈ table source

/-- A state of another name has no transitions. -/
def check (source : Option KeyState) (target : KeyState) : Except Failure Unit :=
  ensure (.error "illegal_transition") (source.any fun source => allowed source target)

end Lifecycle

/-! ## Documents -/

structure Host where
  library : Json.Library
  sha256 : Bytes → Bytes

/-- The document apart from its version. -/
structure Doc where
  epoch : Nat
  keys : List Json

namespace Doc

def json (doc : Doc) : Json := .object [("v", .int 1), ("epoch", .int doc.epoch), ("keys", .array doc.keys)]

def empty : Doc := ⟨0, []⟩

end Doc

/-- What a stored key says. -/
structure Entry where
  record : KeyRecord
  activatedAt : Option Int
  attestation : Json

structure View where
  root : String
  epoch : Nat
  entry : String → Option Entry

def fields : List String :=
  ["kid", "custodian_id", "custody_tier", "alg", "spki_der", "state", "activated_at", "not_after",
    "revocation_epoch", "attestation"]

def b64 (text : String) : Option Bytes := (Base64Url.decode text).filter fun bytes => Base64.encode bytes = text

def intOrNil : Json → Option (Option Int)
  | .null => some none
  | .int value => some (some value)
  | _ => none

def corrupt : String := "registry_corrupt"

/-- The order of binaries. -/
def rank (kid : String) : List Nat := (utf8 kid).map UInt8.toNat

section Reading

variable (host : Host)

def rootOf (bytes : Bytes) : String := Base16.encode (host.sha256 bytes)

/-- The encoder raises on what it cannot encode. -/
def root (doc : Doc) : Except Failure String := (expect .raised (host.library.encode doc.json)).map (rootOf host)

def readDoc (bytes : Bytes) : Option Doc := do
  let json ← host.library.strict bytes
  match json.hasKeys ["v", "epoch", "keys"], json.get? "v", json.nat? "epoch", json.get? "keys" with
  | true, some (.int 1), some epoch, some (.array keys) => some ⟨epoch, keys⟩
  | _, _, _, _ => none

def decodeKey (epoch : Nat) (key : Json) : Except String Entry := do
  ensure corrupt (key.hasKeys fields)
  let kid ← expect corrupt (key.string? "kid")
  let custodianId ← expect corrupt (key.string? "custodian_id")
  let custodyTier ← expect corrupt ((key.string? "custody_tier").bind Tier.ofName)
  let state ← expect corrupt ((key.string? "state").bind KeyState.ofName)
  let alg ← expect corrupt ((key.string? "alg").filter fun alg => (Suite.profileOf alg).isSome)
  let der ← expect corrupt ((key.string? "spki_der").bind b64)
  let publicKey ← expect "bad_key" (Spki.decode alg der)
  let identity ← expect corrupt (KeyRef.kid host.sha256 alg publicKey)
  ensure "kid_key_mismatch" (identity = kid)
  let notAfter ← expect corrupt ((key.get? "not_after").bind intOrNil)
  let activatedAt ← expect corrupt ((key.get? "activated_at").bind intOrNil)
  let revocationEpoch ← expect corrupt ((key.nat? "revocation_epoch").filter (· ≤ epoch))
  return {
    record := { kid, alg, publicKey, custodianId, custodyTier, state, revocationEpoch, notAfter }
    activatedAt
    attestation := (key.get? "attestation").getD .null }

/-- The keys are in order and none stands twice. A key without a textual name is corrupt in
any order. -/
def decodeEntries (doc : Doc) : Except String (List Entry) :=
  match doc.keys.mapM (·.string? "kid") with
  | none => .error corrupt
  | some kids =>
    if kids.Pairwise (fun first second => rank first ≤ rank second) ∧ kids.Nodup then
      doc.keys.mapM (decodeKey host doc.epoch)
    else .error corrupt

def readFile (readable : Bool) (file : Option Bytes) : Except Failure Doc :=
  match readable, file with
  | true, some bytes => expect (.error corrupt) (readDoc host bytes)
  | true, none => .error (.error "registry_missing")
  | false, _ => .error (.error corrupt)

def load (file : Option Bytes) (pin : String) : Except Failure View := do
  let doc ← readFile host true file
  let root ← root host doc
  ensure (.error "registry_root_mismatch") (root = pin)
  let entries ← refusing (decodeEntries host doc)
  return ⟨root, doc.epoch, fun kid => entries.find? fun entry => entry.record.kid = kid⟩

end Reading

/-! ## Mutations -/

/-- A record as the caller hands it over; a tier or a state may be none of the known ones. -/
structure Candidate where
  kid : String
  alg : String
  publicKey : PublicKey
  custodianId : Json
  custodyTier : Option Tier
  state : Option KeyState
  notAfter : Json := .null

/-- A map has each key once. -/
abbrev Attestation := { json : Json // json.distinct }

structure Options where
  pin : Option String := none
  activatedAt : Json := .null
  attestation : Attestation := ⟨.null, rfl⟩
  now : Json := .null
  overlap : Json := .int 0
  epoch : Option Json := none

/-- `value || other`. -/
def orElse (value other : Json) : Json :=
  match value with
  | .null | .bool false => other
  | value => value

def now (opts : Options) (clock : Int) : Json := orElse opts.now (.int clock)

def plus : Json → Json → Option Json
  | .int first, .int second => some (.int (first + second))
  | .int first, .float second => some (.float (first + second))
  | .float first, .int second => some (.float (first + second))
  | .float first, .float second => some (.float (first + second))
  | _, _ => none

/-- The cap, or an integer that is stored and no later. -/
def earlier (stored cap : Json) : Json :=
  match stored, cap with
  | .int stored, .int cap => .int (min stored cap)
  | .int stored, .float cap => if (stored : Rat) ≤ cap then .int stored else .float cap
  | _, cap => cap

/-- `item[field]`. -/
def access (item : Json) (field : String) : Except Failure Json :=
  match item with
  | .object _ => .ok ((item.get? field).getD .null)
  | .null => .ok .null
  | _ => .error .raised

def isText (text : String) : Json → Bool
  | .string given => given = text
  | _ => false

/-- The first item of that name. -/
def findKey (kid : String) : List Json → Except Failure (Option Json)
  | [] => .ok none
  | item :: items => do
    let name ← access item "kid"
    if isText kid name then .ok (some item) else findKey kid items

/-- The items of all other names. -/
def others (kid : String) : List Json → Except Failure (List Json)
  | [] => .ok []
  | item :: items => do
    let name ← access item "kid"
    let kept ← others kid items
    return if isText kid name then kept else item :: kept

def absent (doc : Doc) (kid : String) : Except Failure Unit := do
  let found ← findKey kid doc.keys
  ensure (.error "duplicate_kid") found.isNone

def fetchKey (doc : Doc) (kid : String) : Except Failure Json := do
  expect (.error "unknown_kid") (← findKey kid doc.keys)

def kidOf (key : Json) : String := (key.string? "kid").getD ""

def putKey (doc : Doc) (key : Json) : Except Failure Doc := do
  let kept ← others (kidOf key) doc.keys
  return { doc with keys := (kept ++ [key]).insertionSort fun first second => rank (kidOf first) ≤ rank (kidOf second) }

/-- `%{key | field => value}`. -/
def replace (key : Json) (field : String) (value : Json) : Except Failure Json := do
  ensure .raised (key.get? field).isSome
  return key.put field value

/-- `Map.put_new_lazy/3`. -/
def putNew (key : Json) (field : String) (value : Json) : Json :=
  if (key.get? field).isSome then key else .object (key.entries ++ [(field, value)])

def stateOf (key : Json) : Except Failure (Option KeyState) := do
  let name ← expect .raised (key.string? "state")
  return KeyState.ofName name

section Mutations

variable (host : Host)

def checkRecord (candidate : Candidate) : Except Failure Tier := do
  let tier ← expect (.error "bad_tier") candidate.custodyTier
  ensure (.error "unsupported_algorithm") (Suite.profileOf candidate.alg).isSome
  ensure (.error "kid_key_mismatch") (KeyRef.kid host.sha256 candidate.alg candidate.publicKey = some candidate.kid)
  return tier

def enrollable : Option KeyState → Except Failure KeyState
  | some .preActivation => .ok .preActivation
  | some .active => .ok .active
  | _ => .error (.error "illegal_transition")

def activation (state : KeyState) (opts : Options) (clock : Int) : Json :=
  orElse opts.activatedAt (if state = .active then now opts clock else .null)

def encodeRecord (candidate : Candidate) (tier : Tier) (state : KeyState) (epoch : Nat) (opts : Options) (clock : Int) :
    Except Failure Json := do
  let spki ← expect .raised (KeyRef.spki candidate.alg candidate.publicKey)
  return .object
    [("kid", .string candidate.kid), ("custodian_id", candidate.custodianId), ("custody_tier", .string tier.name),
      ("alg", .string candidate.alg), ("spki_der", .string (Base64.encode spki)), ("state", .string state.name),
      ("activated_at", activation state opts clock), ("not_after", candidate.notAfter),
      ("revocation_epoch", .int epoch), ("attestation", opts.attestation.val)]

def enroll (candidate : Candidate) (opts : Options) (clock : Int) (doc : Doc) : Except Failure Doc := do
  let tier ← checkRecord host candidate
  absent doc candidate.kid
  let state ← enrollable candidate.state
  let key ← encodeRecord candidate tier state doc.epoch opts clock
  putKey doc key

def transition (kid : String) (target : KeyState) (opts : Options) (clock : Int) (doc : Doc) : Except Failure Doc := do
  let key ← fetchKey doc kid
  let state ← stateOf key
  Lifecycle.check state target
  let key ← replace key "state" (.string target.name)
  putKey doc (if target = .active then putNew key "activated_at" (now opts clock) else key)

/-- An epoch that is given has to be a later one. -/
def nextEpoch (opts : Options) (epoch : Nat) : Except Failure Nat :=
  match opts.epoch with
  | none => .ok (epoch + 1)
  | some (.int (.ofNat next)) => if epoch < next then .ok next else .error (.error "epoch_not_monotonic")
  | some _ => .error (.error "epoch_not_monotonic")

def revoke (kid : String) (opts : Options) (doc : Doc) : Except Failure Doc := do
  let next ← nextEpoch opts doc.epoch
  let key ← fetchKey doc kid
  let state ← stateOf key
  Lifecycle.check state .compromised
  let key ← replace key "state" (.string KeyState.compromised.name)
  let key ← replace key "revocation_epoch" (.int next)
  let doc ← putKey doc key
  return { doc with epoch := next }

def rotation (candidate : Candidate) (opts : Options) : Bool :=
  candidate.state = some .active &&
    match opts.overlap with
    | .int overlap => 0 ≤ overlap
    | _ => false

def rotate (oldKid : String) (candidate : Candidate) (opts : Options) (clock : Int) (doc : Doc) : Except Failure Doc := do
  let cap ← expect .raised (plus (now opts clock) opts.overlap)
  let tier ← checkRecord host candidate
  ensure (.error "bad_rotation") (rotation candidate opts)
  absent doc candidate.kid
  let old ← fetchKey doc oldKid
  ensure (.error "old_key_not_active") (old.string? "state" = some KeyState.active.name)
  let old ← replace old "not_after" (earlier ((old.get? "not_after").getD .null) cap)
  let doc ← putKey doc old
  let key ← encodeRecord candidate tier .active doc.epoch opts clock
  putKey doc key

/-- The document that takes the place of the file, and its root. -/
def revise (pin : Option String) (edit : Doc → Except Failure Doc) (readable : Bool) (file : Option Bytes) :
    Except Failure (Bytes × String) := do
  let pin ← expect (.error "pin_required") pin
  let doc ← readFile host readable file
  let root ← root host doc
  ensure (.error "registry_root_mismatch") (root = pin)
  let doc ← edit doc
  let _ ← refusing (decodeEntries host doc)
  let bytes ← expect .raised (host.library.encode doc.json)
  return (bytes, rootOf host bytes)

def create (file : Option Bytes) : Except Failure (Bytes × String) := do
  ensure (.error "registry_exists") file.isNone
  let bytes ← expect .raised (host.library.encode Doc.empty.json)
  return (bytes, rootOf host bytes)

/-! ## Calls -/

inductive Op where
  | create
  | enroll (candidate : Candidate) (opts : Options)
  /-- Without a target: the atom is none of the states. -/
  | transition (kid : String) (target : Option KeyState) (opts : Options)
  | revoke (kid : String) (opts : Options)
  | rotate (oldKid : String) (candidate : Candidate) (opts : Options)

/-- The steps of the write are all done, or one fails before the temporary file takes the
place of the registry, or the system stops at one of them. -/
inductive Writing where
  | done
  | failed (reason : String)
  | stopped (renamed : Bool)

/-- What a call meets. -/
structure Chance where
  clock : Int
  readable : Bool := true
  writing : Writing := .done

inductive Outcome where
  | ok (root : String)
  | error (reason : String)
  | raised
  | crashed
  deriving Repr, DecidableEq

structure Call where
  op : Op
  chance : Chance

/-- What the call would write. -/
def Call.draft (call : Call) (file : Option Bytes) : Except Failure (Bytes × String) :=
  match call.op with
  | .create => create host file
  | .enroll candidate opts => revise host opts.pin (enroll host candidate opts call.chance.clock) call.chance.readable file
  | .transition _ none _ => .error (.error "unknown_state")
  | .transition kid (some target) opts =>
    revise host opts.pin (transition kid target opts call.chance.clock) call.chance.readable file
  | .revoke kid opts => revise host opts.pin (revoke kid opts) call.chance.readable file
  | .rotate oldKid candidate opts =>
    revise host opts.pin (rotate host oldKid candidate opts call.chance.clock) call.chance.readable file

def Call.step (call : Call) (file : Option Bytes) : Outcome × Option Bytes :=
  match call.chance.writing, call.draft host file with
  | .stopped false, _ => (.crashed, file)
  | _, .error (.error reason) => (.error reason, file)
  | _, .error .raised => (.raised, file)
  | .done, .ok (bytes, root) => (.ok root, some bytes)
  | .failed reason, .ok _ => (.error reason, file)
  | .stopped true, .ok (bytes, _) => (.crashed, some bytes)

/-- The file after the calls. -/
def run (calls : List Call) : Option Bytes := calls.foldl (fun file call => (call.step host file).2) none

end Mutations

end Registry

end AshA2A.Sa2aCrypto
