import AshA2A.Json.Reading
import AshA2A.Value

/-! The description of a proposed effect, and the digest over its canonical text. -/

namespace AshA2A.C2.PreparedEffect

inductive Refusal where
  | canonicalTypeForbidden
  | canonicalKeyTypeForbidden
  | canonicalDepthExceeded
  | canonicalKeyCollision
  | canonicalUnencodable
  deriving Repr, DecidableEq

inductive Fault where
  | refused (refusal : Refusal)
  | raised
  deriving Repr, DecidableEq

/-- What the code is given. `enumerated` are the members that a struct yields where its type can be
enumerated, those of one key side by side; most structs raise. `chars` is `to_string/1` of what is
neither an atom nor a binary. -/
structure Host where
  enumerated : String → List (String × Value) → Except Fault (List (String × Json))
  chars : Value → Option Bytes
  encode : Json → Option Bytes
  sha256 : Bytes → Bytes

structure Effect where
  version : Int := 1
  principal : Value
  capability : Value
  subject : Value
  payload : Value
  digest : String

/-- A binary need not be text: the characters of a string in the canonical form are its bytes. -/
def text (bytes : Bytes) : String := .ofList (bytes.map fun byte => Char.ofNat byte.toNat)

/-- `to_string/1` of an atom. -/
def atomText (name : String) : String := text (if name = "nil" then [] else utf8 name)

/-- `to_string(key)` of the keys that are allowed. -/
def keyText : Value → Option String
  | .atom name => some (atomText name)
  | .binary bytes => some (text bytes)
  | _ => none

/-- `Map.put/3`. -/
def put (map : List (String × Json)) (key : String) (value : Json) : List (String × Json) :=
  map.filter (fun entry => entry.1 ≠ key) ++ [(key, value)]

variable (host : Host)

def toString : Value → Except Fault String
  | .atom name => .ok (atomText name)
  | .binary bytes => .ok (text bytes)
  | value =>
    match host.chars value with
    | some bytes => .ok (text bytes)
    | none => .error .raised

mutual

def portable : Value → Except Fault Json
  | .atom name =>
    .ok (if name = "nil" then .null
      else if name = "true" then .bool true
      else if name = "false" then .bool false
      else .string (text (utf8 name)))
  | .integer value => .ok (.int value)
  | .float value => .ok (.float value)
  | .binary bytes => .ok (.string (text bytes))
  | .list items => (portableItems items).map .array
  -- the walk halts at the first refusal, and raises where it meets the tail
  | .improper items _ => do
    let _ ← portableItems items
    .error .raised
  | .map entries => (portableEntries [] entries).map .object
  | .struct module fields => do
    let pairs ← host.enumerated module fields
    .ok (Json.object pairs).lastWins
  | .closed _ | .tuple _ => .error (.refused .canonicalTypeForbidden)

def portableItems : List Value → Except Fault (List Json)
  | [] => .ok []
  | item :: items => do
    let first ← portable item
    let rest ← portableItems items
    .ok (first :: rest)

def portableEntries (map : List (String × Json)) : List (Value × Value) → Except Fault (List (String × Json))
  | [] => .ok map
  | (key, value) :: entries =>
    match keyText key with
    | none => .error (.refused .canonicalKeyTypeForbidden)
    | some name => do
      let value ← portable value
      portableEntries (put map name value) entries

end

/-! ## Canonical text -/

def maxDepth : Nat := 64

mutual

/-- `Encodable.validate/2` of a portable value: its floats are finite and its keys are binaries. -/
def validate (depth : Nat) : Json → Except Refusal Unit
  | .array items =>
    if maxDepth < depth then .error .canonicalDepthExceeded else validateItems (depth + 1) items
  | .object entries =>
    if maxDepth < depth then .error .canonicalDepthExceeded
    else if ¬ (entries.map Prod.fst).Nodup then .error .canonicalKeyCollision
    else validateValues (depth + 1) entries
  | _ => if maxDepth < depth then .error .canonicalDepthExceeded else .ok ()

def validateItems (depth : Nat) : List Json → Except Refusal Unit
  | [] => .ok ()
  | item :: items => do
    validate depth item
    validateItems depth items

def validateValues (depth : Nat) : List (String × Json) → Except Refusal Unit
  | [] => .ok ()
  | (_, value) :: entries => do
    validate depth value
    validateValues depth entries

end

/-- `Map.new/1` of an object keeps the last entry of a key. -/
def normalize (json : Json) : Except Refusal Json := do
  validate 0 json
  .ok json.lastWins

def encode (json : Json) : Except Refusal Bytes := do
  validate 0 json
  let normalized ← normalize json
  match host.encode normalized with
  | some bytes => .ok bytes
  | none => .error .canonicalUnencodable

def digest (json : Json) : Except Refusal String := do
  let bytes ← encode host json
  .ok ("sha256:" ++ Base16.encode (host.sha256 bytes))

/-! ## Effects -/

def canonical (principal capability : String) (subject payload : Json) : Json :=
  .object [("version", .int 1), ("principal", .string principal), ("capability", .string capability),
    ("subject", subject), ("payload", payload)]

/-- The map that the digest is taken of. -/
def canonicalForm (principal capability subject payload : Value) : Except Fault Json := do
  let portableSubject ← portable host subject
  let portablePayload ← portable host payload
  let principal ← toString host principal
  let capability ← toString host capability
  .ok (canonical principal capability portableSubject portablePayload)

def build (principal capability subject payload : Value) : Except Fault Effect := do
  let form ← canonicalForm host principal capability subject payload
  let digest ← (digest host form).mapError .refused
  .ok { principal, capability, subject, payload, digest }

end AshA2A.C2.PreparedEffect
