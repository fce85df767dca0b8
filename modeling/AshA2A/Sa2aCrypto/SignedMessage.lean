import AshA2A.Json

/-! The domain-separated message that a custodian signs, and the strict base64 of the wire. -/

namespace AshA2A.Sa2aCrypto

/-! ## Base64 -/

namespace Base64

/-- The URL-safe alphabet. -/
def alphabet : List Char := "ABCDEFGHIJKLMNOPQRSTUVWXYZabcdefghijklmnopqrstuvwxyz0123456789-_".toList

def sextet (char : Char) : Option Nat := alphabet.idxOf? char

def char (sextet : Nat) : Char := (alphabet[sextet]?).getD 'A'

def join : List Nat → Option Bytes
  | a :: b :: c :: d :: rest => (join rest).map fun bytes =>
    UInt8.ofNat (a * 4 + b / 16) :: UInt8.ofNat (b % 16 * 16 + c / 4) :: UInt8.ofNat (c % 4 * 64 + d) :: bytes
  | [a, b, c] => some [UInt8.ofNat (a * 4 + b / 16), UInt8.ofNat (b % 16 * 16 + c / 4)]
  | [a, b] => some [UInt8.ofNat (a * 4 + b / 16)]
  | [_] => none
  | [] => some []

def cut : List Nat → List Nat
  | a :: b :: c :: rest => a / 4 :: (a % 4 * 16 + b / 16) :: (b % 16 * 4 + c / 64) :: (c % 64) :: cut rest
  | [a, b] => [a / 4, a % 4 * 16 + b / 16, b % 16 * 4]
  | [a] => [a / 4, a % 4 * 16]
  | [] => []

/-- Without padding. -/
def encode (bytes : Bytes) : String := String.ofList ((cut (bytes.map UInt8.toNat)).map char)

def decode (text : String) : Option Bytes := (text.toList.mapM sextet).bind join

end Base64

/-- `Envelope.b64/1`: only the text that encodes the bytes is accepted. -/
def b64 (text : String) : Option Bytes :=
  (Base64.decode text).filter fun bytes => Base64.encode bytes = text

/-! ## Messages -/

namespace SignedMessage

def domain : String := "SA2A-C2-APPROVAL-v1"

/-- The domain and a zero byte. -/
def header : Bytes := domain.toUTF8.toList ++ [0]

def maxInt : Nat := 9007199254740991

def maxDepth : Nat := 8

def maxNodes : Nat := 2048

def maxBytes : Nat := 16384

def fields : List String :=
  ["v", "alg", "kid", "effect_digest", "principal", "policy_epoch", "revocation_epoch", "generation",
    "nonce", "not_before", "expires", "audience"]

def bounds (depth count : Nat) : Except String Unit :=
  if maxDepth < depth then .error "too_deep"
  else if maxNodes < count then .error "oversize"
  else .ok ()

mutual

/-- The number of nodes met so far, or why the value cannot be signed. -/
def walk (depth count : Nat) : Json → Except String Nat
  | .null | .bool _ | .string _ => do
    bounds depth count
    pure (count + 1)
  | .int value => do
    bounds depth count
    if value.natAbs ≤ maxInt then pure (count + 1) else .error "integer_out_of_range"
  | .float _ => do
    bounds depth count
    .error "float_not_allowed"
  | .array items => do
    bounds depth count
    walkItems depth (count + 1) items
  | .object entries => do
    bounds depth count
    walkEntries depth (count + 1) entries

def walkItems (depth count : Nat) : List Json → Except String Nat
  | [] => .ok count
  | item :: items => do
    let count ← walk (depth + 1) count item
    walkItems depth count items

def walkEntries (depth count : Nat) : List (String × Json) → Except String Nat
  | [] => .ok count
  | (_, value) :: entries => do
    let count ← walk (depth + 1) (count + 1) value
    walkEntries depth count entries

end

/-- The keys of a decoded object are strings already, and none is repeated. -/
def normalize (json : Json) : Except String Json :=
  match walk 0 0 json, json with
  | .error code, _ => .error code
  | .ok _, .object entries => .ok (.object entries)
  | .ok _, _ => .error "not_an_object"

def typed (json : Json) : Bool :=
  (["alg", "kid", "effect_digest", "nonce", "audience"].all fun field => (json.string? field).isSome) &&
    (["v", "policy_epoch", "revocation_epoch", "generation", "not_before", "expires"].all fun field =>
      (json.nat? field).isSome) &&
    (match json.get? "principal" with
      | none | some .null => false
      | some _ => true)

def checkFields (json : Json) : Except String Unit :=
  if fields.any fun field => (json.get? field).isNone then .error "missing_field"
  else if json.entries.any fun entry => entry.1 ∉ fields then .error "unknown_field"
  else if typed json then .ok ()
  else .error "bad_field_type"

variable (library : Json.Library)

def encode (json : Json) : Except String Bytes :=
  match library.encode json with
  | none => .error "canonical_unencodable"
  | some bytes => if bytes.length ≤ maxBytes then .ok bytes else .error "oversize"

def build (json : Json) : Except String Bytes := do
  let object ← normalize json
  checkFields object
  let bytes ← encode library object
  pure (header ++ bytes)

def parse (bytes : Bytes) : Except String Json :=
  if bytes.take header.length = header then
    match library.canonical (bytes.drop header.length) with
    | some (.object entries) => .ok (.object entries)
    | _ => .error "malformed_message"
  else .error "bad_domain"

end SignedMessage

end AshA2A.Sa2aCrypto
