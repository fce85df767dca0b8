import Mathlib.Data.Rat.Defs

/-! JSON values as the decoders hand them over, and the two readings of an object that
repeats a key. -/

namespace AshA2A

abbrev Bytes := List UInt8

/-- The entries of an object in the order of the text. A float is a number of its own, even
where its value is an integer. -/
inductive Json where
  | null
  | bool (value : Bool)
  | int (value : Int)
  | float (value : Rat)
  | string (text : String)
  | array (items : List Json)
  | object (entries : List (String × Json))
  deriving Repr

namespace Json

/-- The decoder and the canonical encoder are libraries. The decoder keeps every entry; the
encoder raises on what it cannot encode. -/
structure Library where
  decode : Bytes → Option Json
  encode : Json → Option Bytes

def entries : Json → List (String × Json)
  | .object entries => entries
  | _ => []

/-- `map[key]` after decoding: the last entry of the key counts. -/
def get? (json : Json) (key : String) : Option Json := json.entries.reverse.lookup key

def int? (json : Json) (key : String) : Option Int :=
  match json.get? key with
  | some (.int value) => some value
  | _ => none

def nat? (json : Json) (key : String) : Option Nat :=
  match json.get? key with
  | some (.int (.ofNat value)) => some value
  | _ => none

def string? (json : Json) (key : String) : Option String :=
  match json.get? key with
  | some (.string text) => some text
  | _ => none

/-- A number, whichever way it is written. -/
def number? (json : Json) (key : String) : Option Rat :=
  match json.get? key with
  | some (.int value) => some value
  | some (.float value) => some value
  | _ => none

/-- `Map.delete(map, key)`. -/
def without (json : Json) (key : String) : Json := .object (json.entries.filter fun entry => entry.1 ≠ key)

/-- `Enum.sort(Map.keys(map)) == Enum.sort(keys)`. -/
def hasKeys (json : Json) (keys : List String) : Bool :=
  keys.all (fun key => (json.get? key).isSome) && json.entries.all fun entry => entry.1 ∈ keys

mutual

/-- No object at any depth repeats a key. -/
def distinct : Json → Bool
  | .array items => distinctItems items
  | .object entries => distinctEntries entries
  | _ => true

def distinctItems : List Json → Bool
  | [] => true
  | item :: items => item.distinct && distinctItems items

def distinctEntries : List (String × Json) → Bool
  | [] => true
  | (key, value) :: entries =>
    entries.all (fun entry => entry.1 ≠ key) && value.distinct && distinctEntries entries

end

mutual

/-- A plain map in place of each object: the last entry of a key is kept. -/
def lastWins : Json → Json
  | .array items => .array (lastWinsItems items)
  | .object entries => .object (lastWinsEntries entries)
  | json => json

def lastWinsItems : List Json → List Json
  | [] => []
  | item :: items => item.lastWins :: lastWinsItems items

def lastWinsEntries : List (String × Json) → List (String × Json)
  | [] => []
  | (key, value) :: entries =>
    if entries.any fun entry => entry.1 = key then lastWinsEntries entries
    else (key, value.lastWins) :: lastWinsEntries entries

end

mutual

/-- One value for all that compare as equal: keys in order, and an integer for a float that
is one. -/
def norm : Json → Json
  | .float value => if value.den = 1 then .int value.num else .float value
  | .array items => .array (normItems items)
  | .object entries => .object ((normEntries entries).mergeSort fun left right => left.1 ≤ right.1)
  | json => json

def normItems : List Json → List Json
  | [] => []
  | item :: items => item.norm :: normItems items

def normEntries : List (String × Json) → List (String × Json)
  | [] => []
  | (key, value) :: entries => (key, value.norm) :: normEntries entries

end

/-- `==` of decoded values. -/
def Same (first second : Json) : Prop := first.norm = second.norm

/-- `Jason.decode/1`. -/
def Library.plain (library : Library) (bytes : Bytes) : Option Json := (library.decode bytes).map lastWins

/-- `StrictJson.decode`: a repeated key is refused. -/
def Library.strict (library : Library) (bytes : Bytes) : Option Json :=
  (library.decode bytes).filter distinct

/-- `Sa2aCrypto.StrictJson.decode` as it is by default: only the canonical text is accepted. -/
def Library.canonical (library : Library) (bytes : Bytes) : Option Json :=
  (library.strict bytes).filter fun json => library.encode json = some bytes

end Json

end AshA2A
