import AshA2A.Passport.Encoding
import Mathlib.Data.List.Sort
import Mathlib.Data.String.Basic

/-! Terms of any shape, as the language compares them and looks into them. -/

namespace AshA2A

/-- A map and a struct have their entries in the order in which the runtime keeps the keys: equal maps
are one list. `closed` is a process, a reference, a function or a bitstring that is no binary. -/
inductive Value where
  | atom (name : String)
  | integer (value : Int)
  | float (value : Rat)
  | binary (bytes : Bytes)
  | closed (identity : Nat)
  | list (items : List Value)
  | improper (items : List Value) (tail : Value)
  | tuple (elements : List Value)
  | map (entries : List (Value × Value))
  | struct (module : String) (fields : List (String × Value))
  deriving Repr

namespace Value

abbrev nil : Value := .atom "nil"

def text (text : String) : Value := .binary (utf8 text)

/-- A map with atoms for keys, which the runtime keeps in the order of their names. -/
def record (entries : List (String × Value)) : Value :=
  .map ((entries.insertionSort fun left right => left.1 ≤ right.1).map fun entry => (.atom entry.1, entry.2))

/-- `is_map/1`: a struct is one. -/
def isMap : Value → Bool
  | .map _ | .struct _ _ => true
  | _ => false

def isBinary : Value → Bool
  | .binary _ => true
  | _ => false

/-- `nil` and `false`, for `||`. -/
def falsy : Value → Bool
  | .atom name => name = "nil" ∨ name = "false"
  | _ => false

def hasKey (name : String) (entry : Value × Value) : Bool :=
  match entry.1 with
  | .atom own => own = name
  | _ => false

/-- `Map.fetch(map, :name)`. -/
def member (map : Value) (name : String) : Option Value :=
  match map with
  | .map entries => (entries.find? (hasKey name)).map Prod.snd
  | .struct _ fields => fields.lookup name
  | _ => none

/-- `Map.get(map, :name)`. -/
def get (map : Value) (name : String) : Value := (map.member name).getD nil

/-- `Map.get(map, "name")`. -/
def textGet (map : Value) (name : String) : Value :=
  match map with
  | .map entries =>
    ((entries.find? fun entry => match entry.1 with
      | .binary bytes => bytes = utf8 name
      | _ => false).map Prod.snd).getD nil
  | _ => nil

mutual

/-- `===`, or `==`: there a number is equal to one of the other kind. The keys of maps are always
compared exactly. -/
def equal (exact : Bool) : Value → Value → Bool
  | .atom name, .atom other => name = other
  | .integer value, .integer other => value = other
  | .float value, .float other => value = other
  | .integer value, .float other => ! exact && (value : Rat) = other
  | .float value, .integer other => ! exact && value = (other : Rat)
  | .binary bytes, .binary others => bytes = others
  | .closed identity, .closed other => identity = other
  | .list items, .list others => equalItems exact items others
  | .improper items tail, .improper others rest => equalItems exact items others && equal exact tail rest
  | .tuple items, .tuple others => equalItems exact items others
  | .map entries, .map others => equalEntries exact entries others
  | .struct module fields, .struct other others => module = other && equalFields exact fields others
  | _, _ => false
termination_by structural value => value

def equalItems (exact : Bool) : List Value → List Value → Bool
  | [], [] => true
  | item :: items, other :: others => equal exact item other && equalItems exact items others
  | _, _ => false

def equalEntries (exact : Bool) : List (Value × Value) → List (Value × Value) → Bool
  | [], [] => true
  | (key, value) :: entries, (key', value') :: others =>
    equal true key key' && equal exact value value' && equalEntries exact entries others
  | _, _ => false

def equalFields (exact : Bool) : List (String × Value) → List (String × Value) → Bool
  | [], [] => true
  | (name, value) :: fields, (name', value') :: others =>
    name = name' && equal exact value value' && equalFields exact fields others
  | _, _ => false

end

end Value

end AshA2A
