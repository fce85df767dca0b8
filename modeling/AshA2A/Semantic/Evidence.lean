import AshA2A.Json

/-! Terms a caller presents as evidence, and the scan for sources that standing is never inferred from. -/

namespace AshA2A.Semantic

/-- A term of any shape. `bytes` is a binary that is no text; `other` stands for floats, processes,
references and functions, which only `inspect` looks into. -/
inductive Evidence where
  | atom (name : String)
  | integer (value : Int)
  | text (value : String)
  | bytes (value : Bytes)
  | other (shown : String)
  | list (items : List Evidence)
  | improper (items : List Evidence) (tail : Evidence)
  | tuple (elements : List Evidence)
  | map (entries : List (Evidence × Evidence))
  | struct (module : String) (fields : List (String × Evidence))
  deriving Repr

namespace Evidence

abbrev nil : Evidence := .atom "nil"

/-- A map with names for keys. -/
def record (entries : List (String × Evidence)) : Evidence := .map (entries.map fun entry => (.atom entry.1, entry.2))

/-- `is_map/1`: a struct is one. -/
def isMap : Evidence → Bool
  | .map _ | .struct _ _ => true
  | _ => false

def isAtom (key : Evidence) (name : String) : Bool :=
  match key with
  | .atom own => own = name
  | _ => false

def isText (key : Evidence) (name : String) : Bool :=
  match key with
  | .text own => own = name
  | _ => false

/-- `Map.get(map, :name)`. -/
def member (map : Evidence) (name : String) : Option Evidence :=
  match map with
  | .map entries => (entries.find? fun entry => entry.1.isAtom name).map Prod.snd
  | .struct _ fields => fields.lookup name
  | _ => none

/-- `Map.get(map, "name")`. -/
def textMember (map : Evidence) (name : String) : Option Evidence :=
  match map with
  | .map entries => (entries.find? fun entry => entry.1.isText name).map Prod.snd
  | _ => none

/-- The name as an atom before the name as a text; `nil` where the map has neither. -/
def get (map : Evidence) (name : String) : Evidence := ((map.member name).orElse fun _ => map.textMember name).getD .nil

end Evidence

/-- How terms are printed: the language's `inspect/1`, the same without a limit on the length, and its
`to_string/1` for what is neither an atom nor a number nor a binary, where that does not raise. -/
structure Printing where
  inspect : Evidence → String
  inspectAll : Evidence → String
  toText : Evidence → Option String

namespace Standing

def maxEvidenceDepth : Nat := 64

def forbiddenInferenceKeys : List String :=
  ["llm_output", "confidence", "plan_exists", "derivation_exists", "hook_fired", "inherited_standing",
    "previous_standing", "named_receipt", "http_status", "no_error", "asserted_by"]

/-- `String.downcase/1`, then every character but the letters `a` to `z` and the digits dropped. The
Kelvin sign and the dotted capital I are the only other characters whose lower case has such a letter. -/
def normalizedName (name : String) : String :=
  .ofList <| name.toList.filterMap fun char =>
    if 'A' ≤ char ∧ char ≤ 'Z' then some char.toLower
    else if ('a' ≤ char ∧ char ≤ 'z') ∨ ('0' ≤ char ∧ char ≤ '9') then some char
    else if char = '\u212a' then some 'k'
    else if char = '\u0130' then some 'i'
    else none

def forbiddenInferenceNames : List String := forbiddenInferenceKeys.map normalizedName

def forbidden (name : String) : Bool := normalizedName name ∈ forbiddenInferenceNames

inductive Mark where
  | name (name : String)
  | index (index : Nat)
  deriving Repr, DecidableEq

inductive ScanFault where
  | raised
  | tooDeep
  deriving Repr, DecidableEq

variable (printing : Printing)

/-- What a key is compared by. The comparison raises on a binary that is no text. -/
def keyName : Evidence → Except ScanFault String
  | .atom name | .text name => .ok name
  | .bytes _ => .error .raised
  | key => .ok (printing.inspect key)

/-- `is_atom(key) or is_binary(key)`. -/
def isName : Evidence → Bool
  | .atom _ | .text _ | .bytes _ => true
  | _ => false

mutual

/-- The paths of the forbidden names, in the order in which they are found. A pair with a name in
front is read as an entry of a map, wherever it stands. -/
def scan (path : List Mark) (depth : Nat) (evidence : Evidence) : Except ScanFault (List (List Mark)) :=
  if maxEvidenceDepth < depth then .error .tooDeep
  else
    match evidence with
    | .struct _ fields => scanFields path depth fields
    | .map entries => scanEntries path depth entries
    | .list items => scanItems path depth 0 items
    -- The items are numbered before the first of them is scanned.
    | .improper _ _ => .error .raised
    | .tuple [key, value] =>
      if isName key then do
        let name ← keyName printing key
        let here := path ++ [.name name]
        return (if forbidden name then [here] else []) ++ (← scan here (depth + 1) value)
      else scanItems path depth 0 [key, value]
    | .tuple elements => scanItems path depth 0 elements
    | _ => .ok []

def scanItems (path : List Mark) (depth index : Nat) : List Evidence → Except ScanFault (List (List Mark))
  | [] => .ok []
  | item :: items => do
    let found ← scan (path ++ [.index index]) (depth + 1) item
    return found ++ (← scanItems path depth (index + 1) items)

def scanEntries (path : List Mark) (depth : Nat) :
    List (Evidence × Evidence) → Except ScanFault (List (List Mark))
  | [] => .ok []
  | (key, value) :: entries => do
    let name ← keyName printing key
    let here := path ++ [.name name]
    let found ← scan here (depth + 1) value
    return (if forbidden name then [here] else []) ++ found ++ (← scanEntries path depth entries)

def scanFields (path : List Mark) (depth : Nat) : List (String × Evidence) → Except ScanFault (List (List Mark))
  | [] => .ok []
  | (name, value) :: fields => do
    let here := path ++ [.name name]
    let found ← scan here (depth + 1) value
    return (if forbidden name then [here] else []) ++ found ++ (← scanFields path depth fields)

end

end Standing

end AshA2A.Semantic
