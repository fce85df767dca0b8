import AshA2A.Json

/-! A fragment of JSON Schema, and what it asks of a value. -/

namespace AshA2A.Json

/-- A bound may be a decimal, which is a number in meaning and none in its notation. -/
inductive Bound where
  | number (value : Rat)
  | decimal (value : Rat)
  deriving Repr, DecidableEq

/-- The keywords of a text; the format and the pattern are annotations. -/
structure TextKeywords where
  minLength : Option Nat := none
  maxLength : Option Nat := none
  enum : Option (List String) := none
  pattern : Option String := none
  format : Option String := none
  deriving Repr, DecidableEq

/-- Each schema has the type it is named after, but for the last three, which have none. An
object with properties has no others. -/
inductive Schema where
  | string (keywords : TextKeywords)
  | integer (minimum maximum : Option Bound)
  | number (minimum maximum : Option Bound)
  | boolean
  | array (items : Schema) (minItems maxItems : Option Nat)
  | anyObject
  | object (properties : List (String × Schema)) (required : List String)
  | anyOf (branches : List Schema)
  | oneOf (branches : List Schema)
  | const (text : String)
  deriving Repr

def Bound.value : Bound → Rat
  | .number value | .decimal value => value

def fitsBounds (minimum maximum : Option Bound) (value : Rat) : Bool :=
  (minimum.all fun bound => bound.value ≤ value) && maximum.all fun bound => value ≤ bound.value

def fitsCount (least most : Option Nat) (count : Nat) : Bool :=
  (least.all fun least => least ≤ count) && most.all fun most => count ≤ most

namespace TextKeywords

def lists (keywords : TextKeywords) (text : String) : Bool := keywords.enum.all fun enum => enum.contains text

/-- The length in whatever unit it was counted. -/
def fits (keywords : TextKeywords) (length : Nat) : Bool := fitsCount keywords.minLength keywords.maxLength length

end TextKeywords

namespace Schema

/-- No entry under a name of its own, and every required one. -/
def keyed (properties : List (String × Schema)) (required : List String) (json : Json) : Bool :=
  (json.entries.all fun entry => properties.any fun property => property.1 = entry.1) &&
    required.all fun name => (json.get? name).isSome

mutual

/-- A length is counted in code points, and a float may be an integer. -/
def conforms : Schema → Json → Bool
  | .string keywords, .string text => keywords.lists text && keywords.fits text.toList.length
  | .integer minimum maximum, .int value => fitsBounds minimum maximum value
  | .integer minimum maximum, .float value => value.den = 1 && fitsBounds minimum maximum value
  | .number minimum maximum, .int value => fitsBounds minimum maximum value
  | .number minimum maximum, .float value => fitsBounds minimum maximum value
  | .boolean, .bool _ => true
  | .array items minItems maxItems, .array values =>
    fitsCount minItems maxItems values.length && values.all fun value => conforms items value
  | .anyObject, .object _ => true
  | .object properties required, .object entries =>
    keyed properties required (.object entries) && conformsAll properties (.object entries)
  | .anyOf branches, value => conformsCount branches value != 0
  | .oneOf branches, value => conformsCount branches value == 1
  | .const text, .string value => text = value
  | _, _ => false

/-- How many of the branches the value conforms to. -/
def conformsCount : List Schema → Json → Nat
  | [], _ => 0
  | branch :: branches, value => (if conforms branch value then 1 else 0) + conformsCount branches value

def conformsAll : List (String × Schema) → Json → Bool
  | [], _ => true
  | (name, schema) :: properties, json =>
    (match json.get? name with
      | some value => conforms schema value
      | none => true) && conformsAll properties json

end

theorem conformsCount_eq (branches : List Schema) (value : Json) :
    conformsCount branches value = branches.countP fun branch => conforms branch value := by
  induction branches with
  | nil => rfl
  | cons branch branches ih => rw [conformsCount, ih, List.countP_cons, Nat.add_comm]

theorem conforms_anyOf {branches : List Schema} {value : Json} :
    conforms (.anyOf branches) value ↔ ∃ branch ∈ branches, conforms branch value := by
  rw [conforms, conformsCount_eq, bne_iff_ne, ← Nat.pos_iff_ne_zero, List.countP_pos_iff]

theorem conformsAll_iff {properties : List (String × Schema)} {json : Json} : conformsAll properties json ↔
    ∀ property ∈ properties, ∀ value, json.get? property.1 = some value → conforms property.2 value := by
  induction properties with
  | nil => exact iff_of_true rfl nofun
  | cons property properties ih =>
    rw [conformsAll, Bool.and_eq_true, List.forall_mem_cons, ih]
    refine and_congr_left fun _ => ?_
    cases json.get? property.1 with
    | none => exact iff_of_true rfl nofun
    | some value => simp

end Schema

end AshA2A.Json
