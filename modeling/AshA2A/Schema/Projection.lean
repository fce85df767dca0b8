import AshA2A.Executor
import AshA2A.Json.Schema

/-! The schemas of the types that an action takes. -/

namespace AshA2A.Schema.Projection

/-- An argument, an attribute or a field of a map. -/
structure Attribute (α : Type) where
  name : String
  type : α
  allowNil : Bool := true
  isPublic : Bool := true
  deriving Repr

/-- A type with its constraints, as Ash resolves both. -/
inductive AshType where
  | string (minLength maxLength : Option Nat) (pattern : Option String) (oneOf : Option (List String))
  | integer (min max : Option Int)
  | float (min max : Option Rat)
  | decimal (min max : Option Rat)
  | boolean
  | date
  | time
  | dateTime
  | uuid
  | atom (oneOf : Option (List String))
  /-- The names of a duration too. -/
  | enum (values : List String)
  | map (fields : List (Attribute AshType))
  | union (types : Option (List AshType))
  /-- The attributes where the struct is an embedded resource. -/
  | struct (attributes : Option (List (Attribute AshType)))
  | embedded (attributes : List (Attribute AshType))
  | newType (subtype : AshType)
  | array (items : AshType) (minLength maxLength : Option Nat)
  | other (type : String)
  deriving Repr

/-- `{:unserializable_type, type}`. -/
structure Unserializable where
  type : String
  deriving Repr, DecidableEq

open Json (Bound TextKeywords)

def formattedString (format : String) : Json.Schema := .string { format := some format }

def enumSchema (values : List String) : Json.Schema := .string { enum := some values }

/-- `Map.put/3` of a property, before what is put after it. -/
def putBefore (name : String) (schema : Json.Schema) (properties : List (String × Json.Schema)) :
    List (String × Json.Schema) :=
  if properties.any fun property => property.1 = name then properties else (name, schema) :: properties

def maybeRequired (field : Attribute AshType) : List String := if field.allowNil then [] else [field.name]

mutual

def typeSchema : AshType → Except Unserializable Json.Schema
  | .string minLength maxLength pattern oneOf => .ok (.string ⟨minLength, maxLength, oneOf, pattern, none⟩)
  | .integer min max =>
    .ok (.integer (min.map fun min => .number min) (max.map fun max => .number max))
  | .float min max => .ok (.number (min.map .number) (max.map .number))
  | .decimal min max => .ok (.number (min.map .decimal) (max.map .decimal))
  | .boolean => .ok .boolean
  | .date => .ok (formattedString "date")
  | .time => .ok (formattedString "time")
  | .dateTime => .ok (formattedString "date-time")
  | .uuid => .ok (formattedString "uuid")
  | .atom none => .ok (.string {})
  | .atom (some oneOf) => .ok (enumSchema oneOf)
  | .enum values => .ok (enumSchema values)
  | .map [] => .ok .anyObject
  | .map (field :: fields) =>
    (fieldsSchema false (field :: fields)).map fun (properties, required) => .object properties required
  | .union none => .ok (.anyOf [])
  | .union (some types) => (typesSchema types).map .anyOf
  | .struct none => .ok .anyObject
  | .struct (some attributes) =>
    (fieldsSchema true attributes).map fun (properties, required) => .object properties required
  | .embedded attributes =>
    (fieldsSchema true attributes).map fun (properties, required) => .object properties required
  | .newType subtype => typeSchema subtype
  | .array items minLength maxLength => (typeSchema items).map fun items => .array items minLength maxLength
  | .other type => .error ⟨type⟩

/-- The properties and the required names; attributes that are not public can be left out.
Of several errors the last one is returned. -/
def fieldsSchema (publicOnly : Bool) : List (Attribute AshType) →
    Except Unserializable (List (String × Json.Schema) × List String)
  | [] => .ok ([], [])
  | ⟨name, type, allowNil, isPublic⟩ :: fields =>
    if publicOnly && !isPublic then fieldsSchema publicOnly fields
    else
      match typeSchema type, fieldsSchema publicOnly fields with
      | _, .error fault => .error fault
      | .error fault, .ok _ => .error fault
      | .ok schema, .ok (properties, required) =>
        .ok (putBefore name schema properties, maybeRequired ⟨name, type, allowNil, isPublic⟩ ++ required)

def typesSchema : List AshType → Except Unserializable (List Json.Schema)
  | [] => .ok []
  | type :: types =>
    match typeSchema type, typesSchema types with
    | _, .error fault => .error fault
    | .error fault, .ok _ => .error fault
    | .ok schema, .ok schemas => .ok (schema :: schemas)

end

/-! ## Actions and skills -/

structure Action where
  arguments : List (Attribute AshType)
  accept : List String := []
  deriving Repr

/-- The arguments and, where they are not hidden by one, the accepted attributes. -/
def fields (attributes : List (Attribute AshType)) (action : Action) : List (Attribute AshType) :=
  let arguments := action.arguments.filter Attribute.isPublic
  let accepted := attributes.filter fun field => action.accept.contains field.name && field.isPublic
  arguments ++ accepted.filter fun field => arguments.all fun argument => argument.name ≠ field.name

/-- The attributes are those of the action's resource. -/
def forAction (attributes : List (Attribute AshType)) (action : Action) : Except Unserializable Json.Schema :=
  (fieldsSchema false (fields attributes action)).map fun (properties, required) => .object properties required

/-- The properties under the names of the wire, where the last one of a name stays. -/
def forSkill (mapping : ArgumentMapping) (attributes : List (Attribute AshType)) (action : Action) :
    Except Unserializable Json.Schema :=
  (fieldsSchema false (fields attributes action)).map fun (properties, required) =>
    .object (UniqueBy.uniqBy Prod.fst (properties.map (Prod.map (wireName mapping) id)).reverse)
      (required.map (wireName mapping))

end AshA2A.Schema.Projection
