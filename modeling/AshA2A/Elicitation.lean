import AshA2A.Json.Schema

/-! The answer to an elicitation, checked against the schema that was asked for. -/

namespace AshA2A.Elicitation

open Json (Bound Schema)

/-- What is said of a property. -/
inductive Reason where
  | expectedObject
  | unsupportedShape
  | unknownProperty
  | missingProperty
  | noneOfAnyOf
  | noneOfOneOf
  | severalOfOneOf
  | expected (type actual : String)
  | notInEnum
  | shorter (min : Nat)
  | longer (max : Nat)
  | belowMinimum (min : Rat)
  | aboveMaximum (max : Rat)
  | fewer (min : Nat)
  | more (max : Nat)
  | item (index : Nat) (reason : Reason)
  deriving Repr

structure Violation where
  property : Option String
  error : Reason
  deriving Repr

/-- `String.length/1`, which counts grapheme clusters. -/
abbrev Graphemes := String → Nat

def typeName : Json → String
  | .string _ => "string"
  | .int _ => "integer"
  | .float _ => "number"
  | .bool _ => "boolean"
  | .array _ => "array"
  | .object _ => "object"
  | .null => "null"

def shape (fits : Bool) (type : String) (value : Json) : Except Reason Unit :=
  if fits then .ok () else .error (.expected type (typeName value))

/-- There is no clause for `"object"`, and none but that of an enum for a schema without a type. -/
def typeCheck (value : Json) : Schema → Except Reason Unit
  | .string _ => shape (match value with | .string _ => true | _ => false) "string" value
  | .integer _ _ => shape (match value with | .int _ => true | _ => false) "integer" value
  | .number _ _ => shape (match value with | .int _ | .float _ => true | _ => false) "number" value
  | .boolean => shape (match value with | .bool _ => true | _ => false) "boolean" value
  | .array _ _ _ => shape (match value with | .array _ => true | _ => false) "array" value
  | _ => .ok ()

def passes {ε : Type} (result : Except ε Unit) : Bool :=
  match result with
  | .ok () => true
  | .error _ => false

def matchBranch (value : Json) : Schema → Bool
  | .const text => match value with | .string given => given = text | _ => false
  | .anyOf _ | .oneOf _ => false
  | branch => passes (typeCheck value branch)

def anyOf (name : String) (value : Json) (branches : List Schema) : List Violation :=
  if branches.any (matchBranch value) then [] else [⟨some name, .noneOfAnyOf⟩]

def oneOf (name : String) (value : Json) (branches : List Schema) : List Violation :=
  match branches.countP (matchBranch value) with
  | 1 => []
  | 0 => [⟨some name, .noneOfOneOf⟩]
  | _ => [⟨some name, .severalOfOneOf⟩]

/-! ## Constraints -/

def enumCheckResult (value : Json) (sub : Schema) : List Violation :=
  match sub with
  | .string { enum := some enum, .. } =>
    if match value with | .string text => enum.contains text | _ => false then [] else [⟨none, .notInEnum⟩]
  | _ => []

/-- What is said of the first of two bounds that does not hold. -/
def brokenBound {α : Type} (least most : Option α) (tooLow tooHigh : α → Bool) (short long : α → Reason) : Option Reason :=
  match least.filter tooLow with
  | some min => some (short min)
  | none => (most.filter tooHigh).map long

def lengthConstraints (graphemes : Graphemes) (name : String) (value : Json) (sub : Schema) : List Violation :=
  match sub, value with
  | .string keywords, .string text =>
    let broken := brokenBound keywords.minLength keywords.maxLength (fun min => graphemes text < min)
      (fun max => max < graphemes text) .shorter .longer
    broken.toList.map fun reason => ⟨some name, reason⟩
  | _, _ => []

/-- `is_number/1` of a bound: a decimal is a struct. -/
def Bound.number? : Bound → Option Rat
  | .number value => some value
  | .decimal _ => none

def number? : Json → Option Rat
  | .int value => some value
  | .float value => some value
  | _ => none

def boundConstraints (name : String) (value : Json) (sub : Schema) : List Violation :=
  match sub, number? value with
  | .integer minimum maximum, some number | .number minimum maximum, some number =>
    let broken := brokenBound (minimum.bind Bound.number?) (maximum.bind Bound.number?) (fun min => number < min)
      (fun max => max < number) .belowMinimum .aboveMaximum
    broken.toList.map fun reason => ⟨some name, reason⟩
  | _, _ => []

def scalarConstraints (graphemes : Graphemes) (name : String) (value : Json) (sub : Schema) : List Violation :=
  enumCheckResult value sub ++ lengthConstraints graphemes name value sub ++ boundConstraints name value sub

def countCheck (count : Nat) (minItems maxItems : Option Nat) : Except Reason Unit :=
  match brokenBound minItems maxItems (fun min => count < min) (fun max => max < count) .fewer .more with
  | some reason => .error reason
  | none => .ok ()

def constraintViolations (graphemes : Graphemes) (name : String) (value : Json) (sub : Schema) : List Violation :=
  match sub, value with
  | .array items minItems maxItems, .array values =>
    match countCheck values.length minItems maxItems with
    | .ok () => values.zipIdx.flatMap fun (item, index) =>
      match typeCheck item items with
      | .ok () => []
      | .error reason => [⟨some name, .item index reason⟩]
    | .error reason => [⟨some name, reason⟩]
  | _, _ => (scalarConstraints graphemes name value sub).map fun violation =>
    { violation with property := some (violation.property.getD name) }

def checkProperty (graphemes : Graphemes) (name : String) (value : Json) (sub : Schema) : List Violation :=
  match sub with
  | .anyOf branches => anyOf name value branches
  | .oneOf branches => oneOf name value branches
  | sub =>
    match typeCheck value sub with
    | .ok () => constraintViolations graphemes name value sub
    | .error reason => [⟨some name, reason⟩]

/-! ## Answers -/

def unknownKeyViolations (data : Json) (properties : List (String × Schema)) : List Violation :=
  (data.entries.filter fun entry => ¬ properties.any fun property => property.1 = entry.1).map fun entry =>
    ⟨some entry.1, .unknownProperty⟩

def requiredViolations (required : List String) (data : Json) : List Violation :=
  (required.filter fun name => (data.get? name).isNone).map fun name => ⟨some name, .missingProperty⟩

def propertyViolations (graphemes : Graphemes) (properties : List (String × Schema)) (data : Json) : List Violation :=
  properties.flatMap fun (name, sub) =>
    match data.get? name with
    | some value => checkProperty graphemes name value sub
    | none => []

def validateMap (graphemes : Graphemes) (properties : List (String × Schema)) (required : List String) (data : Json) :
    Except (List Violation) Unit :=
  match unknownKeyViolations data properties ++ requiredViolations required data ++
    propertyViolations graphemes properties data with
  | [] => .ok ()
  | violations => .error violations

def validate (graphemes : Graphemes) (schema : Schema) (data : Json) : Except (List Violation) Unit :=
  match schema, data with
  | .object properties required, .object _ => validateMap graphemes properties required data
  | .anyObject, .object _ => validateMap graphemes [] [] data
  | .object _ _, _ | .anyObject, _ => .error [⟨none, .expectedObject⟩]
  | _, _ => .error [⟨none, .unsupportedShape⟩]

end AshA2A.Elicitation
