import AshA2A.Outcome
import AshA2A.Semantic.AxisFence
import AshA2A.Semantic.CanonicalTermDigest
import AshA2A.Value
import Mathlib.Data.List.Dedup

/-! One behavioral realization of a policy: axes with ranges, a condition on them, and linear norms by which
the condition reacts to a cue. -/

namespace AshA2A.Semantic.PolicyPhenotype

open AxisFence (Text fenced)
open CanonicalTermDigest (Term Decimal)

/-- `String.trim/1` looks at the characters that are white space. -/
structure Tables extends AxisFence.Unicode where
  space : Char → Bool

/-- The arithmetic of floats has no infinity: what cannot be represented is an error. -/
structure Host where
  tables : Tables
  sha256 : Bytes → Bytes
  decimal : Rat → Decimal
  toFloat : Int → Option Rat
  add : Rat → Rat → Option Rat
  sub : Rat → Rat → Option Rat
  mul : Rat → Rat → Option Rat

inductive Code where
  | invalidPolicyPhenotype
  | invalidPolicyPhenotypeTransport
  | policyPhenotypeDigestMismatch
  | phenotypeAuthoritySmuggling
  | temperamentCannotEncodeAuthority
  | invalidConditionAxisRange
  | unknownConditionAxis
  | conditionOutOfRange
  | invalidReactionNorm
  deriving Repr, DecidableEq

structure Refusal where
  code : Code
  detail : Value
  deriving Repr

def refuse {α : Type} (code : Code) (detail : Value) : Except Refusal α := .error ⟨code, detail⟩

/-- `{:tag, detail}`. -/
def tagged (tag : String) (detail : Value) : Value := .tuple [.atom tag, detail]

/-! ## Numbers -/

def number? : Value → Option Rat
  | .integer value => some value
  | .float value => some value
  | _ => none

def isNumber (value : Value) : Bool := (number? value).isSome

def less (value other : Value) : Bool :=
  match number? value, number? other with
  | some value, some other => value < other
  | _, _ => false

/-! ## Maps -/

/-- A plain map of a phenotype: each key once. -/
abbrev AxisMap := List (Value × Value)

namespace AxisMap

def find (map : AxisMap) (key : Value) : Option Value :=
  (List.find? (fun entry => entry.1.equal true key) map).map Prod.snd

def put : AxisMap → Value → Value → AxisMap
  | [], key, value => [(key, value)]
  | entry :: rest, key, value =>
    if entry.1.equal true key then (entry.1, value) :: rest else entry :: put rest key value

/-- `Map.new/1`: the last value of a key counts. -/
def new (pairs : List (Value × Value)) : AxisMap := pairs.foldl (fun map pair => put map pair.1 pair.2) []

end AxisMap

def pair? : Value → Option (Value × Value)
  | .tuple [first, second] => some (first, second)
  | _ => none

/-! ## The fence -/

def text? (bytes : Bytes) : Option Text := (String.fromUTF8? ⟨bytes.toArray⟩).map String.toList

def encodeText (text : Text) : Bytes := text.flatMap String.utf8EncodeChar

section Fence
variable (host : Host)

def normalizeText (text : Text) : Text := AxisFence.normalizeAxis host.tables.toUnicode text

/-- A binary that is no text stays as it is. -/
def normalizeAxis : Value → Value
  | .atom name => .binary (encodeText (normalizeText host name.toList))
  | .binary bytes =>
    match text? bytes with
    | some text => .binary (encodeText (normalizeText host text))
    | none => .binary bytes
  | axis => axis

/-- Whether a name is fenced; what is neither an atom nor a binary is no name. -/
def fencedName : Value → Option Bool
  | .atom name => some (fenced (normalizeText host name.toList))
  | .binary bytes =>
    match text? bytes with
    | some text => some (fenced (normalizeText host text))
    | none => some true
  | _ => none

def authorityNamedKey (key : Value) : Bool := (fencedName host key).getD true

def forbiddenAxis (axis : Value) : Bool := (fencedName host axis).getD false

mutual

def authorityOffender : Value → Option Value
  | .map entries => offenderEntries entries
  | .list items => offenderItems items
  | _ => none

def offenderEntries : List (Value × Value) → Option Value
  | [] => none
  | (key, value) :: entries =>
    if authorityNamedKey host key then some key else (authorityOffender value).or (offenderEntries entries)

def offenderItems : List Value → Option Value
  | [] => none
  | item :: items => (authorityOffender item).or (offenderItems items)

end

/-- A name of authority inside the value is refused as such. -/
def authorityOr (value : Value) (fallback : Refusal) : Refusal :=
  match authorityOffender host value with
  | none => fallback
  | some key => ⟨.invalidPolicyPhenotype, tagged "unknown_option" key⟩

end Fence

/-! ## Phenotypes -/

/-- A struct of the module has no other fields, and these containers. -/
structure Phenotype where
  capabilityIri : Value
  policyFamily : Value
  conditionableAxes : AxisMap
  condition : AxisMap
  reactionNorms : AxisMap
  evidenceRefs : List Value
  deriving Repr

/-- Exactly `%{min: min, max: max}`. -/
def closedRange : Value → Bool
  | .map [(.atom "max", max), (.atom "min", min)] => isNumber min && isNumber max && less min max
  | _ => false

/-- Exactly `%{slope: slope}`, or that with a reference cue. -/
def closedNorm : Value → Bool
  | .map [(.atom "slope", slope)] => isNumber slope
  | .map [(.atom "reference_cue", cue), (.atom "slope", slope)] => isNumber slope && isNumber cue
  | _ => false

section Validation
variable (host : Host)

def validateIdentity (phenotype : Phenotype) : Except Refusal Unit :=
  match phenotype.capabilityIri, phenotype.policyFamily with
  | .binary (_ :: _), .binary (_ :: _) => .ok ()
  | _, _ => refuse .invalidPolicyPhenotype (.atom "capability_and_policy_family_required")

def axisNames (phenotype : Phenotype) : List Value :=
  phenotype.conditionableAxes.map Prod.fst ++ phenotype.condition.map Prod.fst ++ phenotype.reactionNorms.map Prod.fst

/-- Names that come twice leave the first offender as it is. -/
def validateAxisNames (phenotype : Phenotype) : Except Refusal Unit :=
  match (axisNames phenotype).find? (forbiddenAxis host) with
  | none => .ok ()
  | some axis => refuse .temperamentCannotEncodeAuthority axis

def validateRange (entry : Value × Value) : Except Refusal Unit :=
  if authorityNamedKey host entry.1 then refuse .invalidPolicyPhenotype (tagged "unknown_option" entry.1)
  else if ! entry.1.isBinary then refuse .invalidConditionAxisRange (.tuple [entry.1, entry.2])
  else if closedRange entry.2 then .ok ()
  else .error (authorityOr host entry.2 ⟨.invalidConditionAxisRange, .tuple [entry.1, entry.2]⟩)

def validateCondition (phenotype : Phenotype) (entry : Value × Value) : Except Refusal Unit :=
  if entry.1.isBinary && isNumber entry.2 then
    match phenotype.conditionableAxes.find entry.1 with
    | none => refuse .unknownConditionAxis entry.1
    | some range =>
      if ! less entry.2 (range.get "min") && ! less (range.get "max") entry.2 then .ok ()
      else refuse .conditionOutOfRange (.tuple [entry.1, entry.2, range])
  else refuse .invalidPolicyPhenotype (tagged "invalid_condition" (.tuple [entry.1, entry.2]))

def validateReactionNorm (phenotype : Phenotype) (entry : Value × Value) : Except Refusal Unit :=
  if authorityNamedKey host entry.1 then refuse .invalidPolicyPhenotype (tagged "unknown_option" entry.1)
  else if ! closedNorm entry.2 then .error (authorityOr host entry.2 ⟨.invalidReactionNorm, .tuple [entry.1, entry.2]⟩)
  else if (phenotype.conditionableAxes.find entry.1).isNone then refuse .unknownConditionAxis entry.1
  else .ok ()

def validateEvidenceRef : Value → Except Refusal Unit
  | .binary (_ :: _) => .ok ()
  | ref => refuse .invalidPolicyPhenotype (tagged "invalid_evidence_ref" ref)

def validate (phenotype : Phenotype) : Except Refusal Phenotype := do
  validateIdentity phenotype
  validateAxisNames host phenotype
  phenotype.conditionableAxes.forM (validateRange host)
  phenotype.condition.forM (validateCondition phenotype)
  phenotype.reactionNorms.forM (validateReactionNorm host phenotype)
  phenotype.evidenceRefs.forM validateEvidenceRef
  return phenotype

/-! ## Options -/

def allowedOptions : List String :=
  ["capability_iri", "policy_family", "conditionable_axes", "condition", "reaction_norms", "evidence_refs"]

def option? : Value → Option (String × Value)
  | .tuple [.atom key, value] => some (key, value)
  | _ => none

def firstDuplicate (seen : List Value) : List Value → Option Value
  | [] => none
  | item :: items => if seen.any fun other => other.equal true item then some item else firstDuplicate (item :: seen) items

def validateOptions (items : List Value) : Except Refusal (List (String × Value)) :=
  match items.mapM option? with
  | none => refuse .invalidPolicyPhenotype (.atom "expected_keyword_list")
  | some opts =>
    match opts.find? fun opt => ! allowedOptions.contains opt.1 with
    | some unknown => refuse .invalidPolicyPhenotype (tagged "unknown_option" (.atom unknown.1))
    | none =>
      match firstDuplicate [] (opts.map fun opt => .atom opt.1) with
      | some duplicate => refuse .invalidPolicyPhenotype (tagged "duplicate_option" duplicate)
      | none => .ok opts

def refuseAxisCollision (key : String) (entries : List (Value × Value)) : Except Refusal AxisMap :=
  match firstDuplicate [] (entries.map fun entry => normalizeAxis host entry.1) with
  | none => .ok (AxisMap.new entries)
  | some axis => refuse .invalidPolicyPhenotype (.tuple [.atom "duplicate_axis", .atom key, axis])

/-- A map, or a list of pairs. -/
def toAxisMap (opts : List (String × Value)) (key : String) : Except Refusal AxisMap :=
  match (opts.lookup key).getD (.map []) with
  | .map entries => refuseAxisCollision host key entries
  | .list items =>
    match items.mapM pair? with
    | some entries => refuseAxisCollision host key entries
    | none => refuse .invalidPolicyPhenotype (tagged "expected_axis_map" (.atom key))
  | _ => refuse .invalidPolicyPhenotype (tagged "expected_axis_map" (.atom key))

def toEvidenceRefs : Value → Except Refusal (List Value)
  | .list refs => .ok refs
  | .improper items tail => refuse .invalidPolicyPhenotype (tagged "invalid_evidence_ref" (.improper items tail))
  | .atom "nil" => .ok []
  | ref => .ok [ref]

def new : Value → Except Refusal Phenotype
  | .list items => do
    let opts ← validateOptions items
    let conditionableAxes ← toAxisMap host opts "conditionable_axes"
    let condition ← toAxisMap host opts "condition"
    let reactionNorms ← toAxisMap host opts "reaction_norms"
    let evidenceRefs ← toEvidenceRefs ((opts.lookup "evidence_refs").getD (.list []))
    validate host {
      capabilityIri := (opts.lookup "capability_iri").getD .nil
      policyFamily := (opts.lookup "policy_family").getD .nil
      conditionableAxes := conditionableAxes
      condition := condition
      reactionNorms := reactionNorms
      evidenceRefs := evidenceRefs }
  | _ => refuse .invalidPolicyPhenotype (.atom "expected_keyword_list")

/-- The options that describe a phenotype. -/
def options (phenotype : Phenotype) : Value :=
  .list [
    tagged "capability_iri" phenotype.capabilityIri,
    tagged "policy_family" phenotype.policyFamily,
    tagged "conditionable_axes" (.map phenotype.conditionableAxes),
    tagged "condition" (.map phenotype.condition),
    tagged "reaction_norms" (.map phenotype.reactionNorms),
    tagged "evidence_refs" (.list phenotype.evidenceRefs)]

/-! ## Reactions -/

/-- An integer stays one among integers. -/
def arithmetic (exact : Int → Int → Int) (rounded : Rat → Rat → Option Rat) (value other : Value) : Option Value :=
  match value, other with
  | .integer value, .integer other => some (.integer (exact value other))
  | .integer value, .float other => do return .float (← rounded (← host.toFloat value) other)
  | .float value, .integer other => do return .float (← rounded value (← host.toFloat other))
  | .float value, .float other => do return .float (← rounded value other)
  | _, _ => none

/-- `baseline + slope * (cue - reference_cue)`. -/
def react (baseline slope cue referenceCue : Value) : Option Value := do
  let distance ← arithmetic host (· - ·) host.sub cue referenceCue
  let change ← arithmetic host (· * ·) host.mul slope distance
  arithmetic host (· + ·) host.add baseline change

def clamp (value min max : Value) : Value :=
  if less value min then min else if less max value then max else value

/-- What the validation has seen is there. -/
def reactOne (axes : AxisMap) (cue : Value) (acc : AxisMap) (entry : Value × Value) : Except Refusal AxisMap :=
  let range := (axes.find entry.1).getD .nil
  let baseline := (acc.find entry.1).getD (range.get "min")
  match react host baseline (entry.2.get "slope") cue ((entry.2.member "reference_cue").getD (.float 0)) with
  | some value => .ok (acc.put entry.1 (clamp value (range.get "min") (range.get "max")))
  | none => refuse .invalidReactionNorm (.tuple [.atom "overflow", entry.1, cue])

def reactAll (phenotype : Phenotype) (cue : Value) : Except Refusal AxisMap :=
  phenotype.reactionNorms.foldlM (reactOne host phenotype.conditionableAxes cue) phenotype.condition

def condition (phenotype : Phenotype) (cue : Value) : Except Refusal Phenotype :=
  if isNumber cue then do
    let phenotype ← validate host phenotype
    let next ← reactAll host phenotype cue
    return { phenotype with condition := next }
  else refuse .invalidPolicyPhenotype (.atom "cue_must_be_numeric")

end Validation

end AshA2A.Semantic.PolicyPhenotype
