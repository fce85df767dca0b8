import AshA2A.Value

/-! A plan package: its content digest and the bounds that the strict profile asks for. -/

namespace AshA2A.Semantic

structure Refusal.Coded where
  code : String
  detail : Value
  deriving Repr

namespace PlanPackage

/-- `raised` stands for every exception. -/
inductive Fault where
  | raised
  | refused (refusal : Refusal.Coded)
  deriving Repr

def error {α : Type} (code : String) (detail : Value) : Except Fault α := .error (.refused ⟨code, detail⟩)

def atoms (names : List String) : Value := .list (names.map .atom)

/-- The digest of a term, which raises on a term without a canonical text, and `inspect/1`. -/
structure Host where
  digest : Value → Option Bytes
  inspect : Value → Bytes

def module : String := "AshA2A.Semantic.PlanPackage"

def productionBounds : List String :=
  ["max_fan_out", "max_depth", "max_parallelism", "resource_envelope", "consequence_class", "required_capabilities",
    "authority_requirements", "receipt_obligations"]

def requiredEnvelopeKeys : List String := ["max_wall_ms", "max_memory_bytes", "max_invocations"]

def contentFields : List String :=
  ["semantic_goal", "initial_state_identity", "planning_domain_identity", "planner_identity", "source_graph_digest",
    "projection_digest", "consequence_class", "max_fan_out", "max_depth", "max_parallelism", "resource_envelope",
    "profile", "method_identities", "action_identities", "preconditions", "effects", "nondeterministic_outcomes",
    "required_capabilities", "authority_requirements", "receipt_obligations", "standing", "authority"]

/-- `Map.take/2`, then the digest. -/
def contentDigest (host : Host) (package : Value) : Except Fault Bytes :=
  match host.digest (.record (contentFields.map fun field => (field, package.get field))) with
  | some digest => .ok digest
  | none => .error .raised

def verify (host : Host) (package : Value) : Except Fault Unit := do
  let recomputed ← contentDigest host package
  if (Value.binary recomputed).equal false (package.get "plan_digest") = false then
    error "plan_package_manual_edit_not_canonical" (.record
      [("recorded", package.get "plan_digest"), ("recomputed", .binary recomputed)])
  else if (Value.tuple [package.get "standing", package.get "authority"]).equal false
      (.tuple [.atom "candidate", .atom "none"]) = false then
    error "plan_package_manual_edit_not_canonical" (.record
      [("forged_fence", .record [("standing", package.get "standing"), ("authority", package.get "authority")]),
        ("required", .record [("standing", .atom "candidate"), ("authority", .atom "none")])])
  else .ok ()

/-! ## The strict profile -/

def blank : Value → Bool
  | .atom "nil" | .list [] | .map [] | .binary [] => true
  | _ => false

/-- `Enum.all?/2` of a list; it raises at the end of an improper one. -/
def every (value : Value) (holds : Value → Bool) : Except Fault Bool :=
  match value with
  | .list items => .ok (items.all holds)
  | .improper items _ => if items.all holds then .error .raised else .ok false
  | _ => .ok false

def realAtom : Value → Bool
  | .atom name => name ∉ ["nil", "true", "false"]
  | _ => false

/-- A map that is not empty: a struct has its module. -/
def filledMap : Value → Bool
  | .map (_ :: _) | .struct _ _ => true
  | _ => false

/-- Only white space, of which `String.trim/1` leaves nothing. -/
def allSpace : Bytes → Bool
  | [] => true
  | 0x20 :: rest => allSpace rest
  | 0xc2 :: byte :: rest => (byte = 0x85 ∨ byte = 0xa0) && allSpace rest
  | 0xe1 :: 0x9a :: 0x80 :: rest => allSpace rest
  | 0xe2 :: 0x80 :: byte :: rest => (byte ≤ 0x8a ∧ 0x80 ≤ byte ∨ byte ∈ [0xa8, 0xa9, 0xaf]) && allSpace rest
  | 0xe2 :: 0x81 :: 0x9f :: rest => allSpace rest
  | 0xe3 :: 0x80 :: 0x80 :: rest => allSpace rest
  | byte :: rest => (9 ≤ byte ∧ byte ≤ 13) && allSpace rest

def isText : Value → Bool
  | .binary bytes => ! allSpace bytes
  | _ => false

def isFact : Value → Bool
  | .tuple [predicate, arguments] =>
    (match predicate with
      | .atom name => name ∉ ["nil", "true", "false"]
      | .binary bytes => bytes ≠ []
      | _ => false) &&
    (match arguments with
      | .list _ | .improper _ _ => true
      | _ => false)
  | _ => false

def isNonEmptyBinary : Value → Bool
  | .binary bytes => bytes ≠ []
  | _ => false

def positive : Value → Bool
  | .integer value => 0 < value
  | _ => false

/-- The names that fail. -/
def failing (checks : List (String × Bool)) : List String := (checks.filter fun check => ! check.2).map Prod.fst

def boundContents (package : Value) : Except Fault Unit := do
  let capabilities ← every (package.get "required_capabilities") isNonEmptyBinary
  let requirements ← every (package.get "authority_requirements") filledMap
  let obligations ← every (package.get "receipt_obligations") realAtom
  let invalid := failing
    [("consequence_class", realAtom (package.get "consequence_class")), ("required_capabilities", capabilities),
      ("authority_requirements", requirements), ("receipt_obligations", obligations)]
  if invalid = [] then .ok ()
  else error "plan_package_bound_contents_invalid" (.record [("fields", atoms invalid),
    ("detail", .text "a bound is its contents, not its container: an element-level check failed")])

def positiveBounds (package : Value) : Except Fault Unit :=
  let bad := ["max_fan_out", "max_depth", "max_parallelism"].filter fun field => ! positive (package.get field)
  if bad = [] then .ok () else error "plan_package_invalid_bound" (.record [("fields", atoms bad)])

def envelope (envelope : Value) : Except Fault Unit :=
  if envelope.isMap then
    let missing := requiredEnvelopeKeys.filter fun key => ! positive (envelope.get key)
    if missing = [] then .ok () else error "plan_package_resource_envelope_incomplete" (.record [("missing", atoms missing)])
  else error "plan_package_resource_envelope_incomplete" (.record [("value", envelope)])

/-- `and`, whose right side is looked at only where the left one holds. -/
def both (first : Except Fault Bool) (second : Unit → Except Fault Bool) : Except Fault Bool := do
  if ← first then second () else .ok false

def isEmptyList : Value → Bool
  | .list [] => true
  | _ => false

def identities (package : Value) : Except Fault Unit := do
  let actions ← both (every (package.get "action_identities") isText) fun _ =>
    both (every (package.get "method_identities") isText) fun _ =>
      .ok ! (isEmptyList (package.get "action_identities") && isEmptyList (package.get "method_identities"))
  let preconditions ← every (package.get "preconditions") isFact
  let effects ← both (every (package.get "effects") isFact) fun _ => .ok ! isEmptyList (package.get "effects")
  let outcomes ← every (package.get "nondeterministic_outcomes") filledMap
  let missing := failing (["semantic_goal", "initial_state_identity", "planning_domain_identity", "planner_identity",
    "source_graph_digest", "projection_digest"].map (fun field => (field, isText (package.get field))) ++
    [("action_identities", actions), ("preconditions", preconditions), ("effects", effects),
      ("nondeterministic_outcomes", outcomes)])
  if missing = [] then .ok ()
  else error "plan_package_identity_missing" (.record [("missing", atoms missing), ("profile", .atom "strict")])

/-- `enforce_profile/1` under the profile `:strict`. -/
def enforceStrict (package : Value) : Except Fault Unit := do
  let missing := productionBounds.filter fun field => blank (package.get field)
  if missing = [] then
    boundContents package
    positiveBounds package
    envelope (package.get "resource_envelope")
    identities package
  else error "plan_package_production_bounds_missing" (.record [("missing", atoms missing), ("profile", .atom "strict")])

end PlanPackage

end AshA2A.Semantic
