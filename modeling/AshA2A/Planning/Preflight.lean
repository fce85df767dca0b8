import AshA2A.Semantic.PlanPackage

/-! The preflight of a whole bounded plan, and the admission of its steps. -/

namespace AshA2A.Planning

open Semantic
open PlanPackage (error atoms both failing every)

structure BoundedPlan where
  planPackage : Value
  steps : Value
  fanOut : Value
  cascadeDepth : Value
  parallelism : Value
  retryCount : Value
  resourceBudget : Value
  externalRequestCount : Value
  financialEnvelope : Value
  authorityRequirement : Value
  semanticSubject : Value
  workOrderDigest : Value := .nil
  standing : Value := .atom "candidate"
  authority : Value := .atom "none"

namespace BoundedPlan

/-- The fields that the preflight identity binds, which are all of them. -/
def boundFields : List (String × (BoundedPlan → Value)) :=
  [("plan_package", planPackage), ("steps", steps), ("fan_out", fanOut), ("cascade_depth", cascadeDepth),
    ("parallelism", parallelism), ("retry_count", retryCount), ("resource_budget", resourceBudget),
    ("external_request_count", externalRequestCount), ("financial_envelope", financialEnvelope),
    ("authority_requirement", authorityRequirement), ("semantic_subject", semanticSubject),
    ("work_order_digest", workOrderDigest), ("standing", standing), ("authority", authority)]

end BoundedPlan

namespace Preflight

/-- The verdict; its other fields are constants that nothing reads. -/
structure Verdict where
  preflightDigest : Value
  planDigest : Value
  fieldDigests : Value
  workOrderDigest : Value := .nil

/-- What a caller hands over where a struct is expected. -/
inductive Presented (α : Type) where
  | absent
  | stranger
  | given (value : α)

def budgetKeys : List String := ["max_invocations", "max_wall_ms", "max_external_requests"]

variable (host : Semantic.PlanPackage.Host)

def digest (value : Value) : Except PlanPackage.Fault Value :=
  match host.digest value with
  | some digest => .ok (.binary digest)
  | none => .error .raised

def fieldDigests (plan : BoundedPlan) : Except PlanPackage.Fault Value := do
  let digests ← BoundedPlan.boundFields.mapM fun (name, read) => do return (name, ← digest host (read plan))
  return .record digests

def identityDigest (fieldDigests : Value) : Except PlanPackage.Fault Value := digest host (.record [("preflight", fieldDigests)])

/-! ## Validation -/

def fence (plan : BoundedPlan) : Except PlanPackage.Fault Unit :=
  if plan.standing.equal true (.atom "candidate") && plan.authority.equal true (.atom "none") then .ok ()
  else error "preflight_authority_ceiling_violated" (.record [("standing", plan.standing), ("authority", plan.authority)])

/-- The refusal of another module becomes the detail. -/
def within (code : String) (result : Except PlanPackage.Fault Unit) : Except PlanPackage.Fault Unit :=
  match result with
  | .error (.refused refusal) => error code (.record [("code", .atom refusal.code), ("detail", refusal.detail)])
  | other => other

def package : Value → Except PlanPackage.Fault Unit
  | .struct "AshA2A.Semantic.PlanPackage" fields => do
    let package := Value.struct Semantic.PlanPackage.module fields
    within "preflight_plan_unverifiable" (Semantic.PlanPackage.verify host package)
    within "preflight_production_bounds_missing" (Semantic.PlanPackage.enforceStrict package)
  | other => error "preflight_plan_unverifiable" (.record [("plan_package", .binary (host.inspect other))])

/-- `[_ | _]`, proper or not. -/
def filledList : Value → Bool
  | .list (_ :: _) | .improper _ _ => true
  | _ => false

def nonNegative : Value → Bool
  | .integer value => 0 ≤ value
  | _ => false

def isRequirement (value : Value) : Bool := value.isMap && Semantic.PlanPackage.isNonEmptyBinary (value.get "capability_id")

def isFinancial (value : Value) : Bool :=
  value.isMap && Semantic.PlanPackage.isNonEmptyBinary (value.get "currency") && nonNegative (value.get "max_minor_units")

def isSubject : Value → Bool
  | .struct "AshA2A.SemanticSubject" _ => true
  | _ => false

def present (plan : BoundedPlan) : Except PlanPackage.Fault Unit := do
  let stated ← both (.ok (filledList plan.authorityRequirement)) fun _ => every plan.authorityRequirement isRequirement
  let missing := failing
    [("steps", filledList plan.steps), ("fan_out", Semantic.PlanPackage.positive plan.fanOut),
      ("cascade_depth", nonNegative plan.cascadeDepth), ("parallelism", Semantic.PlanPackage.positive plan.parallelism),
      ("retry_count", nonNegative plan.retryCount),
      ("resource_budget", plan.resourceBudget.isMap && budgetKeys.all fun key => nonNegative (plan.resourceBudget.get key)),
      ("external_request_count", nonNegative plan.externalRequestCount),
      ("financial_envelope", isFinancial plan.financialEnvelope), ("authority_requirement", stated),
      ("semantic_subject", isSubject plan.semanticSubject)]
  if missing = [] then .ok () else error "preflight_bound_missing" (.record [("missing", atoms missing)])

/-- What the checks before this one let through is an integer. -/
def amount : Value → Int
  | .integer value => value
  | _ => 0

/-- `length/1`. -/
def length : Value → Except PlanPackage.Fault Int
  | .list items => .ok items.length
  | _ => .error .raised

def withinBounds (plan : BoundedPlan) : Except PlanPackage.Fault Unit := do
  let count ← length plan.steps
  let envelope := plan.planPackage.get "resource_envelope"
  let budget (key : String) := amount (plan.resourceBudget.get key)
  let exceeded := failing
    [("fan_out", count ≤ amount plan.fanOut && amount plan.fanOut ≤ amount (plan.planPackage.get "max_fan_out")),
      ("cascade_depth", amount plan.cascadeDepth ≤ amount (plan.planPackage.get "max_depth")),
      ("parallelism", amount plan.parallelism ≤ amount (plan.planPackage.get "max_parallelism")),
      ("retry_count", count * (amount plan.retryCount + 1) ≤ budget "max_invocations"),
      ("resource_budget", budget "max_invocations" ≤ amount (envelope.get "max_invocations") &&
        budget "max_wall_ms" ≤ amount (envelope.get "max_wall_ms")),
      ("external_request_count", amount plan.externalRequestCount ≤ budget "max_external_requests")]
  if exceeded = [] then .ok () else error "preflight_bound_exceeded" (.record [("fields", atoms exceeded)])

def items : Value → List Value
  | .list items => items
  | _ => []

/-- A map with a binary for the capability and a map for the input. -/
def isStep (step : Value) : Bool := step.isMap && (step.get "capability_id").isBinary && (step.get "input").isMap

/-- `capability in MapSet.new(capabilities)`. -/
def among (capability : Value) (capabilities : List Value) : Bool := capabilities.any (capability.equal true)

/-- `list -- MapSet.to_list(set)`: each element of the set takes one occurrence away. -/
def outside (capabilities : List Value) (known : List Value) : Value :=
  .list (known.foldl (fun rest capability => rest.eraseP (·.equal true capability)) capabilities)

/-- The elements of a list, each once. -/
def distinct (values : List Value) : List Value :=
  values.foldl (fun seen value => if among value seen then seen else seen ++ [value]) []

def steps (plan : BoundedPlan) : Except PlanPackage.Fault Unit :=
  let required := distinct (items (plan.planPackage.get "required_capabilities"))
  let stated := distinct ((items plan.authorityRequirement).map (·.get "capability_id"))
  let named := (items plan.steps).map (·.get "capability_id")
  if ! (items plan.steps).all isStep then error "preflight_bound_missing" (.record [("missing", atoms ["steps"])])
  else if named.any fun capability => ! among capability required then
    error "preflight_step_not_in_plan" (.record [("capability_ids", outside named required)])
  else if named.any fun capability => ! among capability stated then
    error "preflight_authority_requirement_missing" (.record [("capability_ids", outside named stated)])
  else .ok ()

def normalize : Value → Value
  | .binary bytes => if (utf8 "sha256:").isPrefixOf bytes then .binary bytes else .binary (utf8 "sha256:" ++ bytes)
  | other => other

def subject (plan : BoundedPlan) : Except PlanPackage.Fault Unit :=
  let graph := normalize (plan.planPackage.get "source_graph_digest")
  let projection := plan.semanticSubject.get "projection_digest"
  if projection.equal false (plan.planPackage.get "plan_digest") &&
      (plan.semanticSubject.get "graph_digest").equal false graph then .ok ()
  else error "preflight_semantic_subject_mismatch" (.record
    [("subject_projection_digest", projection), ("plan_digest", plan.planPackage.get "plan_digest")])

def validate (plan : BoundedPlan) : Except PlanPackage.Fault Unit := do
  fence plan
  package host plan.planPackage
  present plan
  withinBounds plan
  steps plan
  subject plan

def preflight (plan : BoundedPlan) : Except PlanPackage.Fault Verdict := do
  validate host plan
  let fieldDigests ← fieldDigests host plan
  return ⟨← identityDigest host fieldDigests, plan.planPackage.get "plan_digest", fieldDigests, plan.workOrderDigest⟩

/-! ## Admission -/

/-- `preflight.field_digests || %{}`, which has to be a map. -/
def presentedDigests (verdict : Verdict) : Except PlanPackage.Fault Value :=
  if verdict.fieldDigests.falsy then .ok (.map [])
  else if verdict.fieldDigests.isMap then .ok verdict.fieldDigests
  else .error .raised

def sameIdentity (verdict : Verdict) (plan : BoundedPlan) : Except PlanPackage.Fault Unit := do
  let executing ← fieldDigests host plan
  let presented ← presentedDigests verdict
  let changed := (BoundedPlan.boundFields.map Prod.fst).filter fun name => ! (presented.get name).equal false (executing.get name)
  let forged := ! (← identityDigest host presented).equal false verdict.preflightDigest
  if changed = [] ∧ forged = false then .ok ()
  else error "preflight_identity_mismatch" (.record
    [("fields", atoms changed), ("forged_identity", .atom (if forged then "true" else "false")),
      ("preflighted", verdict.preflightDigest), ("executing", ← identityDigest host executing)])

def workOrderClaim (command : Value) : Value :=
  let metadata := command.get "metadata"
  if metadata.isMap then
    let claim := metadata.textGet "work_order_digest"
    if claim.falsy then metadata.get "work_order_digest" else claim
  else .nil

def workOrderBound (verdict : Verdict) (command : Value) : Except PlanPackage.Fault Unit :=
  let claimed := workOrderClaim command
  if claimed.equal true .nil || claimed.equal true verdict.workOrderDigest then .ok ()
  else error "preflight_work_order_mismatch" (.record
    [("plan_digest", verdict.planDigest), ("work_order_digest", claimed)])

/-- The command is any term; one without the two fields names no step. -/
def stepInPlan (plan : BoundedPlan) (command : Value) : Except PlanPackage.Fault Unit :=
  match command.member "capability_id", command.member "input" with
  | some capability, some input =>
    if (items plan.steps).any fun step =>
        (step.get "capability_id").equal false capability && (step.get "input").equal false input then .ok ()
    else error "preflight_step_not_in_plan" (.record [("capability_id", capability)])
  | _, _ => error "preflight_step_not_in_plan" (.record [("capability_id", .nil)])

def admitStep (verdict : Presented Verdict) (plan : Presented BoundedPlan) (command : Value) : Except PlanPackage.Fault Verdict :=
  match verdict, plan with
  | .absent, _ => error "preflight_required" (.text "a plan step must present the plan's preflight identity")
  | .given _, .absent => error "preflight_plan_missing" (.text "a preflight identity must travel with its executing plan")
  | .given verdict, .given plan => do
    sameIdentity host verdict plan
    validate host plan
    workOrderBound verdict command
    stepInPlan plan command
    return verdict
  | _, _ => error "preflight_identity_mismatch" (.text "preflight or plan is not a recognised structure")

end Preflight

end AshA2A.Planning
