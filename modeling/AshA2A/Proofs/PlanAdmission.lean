import AshA2A.Planning.Preflight
import AshA2A.Term
import Mathlib.Data.List.Nodup

/-! A step that is admitted is a step of the plan that was preflighted. -/

namespace AshA2A

namespace Value

mutual

theorem equal_self (exact : Bool) : (value : Value) → value.equal exact value = true
  | .atom _ | .integer _ | .float _ | .binary _ | .closed _ => by simp [equal]
  | .list items | .tuple items => by rw [equal, equalItems_self exact items]
  | .improper items tail => by rw [equal, equalItems_self exact items, equal_self exact tail]; rfl
  | .map entries => by rw [equal, equalEntries_self exact entries]
  | .struct _ fields => by rw [equal, equalFields_self exact fields]; simp

theorem equalItems_self (exact : Bool) : (items : List Value) → equalItems exact items items = true
  | [] => rfl
  | item :: items => by rw [equalItems, equal_self exact item, equalItems_self exact items]; rfl

theorem equalEntries_self (exact : Bool) : (entries : List (Value × Value)) → equalEntries exact entries entries = true
  | [] => rfl
  | (key, value) :: entries => by
    rw [equalEntries, equal_self true key, equal_self exact value, equalEntries_self exact entries]
    rfl

theorem equalFields_self (exact : Bool) : (fields : List (String × Value)) → equalFields exact fields fields = true
  | [] => rfl
  | (name, value) :: fields => by
    rw [equalFields, equal_self exact value, equalFields_self exact fields]
    simp

end

mutual

/-- Terms that are equal exactly are one term. -/
theorem eq_of_equal : (value other : Value) → value.equal true other = true → value = other
  | .list items, other, same => by
    cases other <;> simp only [equal, Bool.false_eq_true] at same
    rw [eq_of_equalItems items _ same]
  | .tuple items, other, same => by
    cases other <;> simp only [equal, Bool.false_eq_true] at same
    rw [eq_of_equalItems items _ same]
  | .improper items tail, other, same => by
    cases other <;> simp only [equal, Bool.false_eq_true, Bool.and_eq_true] at same
    rw [eq_of_equalItems items _ same.1, eq_of_equal tail _ same.2]
  | .map entries, other, same => by
    cases other <;> simp only [equal, Bool.false_eq_true] at same
    rw [eq_of_equalEntries entries _ same]
  | .struct module fields, other, same => by
    cases other <;> simp only [equal, Bool.false_eq_true, Bool.and_eq_true, decide_eq_true_eq] at same
    rw [same.1, eq_of_equalFields fields _ same.2]
  | .atom _, other, same | .integer _, other, same | .float _, other, same | .binary _, other, same
  | .closed _, other, same => by
    cases other <;> simp_all [equal]

theorem eq_of_equalItems : (items others : List Value) → equalItems true items others = true → items = others
  | [], [], _ => rfl
  | [], _ :: _, same => nomatch same
  | _ :: _, [], same => nomatch same
  | item :: items, other :: others, same => by
    rw [equalItems, Bool.and_eq_true] at same
    rw [eq_of_equal item other same.1, eq_of_equalItems items others same.2]

theorem eq_of_equalEntries : (entries others : List (Value × Value)) → equalEntries true entries others = true →
    entries = others
  | [], [], _ => rfl
  | [], _ :: _, same => nomatch same
  | _ :: _, [], same => nomatch same
  | (key, value) :: entries, (key', value') :: others, same => by
    rw [equalEntries, Bool.and_eq_true, Bool.and_eq_true] at same
    rw [eq_of_equal key key' same.1.1, eq_of_equal value value' same.1.2, eq_of_equalEntries entries others same.2]

theorem eq_of_equalFields : (fields others : List (String × Value)) → equalFields true fields others = true →
    fields = others
  | [], [], _ => rfl
  | [], _ :: _, same => nomatch same
  | _ :: _, [], same => nomatch same
  | (name, value) :: fields, (name', value') :: others, same => by
    rw [equalFields, Bool.and_eq_true, Bool.and_eq_true, decide_eq_true_eq] at same
    rw [same.1.1, eq_of_equal value value' same.1.2, eq_of_equalFields fields others same.2]

end

theorem equal_iff {value other : Value} : value.equal true other = true ↔ value = other :=
  ⟨eq_of_equal value other, fun same => same ▸ equal_self true value⟩

theorem equal_binary {exact : Bool} {bytes : Bytes} {other : Value} :
    (Value.binary bytes).equal exact other = true ↔ .binary bytes = other := by
  cases other <;> simp [equal]

/-- A record has each of its entries. -/
theorem get_record {entries : List (String × Value)} (distinct : (entries.map Prod.fst).Nodup) {name : String}
    {value : Value} (member : (name, value) ∈ entries) : (record entries).get name = value := by
  unfold record get Value.member
  dsimp only
  have listed : (Value.atom name, value) ∈
      (entries.insertionSort fun left right => left.1 ≤ right.1).map fun entry => (Value.atom entry.1, entry.2) :=
    List.mem_map.mpr ⟨(name, value), (List.mem_insertionSort _).mpr member, rfl⟩
  cases found : ((entries.insertionSort fun left right => left.1 ≤ right.1).map
      fun entry => (Value.atom entry.1, entry.2)).find? (hasKey name) with
  | none =>
    have missed := List.find?_eq_none.mp found _ listed
    simp [hasKey] at missed
  | some entry =>
    obtain ⟨own, ownMember, rfl⟩ := List.mem_map.mp (List.mem_of_find?_eq_some found)
    have named := List.find?_some found
    rw [hasKey, decide_eq_true_eq] at named
    have same : own = (name, value) :=
      List.inj_on_of_nodup_map distinct ((List.mem_insertionSort _).mp ownMember) member named
    rw [same]
    rfl

end Value

namespace Planning

open Semantic
open PlanPackage (error atoms failing every positive)

namespace BoundedPlan

theorem names_distinct : (boundFields.map Prod.fst).Nodup := by decide

theorem ext_bound {plan other : BoundedPlan} (same : ∀ field ∈ boundFields, field.2 plan = field.2 other) : plan = other := by
  cases plan
  cases other
  simp only [boundFields, List.forall_mem_cons, List.not_mem_nil, false_implies, implies_true, and_true] at same
  simp [same]

end BoundedPlan

namespace Preflight

open BoundedPlan (boundFields)

/-! ## Digests -/

section Digests

variable {host : Semantic.PlanPackage.Host} {plan : BoundedPlan}

/-- Every bound field has a canonical text. -/
def Digestible (host : Semantic.PlanPackage.Host) (plan : BoundedPlan) : Prop := ∀ field ∈ boundFields, (host.digest (field.2 plan)).isSome

theorem digest_ok {value digest : Value} (digested : Preflight.digest host value = .ok digest) :
    ∃ bytes, host.digest value = some bytes ∧ digest = .binary bytes := by
  unfold Preflight.digest at digested
  split at digested
  next bytes given => exact ⟨bytes, given, (Except.ok.inj digested).symm⟩
  next => cases digested

theorem digest_some {value : Value} {bytes : Bytes} (given : host.digest value = some bytes) :
    Preflight.digest host value = .ok (.binary bytes) := by
  rw [Preflight.digest, given]

theorem mapM_digests {fields : List (String × (BoundedPlan → Value))} {digests : List (String × Value)}
    (made : (fields.mapM fun (name, read) => do return (name, ← digest host (read plan))) = .ok digests) :
    digests.map Prod.fst = fields.map Prod.fst ∧ ∀ field ∈ fields, ∃ bytes, host.digest (field.2 plan) = some bytes ∧
      (field.1, .binary bytes) ∈ digests := by
  induction fields generalizing digests with
  | nil =>
    cases made
    exact ⟨rfl, nofun⟩
  | cons field fields ih =>
    rw [List.mapM_cons] at made
    obtain ⟨first, one, made⟩ := bind_ok_iff.mp made
    obtain ⟨others, rest, made⟩ := bind_ok_iff.mp made
    obtain ⟨digest, digested, one⟩ := bind_ok_iff.mp one
    cases made
    cases one
    obtain ⟨bytes, given, rfl⟩ := digest_ok digested
    obtain ⟨names, each⟩ := ih rest
    refine ⟨congrArg (field.1 :: ·) names, List.forall_mem_cons.mpr ⟨⟨bytes, given, List.mem_cons_self⟩, ?_⟩⟩
    intro other member
    obtain ⟨bytes, given, listed⟩ := each other member
    exact ⟨bytes, given, List.mem_cons_of_mem _ listed⟩

theorem mapM_digestible {fields : List (String × (BoundedPlan → Value))}
    (each : ∀ field ∈ fields, (host.digest (field.2 plan)).isSome) :
    ∃ digests, (fields.mapM fun (name, read) => do return (name, ← digest host (read plan))) = .ok digests := by
  induction fields with
  | nil => exact ⟨[], rfl⟩
  | cons field fields ih =>
    obtain ⟨first, rest⟩ := List.forall_mem_cons.mp each
    obtain ⟨bytes, given⟩ := Option.isSome_iff_exists.mp first
    obtain ⟨digests, made⟩ := ih rest
    obtain ⟨name, read⟩ := field
    refine ⟨(name, .binary bytes) :: digests, ?_⟩
    have given : host.digest (read plan) = some bytes := given
    simp only [List.mapM_cons, digest_some given, made]
    rfl

/-- The digests of a plan are kept under the names of its fields. -/
theorem fieldDigests_ok {digests : Value} (made : fieldDigests host plan = .ok digests) :
    (∃ entries, digests = .record entries) ∧ ∀ field ∈ boundFields, ∃ bytes, host.digest (field.2 plan) = some bytes ∧
      digests.get field.1 = .binary bytes := by
  unfold fieldDigests at made
  obtain ⟨entries, all, same⟩ := bind_ok_iff.mp made
  cases same
  obtain ⟨names, each⟩ := mapM_digests all
  refine ⟨⟨entries, rfl⟩, fun field member => ?_⟩
  obtain ⟨bytes, given, listed⟩ := each field member
  exact ⟨bytes, given, Value.get_record (names ▸ BoundedPlan.names_distinct) listed⟩

theorem fieldDigests_total (digestible : Digestible host plan) : ∃ digests, fieldDigests host plan = .ok digests := by
  obtain ⟨entries, made⟩ := mapM_digestible digestible
  exact ⟨.record entries, by unfold fieldDigests; rw [made]; rfl⟩

theorem mapM_raised {fields : List (String × (BoundedPlan → Value))} {fault : PlanPackage.Fault}
    (failed : (fields.mapM fun (name, read) => do return (name, ← digest host (read plan))) = .error fault) :
    fault = .raised := by
  induction fields with
  | nil => cases failed
  | cons field fields ih =>
    obtain ⟨name, read⟩ := field
    cases given : host.digest (read plan) with
    | none =>
      have raised : digest host (read plan) = .error .raised := by rw [digest, given]
      simp only [List.mapM_cons, raised] at failed
      exact (Except.error.inj failed).symm
    | some bytes =>
      simp only [List.mapM_cons, digest_some given] at failed
      cases rest : fields.mapM fun (name, read) => do return (name, ← digest host (read plan)) with
      | error other =>
        simp only [rest] at failed
        cases failed
        exact ih rest
      | ok digests =>
        simp only [rest] at failed
        cases failed

/-- A term without a canonical text is never refused: it raises. -/
theorem raised_of_error {fault : PlanPackage.Fault} (failed : fieldDigests host plan = .error fault) : fault = .raised := by
  unfold fieldDigests at failed
  cases all : BoundedPlan.boundFields.mapM fun (name, read) => do return (name, ← digest host (read plan)) with
  | error other =>
    rw [all] at failed
    cases failed
    exact mapM_raised all
  | ok digests =>
    rw [all] at failed
    cases failed

theorem digestible_of_ok {digests : Value} (made : fieldDigests host plan = .ok digests) : Digestible host plan := by
  intro field member
  obtain ⟨bytes, given, _⟩ := (fieldDigests_ok made).2 field member
  rw [given]
  rfl

end Digests

/-! ## What validation has seen -/

section Contained

/-- Both are integers, and the first is at most the second. -/
def AtMost (value limit : Value) : Prop := ∃ small large, value = .integer small ∧ limit = .integer large ∧ small ≤ large

/-- Steps and bounds lie within the package. -/
structure Contained (plan : BoundedPlan) : Prop where
  list : ∃ items, plan.steps = .list items
  capabilities : ∀ step ∈ items plan.steps, step.get "capability_id" ∈ items (plan.planPackage.get "required_capabilities")
  stated : ∀ step ∈ items plan.steps, ∃ requirement ∈ items plan.authorityRequirement,
    requirement.get "capability_id" = step.get "capability_id"
  count : AtMost (.integer (items plan.steps).length) plan.fanOut
  fanOut : AtMost plan.fanOut (plan.planPackage.get "max_fan_out")
  depth : AtMost plan.cascadeDepth (plan.planPackage.get "max_depth")
  parallelism : AtMost plan.parallelism (plan.planPackage.get "max_parallelism")
  retries : ∃ retries, plan.retryCount = .integer retries ∧
    AtMost (.integer ((items plan.steps).length * (retries + 1))) (plan.resourceBudget.get "max_invocations")
  invocations : AtMost (plan.resourceBudget.get "max_invocations")
    ((plan.planPackage.get "resource_envelope").get "max_invocations")
  wall : AtMost (plan.resourceBudget.get "max_wall_ms") ((plan.planPackage.get "resource_envelope").get "max_wall_ms")
  external : AtMost plan.externalRequestCount (plan.resourceBudget.get "max_external_requests")
  subject : plan.semanticSubject.get "projection_digest" = plan.planPackage.get "plan_digest"

theorem failing_nil {checks : List (String × Bool)} (none : failing checks = []) : ∀ check ∈ checks, check.2 = true := by
  intro check member
  by_contra fails
  have listed : check.1 ∈ failing checks :=
    List.mem_map_of_mem (List.mem_filter.mpr ⟨member, by simpa using fails⟩)
  rw [none] at listed
  exact absurd listed List.not_mem_nil

theorem integer_of_positive {value : Value} (fits : positive value = true) : value = .integer (amount value) := by
  cases value <;> first | rfl | cases fits

theorem integer_of_nonNegative {value : Value} (fits : nonNegative value = true) : value = .integer (amount value) := by
  cases value <;> first | rfl | cases fits

theorem atMost_of_amount {value limit : Value} (whole : value = .integer (amount value))
    (bound : limit = .integer (amount limit)) (within : amount value ≤ amount limit) : AtMost value limit :=
  ⟨amount value, amount limit, whole, bound, within⟩

variable {host : Semantic.PlanPackage.Host} {plan : BoundedPlan}

theorem ok_of_guard {α : Type} {names : List α} {refusal : Except PlanPackage.Fault Unit} (passed : (if names = [] then .ok () else refusal) = .ok ())
    (refuses : refusal ≠ .ok ()) : names = [] := by
  by_contra some
  rw [if_neg some] at passed
  exact refuses passed

theorem within_ok {code : String} {result : Except PlanPackage.Fault Unit} (passed : within code result = .ok ()) : result = .ok () := by
  unfold within at passed
  split at passed
  · cases passed
  · exact passed

/-- The package is one, with its strict bounds. -/
theorem package_ok {package : Value} (passed : Preflight.package host package = .ok ()) :
    positive (package.get "max_fan_out") = true ∧ positive (package.get "max_depth") = true ∧
      positive (package.get "max_parallelism") = true ∧
        positive ((package.get "resource_envelope").get "max_invocations") = true ∧
          positive ((package.get "resource_envelope").get "max_wall_ms") = true := by
  unfold Preflight.package at passed
  split at passed
  next fields =>
    dsimp only at passed
    obtain ⟨_, _, passed⟩ := bind_ok_iff.mp passed
    have strict := within_ok passed
    unfold Semantic.PlanPackage.enforceStrict at strict
    dsimp only at strict
    split at strict
    · obtain ⟨_, _, strict⟩ := bind_ok_iff.mp strict
      obtain ⟨_, bounds, strict⟩ := bind_ok_iff.mp strict
      obtain ⟨_, envelope, _⟩ := bind_ok_iff.mp strict
      unfold Semantic.PlanPackage.positiveBounds at bounds
      have bounds := ok_of_guard bounds nofun
      unfold Semantic.PlanPackage.envelope at envelope
      split at envelope
      · have envelope := ok_of_guard envelope nofun
        simp [Semantic.PlanPackage.requiredEnvelopeKeys] at bounds envelope
        exact ⟨bounds.1, bounds.2.1, bounds.2.2, envelope.2.2, envelope.1⟩
      · cases envelope
    · cases strict
  next => cases passed

theorem among_iff {capability : Value} {capabilities : List Value} : among capability capabilities = true ↔ capability ∈ capabilities := by
  simp [among, Value.equal_iff]

theorem mem_of_distinct {values : List Value} : ∀ value ∈ distinct values, value ∈ values := by
  have kept (rest seen : List Value) : ∀ value ∈ rest.foldl (fun seen value => if among value seen then seen else seen ++ [value]) seen,
      value ∈ seen ∨ value ∈ rest := by
    induction rest generalizing seen with
    | nil => exact fun value member => .inl member
    | cons first rest ih =>
      intro value member
      rcases ih _ value member with earlier | later
      · dsimp only at earlier
        split at earlier
        · exact .inl earlier
        · rcases List.mem_append.mp earlier with old | new
          · exact .inl old
          · exact .inr (List.mem_singleton.mp new ▸ List.mem_cons_self)
      · exact .inr (List.mem_cons_of_mem _ later)
  exact fun value member => (kept values [] value member).resolve_left List.not_mem_nil

theorem steps_ok (passed : Preflight.steps plan = .ok ()) :
    (∀ step ∈ items plan.steps, step.get "capability_id" ∈ items (plan.planPackage.get "required_capabilities")) ∧
      ∀ step ∈ items plan.steps, ∃ requirement ∈ items plan.authorityRequirement,
        requirement.get "capability_id" = step.get "capability_id" := by
  unfold Preflight.steps at passed
  dsimp only at passed
  split at passed
  · cases passed
  split at passed
  · cases passed
  next required =>
    split at passed
    · cases passed
    next stated =>
      simp only [List.any_map, List.any_eq_true, Function.comp_apply, Bool.not_eq_true', not_exists, not_and,
        Bool.not_eq_false, among_iff] at required stated
      refine ⟨fun step member => mem_of_distinct _ (required step member), fun step member => ?_⟩
      obtain ⟨requirement, listed, same⟩ := List.mem_map.mp (mem_of_distinct _ (stated step member))
      exact ⟨requirement, listed, same⟩

theorem subject_ok (passed : Preflight.subject plan = .ok ()) (digested : (plan.planPackage.get "plan_digest").isBinary) :
    plan.semanticSubject.get "projection_digest" = plan.planPackage.get "plan_digest" := by
  unfold Preflight.subject at passed
  dsimp only at passed
  split at passed
  next both =>
    have first := (Bool.and_eq_true _ _ ▸ both : _ ∧ _).1
    cases given : plan.planPackage.get "plan_digest" with
    | binary bytes =>
      rw [given] at first
      cases shown : plan.semanticSubject.get "projection_digest" <;> rw [shown] at first <;> simp_all [Value.equal]
    | _ => rw [given] at digested; cases digested
  next => cases passed

/-- The digest of a package that verifies is a binary. -/
theorem digest_of_package {package : Value} (passed : Preflight.package host package = .ok ()) :
    (package.get "plan_digest").isBinary := by
  unfold Preflight.package at passed
  split at passed
  next fields =>
    obtain ⟨_, verified, _⟩ := bind_ok_iff.mp passed
    have verified := within_ok verified
    unfold Semantic.PlanPackage.verify at verified
    obtain ⟨digest, _, verified⟩ := bind_ok_iff.mp verified
    split at verified
    · cases verified
    next same =>
      rw [Bool.not_eq_false, Value.equal_binary] at same
      show (Value.get (.struct Semantic.PlanPackage.module fields) "plan_digest").isBinary
      rw [← same]
      rfl
  next => cases passed

theorem validate_ok (passed : validate host plan = .ok ()) : Contained plan := by
  unfold validate at passed
  obtain ⟨_, _, passed⟩ := bind_ok_iff.mp passed
  obtain ⟨_, package, passed⟩ := bind_ok_iff.mp passed
  obtain ⟨_, present, passed⟩ := bind_ok_iff.mp passed
  obtain ⟨_, bounds, passed⟩ := bind_ok_iff.mp passed
  obtain ⟨_, steps, subject⟩ := bind_ok_iff.mp passed
  obtain ⟨maxFanOut, maxDepth, maxParallelism, maxInvocations, maxWall⟩ := package_ok package
  unfold Preflight.present at present
  obtain ⟨_, _, present⟩ := bind_ok_iff.mp present
  have present := failing_nil (ok_of_guard present nofun)
  simp only [List.forall_mem_cons, List.not_mem_nil, false_implies, implies_true, and_true, Bool.and_eq_true, budgetKeys,
    List.all_cons, List.all_nil] at present
  obtain ⟨_, fanOut, depth, parallelism, retry, ⟨_, invocations, wall, requests⟩, external, _, _, _⟩ := present
  unfold withinBounds at bounds
  obtain ⟨count, counted, bounds⟩ := bind_ok_iff.mp bounds
  have bounds := failing_nil (ok_of_guard bounds nofun)
  simp only [List.forall_mem_cons, List.not_mem_nil, false_implies, implies_true, and_true, Bool.and_eq_true,
    decide_eq_true_eq] at bounds
  obtain ⟨⟨counts, fan⟩, cascade, parallel, retries, ⟨invoked, walled⟩, requested⟩ := bounds
  unfold Preflight.length at counted
  split at counted
  next stepItems list =>
    cases counted
    have listed : items plan.steps = stepItems := by rw [list]; rfl
    obtain ⟨capabilities, stated⟩ := steps_ok steps
    refine ⟨⟨stepItems, list⟩, capabilities, stated, ?_, ?_, ?_, ?_, ?_, ?_, ?_, ?_, subject_ok subject (digest_of_package package)⟩
    · exact ⟨_, _, rfl, integer_of_positive fanOut, listed ▸ counts⟩
    · exact atMost_of_amount (integer_of_positive fanOut) (integer_of_positive maxFanOut) fan
    · exact atMost_of_amount (integer_of_nonNegative depth) (integer_of_positive maxDepth) cascade
    · exact atMost_of_amount (integer_of_positive parallelism) (integer_of_positive maxParallelism) parallel
    · exact ⟨_, integer_of_nonNegative retry, _, _, rfl, integer_of_nonNegative invocations, listed ▸ retries⟩
    · exact atMost_of_amount (integer_of_nonNegative invocations) (integer_of_positive maxInvocations) invoked
    · exact atMost_of_amount (integer_of_nonNegative wall) (integer_of_positive maxWall) walled
    · exact atMost_of_amount (integer_of_nonNegative external) (integer_of_nonNegative requests) requested
  next => cases counted

end Contained

/-! ## Admission -/

/-- A command that claims no work order, or the one that was preflighted. -/
def Unclaimed (verdict : Verdict) (command : Value) : Prop :=
  workOrderClaim command = .nil ∨ workOrderClaim command = verdict.workOrderDigest

/-- The command names a step, as the language compares terms: an integer is equal to a float. -/
def Alike (plan : BoundedPlan) (command : Value) : Prop :=
  ∃ capability input, command.member "capability_id" = some capability ∧ command.member "input" = some input ∧
    ∃ step ∈ items plan.steps, (step.get "capability_id").equal false capability ∧ (step.get "input").equal false input

/-- The command carries the capability and the input of the step. -/
def Carries (command step : Value) : Prop :=
  command.member "capability_id" = some (step.get "capability_id") ∧ command.member "input" = some (step.get "input")

def Listed (plan : BoundedPlan) (command : Value) : Prop := ∃ step ∈ items plan.steps, Carries command step

/-- The names of the fields that are not what they were. -/
def Changed (plan executing : BoundedPlan) (names : List String) : Prop :=
  ∀ field ∈ boundFields, field.1 ∈ names ↔ field.2 plan ≠ field.2 executing

/-- What is admitted is the preflighted plan and one of its steps, within the package; a changed plan is
refused by name, and an unchanged one has each of its steps admitted. -/
structure Binds (host : Semantic.PlanPackage.Host) (verdict : Verdict) (plan executing : BoundedPlan) (command : Value) : Prop where
  same : ∀ result, admitStep host (.given verdict) (.given executing) command = .ok result →
    executing = plan ∧ Contained executing ∧ Listed executing command
  refused : executing ≠ plan → ∃ names detail, Changed plan executing names ∧
    detail.get "fields" = atoms names ∧
      admitStep host (.given verdict) (.given executing) command = error "preflight_identity_mismatch" detail
  admitted : executing = plan → ∀ step ∈ items plan.steps, ∀ command, Carries command step → Unclaimed verdict command →
    admitStep host (.given verdict) (.given executing) command = .ok verdict

section Admission

variable {host : Semantic.PlanPackage.Host} {plan executing : BoundedPlan} {verdict : Verdict} {command : Value}

theorem preflight_ok (issued : preflight host plan = .ok verdict) : validate host plan = .ok () ∧
    fieldDigests host plan = .ok verdict.fieldDigests ∧
      identityDigest host verdict.fieldDigests = .ok verdict.preflightDigest := by
  unfold preflight at issued
  obtain ⟨_, validated, issued⟩ := bind_ok_iff.mp issued
  obtain ⟨digests, made, issued⟩ := bind_ok_iff.mp issued
  obtain ⟨identity, identified, issued⟩ := bind_ok_iff.mp issued
  cases issued
  exact ⟨validated, made, identified⟩

theorem presented_issued (made : fieldDigests host plan = .ok verdict.fieldDigests) :
    presentedDigests verdict = .ok verdict.fieldDigests := by
  obtain ⟨entries, same⟩ := (fieldDigests_ok made).1
  unfold presentedDigests
  rw [same]
  rfl

theorem digest_equal_iff {first second : Bytes} : (Value.binary first).equal false (.binary second) = true ↔ first = second := by
  simp [Value.equal]

/-- Fields with one digest are one field. -/
def CollisionFree (host : Semantic.PlanPackage.Host) (plan executing : BoundedPlan) : Prop := ∀ field ∈ boundFields, ∀ digest,
  host.digest (field.2 plan) = some digest → host.digest (field.2 executing) = some digest → field.2 plan = field.2 executing

/-- The fields whose digests differ are those that changed. -/
theorem changed_fields (collisionFree : CollisionFree host plan executing) {digests executed : Value}
    (made : fieldDigests host plan = .ok digests) (remade : fieldDigests host executing = .ok executed) :
    Changed plan executing ((boundFields.map Prod.fst).filter fun name =>
      ! (digests.get name).equal false (executed.get name)) := by
  intro field member
  obtain ⟨bytes, given, shown⟩ := (fieldDigests_ok made).2 field member
  obtain ⟨bytes', given', shown'⟩ := (fieldDigests_ok remade).2 field member
  rw [List.mem_filter, and_iff_right (List.mem_map_of_mem member), shown, shown', Bool.not_eq_true',
    ← Bool.not_eq_true, digest_equal_iff]
  refine not_congr ⟨fun same => ?_, fun same => ?_⟩
  · subst same
    exact collisionFree field member bytes given given'
  · rw [same] at given
    exact Option.some.inj (given.symm.trans given')

theorem eq_of_changed_nil {names : List String} (changed : Changed plan executing names) (none : names = []) :
    executing = plan := by
  refine BoundedPlan.ext_bound fun field member => ?_
  by_contra differs
  have listed := (changed field member).mpr (Ne.symm differs)
  rw [none] at listed
  exact absurd listed List.not_mem_nil

theorem sameIdentity_self (issued : preflight host plan = .ok verdict) : sameIdentity host verdict plan = .ok () := by
  obtain ⟨_, made, identified⟩ := preflight_ok issued
  unfold sameIdentity
  rw [made, presented_issued made]
  simp only [Bind.bind, Except.bind, identified, Value.equal_self, Bool.not_true, List.filter_false]
  exact if_pos ⟨trivial, trivial⟩

/-- A plan that changed is refused, and what changed in it is named. -/
theorem sameIdentity_changed (issued : preflight host plan = .ok verdict) (collisionFree : CollisionFree host plan executing)
    (identified : ∀ digests, fieldDigests host executing = .ok digests → (host.digest (.record [("preflight", digests)])).isSome)
    (other : executing ≠ plan) (digestible : Digestible host executing) : ∃ names detail, Changed plan executing names ∧
      detail.get "fields" = atoms names ∧ sameIdentity host verdict executing = error "preflight_identity_mismatch" detail := by
  obtain ⟨_, made, own⟩ := preflight_ok issued
  obtain ⟨executed, remade⟩ := fieldDigests_total digestible
  obtain ⟨identity, hashed⟩ := Option.isSome_iff_exists.mp (identified executed remade)
  have changed := changed_fields collisionFree made remade
  have some := mt (eq_of_changed_nil changed) other
  have hashed : identityDigest host executed = .ok (.binary identity) := digest_some hashed
  refine ⟨_, .record [("fields", atoms _), ("forged_identity", .atom "false"), ("preflighted", verdict.preflightDigest),
    ("executing", .binary identity)], changed, Value.get_record (by simp) List.mem_cons_self, ?_⟩
  unfold sameIdentity
  rw [remade, presented_issued made]
  simp only [Bind.bind, Except.bind, own, hashed, some, false_and, if_false, Value.equal_self, Bool.not_true,
    Bool.false_eq_true]

theorem sameIdentity_ok (issued : preflight host plan = .ok verdict) (collisionFree : CollisionFree host plan executing)
    (passed : sameIdentity host verdict executing = .ok ()) : executing = plan := by
  obtain ⟨_, made, _⟩ := preflight_ok issued
  unfold sameIdentity at passed
  obtain ⟨executed, remade, passed⟩ := bind_ok_iff.mp passed
  rw [presented_issued made] at passed
  obtain ⟨_, same, passed⟩ := bind_ok_iff.mp passed
  cases same
  obtain ⟨identity, _, passed⟩ := bind_ok_iff.mp passed
  dsimp only at passed
  split at passed
  next both => exact eq_of_changed_nil (changed_fields collisionFree made remade) both.1
  next =>
    obtain ⟨_, _, passed⟩ := bind_ok_iff.mp passed
    cases passed

theorem workOrderBound_iff : workOrderBound verdict command = .ok () ↔ Unclaimed verdict command := by
  unfold workOrderBound Unclaimed
  dsimp only
  rw [← Value.equal_iff, ← Value.equal_iff, ← Bool.or_eq_true]
  split
  next both => exact iff_of_true rfl both
  next neither => exact iff_of_false nofun neither

theorem stepInPlan_iff : stepInPlan executing command = .ok () ↔ Alike executing command := by
  unfold stepInPlan Alike
  split
  next capability input named given =>
    split
    next found =>
      obtain ⟨step, member, both⟩ := List.any_eq_true.mp found
      exact iff_of_true rfl ⟨capability, input, named, given, step, member, (Bool.and_eq_true _ _ ▸ both : _ ∧ _)⟩
    next missing =>
      refine iff_of_false nofun ?_
      rintro ⟨_, _, same, same', step, member, both⟩
      cases named.symm.trans same
      cases given.symm.trans same'
      exact missing (List.any_eq_true.mpr ⟨step, member, (Bool.and_eq_true _ _).mpr both⟩)
  next unnamed =>
    refine iff_of_false nofun ?_
    rintro ⟨capability, input, named, given, _⟩
    exact unnamed capability input named given

theorem admitStep_ok {result : Verdict} :
    admitStep host (.given verdict) (.given executing) command = .ok result ↔ sameIdentity host verdict executing = .ok () ∧
      validate host executing = .ok () ∧ Unclaimed verdict command ∧ Alike executing command ∧ verdict = result := by
  rw [← workOrderBound_iff, ← stepInPlan_iff]
  unfold admitStep
  constructor
  · intro admitted
    obtain ⟨_, same, admitted⟩ := bind_ok_iff.mp admitted
    obtain ⟨_, valid, admitted⟩ := bind_ok_iff.mp admitted
    obtain ⟨_, unclaimed, admitted⟩ := bind_ok_iff.mp admitted
    obtain ⟨_, listed, admitted⟩ := bind_ok_iff.mp admitted
    exact ⟨same, valid, unclaimed, listed, Except.ok.inj admitted⟩
  · rintro ⟨same, valid, unclaimed, listed, rfl⟩
    simp only [same, valid, unclaimed, listed]
    rfl

theorem alike_of_carries {step : Value} (member : step ∈ items executing.steps) (carries : Carries command step) :
    Alike executing command :=
  ⟨_, _, carries.1, carries.2, step, member, Value.equal_self false _, Value.equal_self false _⟩

/-- Only a plan with digests is refused: another one raises. -/
theorem digestible_of_refused {code : String} {detail : Value}
    (refused : admitStep host (.given verdict) (.given executing) command = error code detail) : Digestible host executing := by
  unfold admitStep sameIdentity at refused
  dsimp only at refused
  cases made : fieldDigests host executing with
  | error fault =>
    rw [made, raised_of_error made] at refused
    cases refused
  | ok digests => exact digestible_of_ok made

/-- A verdict binds the executing plan and the command exactly where a plan that changed has a digest,
and a command that names a step of an unchanged one does so exactly, and not only as a number of the
other kind. -/
theorem admission_binds (issued : preflight host plan = .ok verdict) (collisionFree : CollisionFree host plan executing)
    (identified : ∀ digests, fieldDigests host executing = .ok digests → (host.digest (.record [("preflight", digests)])).isSome) :
    Binds host verdict plan executing command ↔ (executing ≠ plan → Digestible host executing) ∧
      (executing = plan → Unclaimed verdict command → Alike executing command → Listed executing command) := by
  have valid := (preflight_ok issued).1
  have self := sameIdentity_self issued
  constructor
  · intro binds
    refine ⟨fun other => ?_, fun same unclaimed alike => ?_⟩
    · obtain ⟨_, _, _, _, refused⟩ := binds.refused other
      exact digestible_of_refused refused
    · subst same
      exact (binds.same verdict (admitStep_ok.mpr ⟨self, valid, unclaimed, alike, rfl⟩)).2.2
  · rintro ⟨digestible, exactly⟩
    refine ⟨fun result admitted => ?_, fun other => ?_, ?_⟩
    · obtain ⟨passed, contained, unclaimed, alike, _⟩ := admitStep_ok.mp admitted
      have same := sameIdentity_ok issued collisionFree passed
      exact ⟨same, validate_ok contained, exactly same unclaimed alike⟩
    · obtain ⟨names, detail, changed, shown, refused⟩ :=
        sameIdentity_changed issued collisionFree identified other (digestible other)
      refine ⟨names, detail, changed, shown, ?_⟩
      unfold admitStep
      dsimp only
      rw [refused]
      rfl
    · rintro rfl step member command carries unclaimed
      exact admitStep_ok.mpr ⟨self, valid, unclaimed, alike_of_carries member carries, rfl⟩

end Admission

/-! ## A plan of one step -/

mutual

/-- A canonical text, where there is one. -/
def spelled : Value → Option Bytes
  | .atom name => some (utf8 (":" ++ name))
  | .integer value => some (utf8 value.repr)
  | .float value => some (utf8 (value.num.repr ++ "/" ++ value.den.repr))
  | .binary bytes => some (utf8 "\"" ++ bytes ++ utf8 "\"")
  | .closed _ | .improper _ _ => none
  | .list items => (spelledItems items).map fun text => utf8 "[" ++ text ++ utf8 "]"
  | .tuple items => (spelledItems items).map fun text => utf8 "(" ++ text ++ utf8 ")"
  | .map entries => (spelledEntries entries).map fun text => utf8 "\x7b" ++ text ++ utf8 "\x7d"
  | .struct module fields => (spelledFields fields).map fun text => utf8 "%" ++ utf8 module ++ text

def spelledItems : List Value → Option Bytes
  | [] => some []
  | item :: items => do return (← spelled item) ++ utf8 "," ++ (← spelledItems items)

def spelledEntries : List (Value × Value) → Option Bytes
  | [] => some []
  | (key, value) :: entries => do
    return (← spelled key) ++ utf8 "=" ++ (← spelled value) ++ utf8 "," ++ (← spelledEntries entries)

def spelledFields : List (String × Value) → Option Bytes
  | [] => some []
  | (name, value) :: fields => do
    return utf8 name ++ utf8 "=" ++ (← spelled value) ++ utf8 "," ++ (← spelledFields fields)

end

def plainHost : Semantic.PlanPackage.Host := ⟨spelled, fun _ => []⟩

def samplePackage (digest : Value) : Value :=
  .struct Semantic.PlanPackage.module
    [("semantic_goal", .text "goal"), ("initial_state_identity", .text "state"), ("planning_domain_identity", .text "domain"),
      ("planner_identity", .text "planner"), ("source_graph_digest", .text "00"), ("projection_digest", .text "11"),
      ("plan_digest", digest), ("consequence_class", .atom "read"), ("max_fan_out", .integer 1), ("max_depth", .integer 1),
      ("max_parallelism", .integer 1),
      ("resource_envelope",
        .record [("max_wall_ms", .integer 1), ("max_memory_bytes", .integer 1), ("max_invocations", .integer 1)]),
      ("profile", .atom "strict"), ("method_identities", .list []), ("action_identities", .list [.text "act"]),
      ("preconditions", .list []), ("effects", .list [.tuple [.text "done", .list []]]),
      ("nondeterministic_outcomes", .list []), ("required_capabilities", .list [.text "act"]),
      ("authority_requirements", .list [.record [("capability_id", .text "act")]]),
      ("receipt_obligations", .list [.atom "receipt"]),
      ("standing", .atom "candidate"), ("authority", .atom "none")]

def sampleDigest : Value := .binary ((Semantic.PlanPackage.contentDigest plainHost (samplePackage .nil)).toOption.getD [])

def step (input : Value) : Value := .record [("capability_id", .text "act"), ("input", .record [("amount", input)])]

def samplePlan (input : Value) : BoundedPlan where
  planPackage := samplePackage sampleDigest
  steps := .list [step input]
  fanOut := .integer 1
  cascadeDepth := .integer 0
  parallelism := .integer 1
  retryCount := .integer 0
  resourceBudget :=
    .record [("max_invocations", .integer 1), ("max_wall_ms", .integer 1), ("max_external_requests", .integer 0)]
  externalRequestCount := .integer 0
  financialEnvelope := .record [("currency", .text "EUR"), ("max_minor_units", .integer 0)]
  authorityRequirement := .list [.record [("capability_id", .text "act")]]
  semanticSubject :=
    .struct "AshA2A.SemanticSubject" [("graph_digest", .text "sha256:00"), ("projection_digest", sampleDigest)]

theorem sample_issued : ∃ verdict, preflight plainHost (samplePlan (.integer 1)) = .ok verdict := by
  have issued : (preflight plainHost (samplePlan (.integer 1))).toOption.isSome = true := by decide +kernel
  cases given : preflight plainHost (samplePlan (.integer 1)) with
  | ok verdict => exact ⟨verdict, rfl⟩
  | error fault => rw [given] at issued; cases issued

theorem sample_listed : Listed (samplePlan (.integer 1)) (step (.integer 1)) :=
  ⟨step (.integer 1), List.mem_singleton.mpr rfl, rfl, rfl⟩

theorem sample_binds : ∃ verdict, preflight plainHost (samplePlan (.integer 1)) = .ok verdict ∧
    Binds plainHost verdict (samplePlan (.integer 1)) (samplePlan (.integer 1)) (step (.integer 1)) := by
  obtain ⟨verdict, issued⟩ := sample_issued
  refine ⟨verdict, issued, (admission_binds issued (fun _ _ _ _ _ => rfl) fun digests made => ?_).mpr
    ⟨fun other => absurd rfl other, fun _ _ _ => sample_listed⟩⟩
  obtain ⟨_, own, identified⟩ := preflight_ok issued
  cases own.symm.trans made
  obtain ⟨bytes, given, _⟩ := digest_ok identified
  rw [given]
  rfl

/-- A plan whose step was given a process raises, and a float is admitted for an integer. -/
theorem sample_unbound : ∃ verdict, preflight plainHost (samplePlan (.integer 1)) = .ok verdict ∧
    ¬ Binds plainHost verdict (samplePlan (.integer 1)) (samplePlan (.closed 0)) (step (.integer 1)) ∧
      ¬ Binds plainHost verdict (samplePlan (.integer 1)) (samplePlan (.integer 1)) (step (.float 1)) := by
  obtain ⟨verdict, issued⟩ := sample_issued
  refine ⟨verdict, issued, fun binds => ?_, fun binds => ?_⟩
  · have other : samplePlan (.closed 0) ≠ samplePlan (.integer 1) := by
      intro same
      have steps := Value.equal_iff.mpr (congrArg BoundedPlan.steps same)
      revert steps
      decide
    obtain ⟨_, _, _, _, refused⟩ := binds.refused other
    have steps := digestible_of_refused refused ("steps", BoundedPlan.steps) (by simp [boundFields])
    revert steps
    decide
  · have alike : Alike (samplePlan (.integer 1)) (step (.float 1)) :=
      ⟨.text "act", .record [("amount", .float 1)], rfl, rfl, step (.integer 1), List.mem_singleton.mpr rfl,
        by decide, by decide⟩
    have admitted := admitStep_ok.mpr ⟨sameIdentity_self issued, (preflight_ok issued).1, .inl rfl, alike, rfl⟩
    obtain ⟨planned, member, _, input⟩ := (binds.same verdict admitted).2.2
    cases List.mem_singleton.mp member
    have inputs := Value.equal_iff.mpr (Option.some.inj input)
    revert inputs
    decide

end Preflight

end Planning

end AshA2A
