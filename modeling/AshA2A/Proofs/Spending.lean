import AshA2A.Outcome
import AshA2A.Semantic.Allocator
import Mathlib.Algebra.BigOperators.Group.List.Basic
import Mathlib.Algebra.GroupWithZero.Nat

/-! What is spent of a budget over whole runs, and who can raise its limits. -/

namespace AshA2A.Semantic.Allocator

/-- An allocation that was granted, and the minimum that stood then. -/
structure Grant where
  dimension : Dimension
  requested : Nat
  minimum : Nat
  deriving Repr, DecidableEq

def Grant.charge (grant : Grant) : Nat := max grant.requested grant.minimum

/-- What the grants of one dimension come to. -/
def charges (grants : List Grant) (dimension : Dimension) : Nat :=
  ((grants.filter fun grant => grant.dimension = dimension).map Grant.charge).sum

def Issuer.NonModel {τ : Type} : Issuer τ → Prop
  | .host _ => True
  | .authority source => source ≠ "model"
  | _ => False

section Calls
variable {τ : Type} {budget next : Budget τ} {refusal : Refusal τ}

theorem Budget.spent_put (dimension other : Dimension) (amount : Nat) :
    ({ budget with consumed := put budget.consumed dimension amount } : Budget τ).spent other =
      if other = dimension then amount else budget.spent other := by
  show (if other = dimension then some amount else budget.consumed other).getD 0 = _
  split <;> rfl

theorem atLeast_zero {amount : Amount τ} {requested : Nat} (natural : amount.atLeast 0 = some requested) :
    amount = .integer requested := by
  cases amount with
  | term other => cases natural
  | integer value =>
    change (if (0 : Int) ≤ value then some value.toNat else none) = some requested at natural
    split at natural
    case isFalse => cases natural
    case isTrue positive =>
      cases natural
      rw [Int.toNat_of_nonneg positive]

namespace Budget

def limit (budget : Budget τ) (dimension : Dimension) : Nat := (budget.limits dimension).getD 0

/-! ### Single calls -/

theorem allocate_ok {dimension : Named τ} {amount : Amount τ} {now : Int} (passed : budget.allocate dimension amount now = .ok next) :
    ∃ (own : Dimension) (requested : Nat), dimension = .dimension own ∧ amount = .integer requested ∧
      budget.spent own + max requested (budget.minimum own) ≤ budget.limit own ∧
      next = { budget with consumed := put budget.consumed own (budget.spent own + max requested (budget.minimum own)) } := by
  cases dimension with
  | authority => cases passed
  | term other => cases passed
  | dimension own =>
    unfold allocate at passed
    cases natural : amount.atLeast 0 with
    | none => simp only [natural] at passed; cases passed
    | some requested =>
      simp only [natural] at passed
      obtain ⟨_, _, passed⟩ := bind_ok_iff.mp passed
      obtain ⟨limit, found, passed⟩ := bind_ok_iff.mp passed
      have budgeted : budget.limit own = limit := by
        unfold fetchLimit at found
        cases given : budget.limits own with
        | none => rw [given] at found; cases found
        | some known => rw [given] at found; cases found; rw [Budget.limit, given]; rfl
      split at passed
      · cases passed
      · refine ⟨own, requested, rfl, atLeast_zero natural, ?_, (Except.ok.inj passed).symm⟩
        omega

theorem validateIssuer_ok {issuer : Issuer τ} (passed : validateIssuer issuer = .ok ()) : issuer.NonModel := by
  cases issuer with
  | host identity => trivial
  | authority source =>
    change (if source = "model" then .error Refusal.modelIssuedBudgetRefused else .ok ()) = Except.ok () at passed
    split at passed
    case isTrue => cases passed
    case isFalse other => exact other
  | model identity => cases passed
  | other term => cases passed

theorem mem_dimensions (dimension : Dimension) : dimension ∈ dimensions := by
  cases dimension <;> decide

theorem covers_ok {newLimits : Amounts} (passed : budget.validateReissueCoversConsumed newLimits = .ok ()) (dimension : Dimension) :
    budget.spent dimension ≤ (newLimits dimension).getD 0 := by
  unfold validateReissueCoversConsumed at passed
  split at passed
  case h_2 => cases passed
  case h_1 none =>
    have covered := List.filterMap_eq_nil_iff.mp none dimension (mem_dimensions dimension)
    unfold spent
    cases spent : budget.consumed dimension with
    | none => exact Nat.zero_le _
    | some amount =>
      cases limited : newLimits dimension with
      | none =>
        simp only [spent, limited] at covered
        split at covered
        case isTrue => cases covered
        case isFalse small => exact Nat.le_of_not_lt small
      | some limit =>
        simp only [spent, limited] at covered
        split at covered
        case isTrue => cases covered
        case isFalse small => exact Nat.le_of_not_lt small

end Budget

variable [DecidableEq τ]

namespace Budget

theorem reissue_ok {issuer : Issuer τ} {newLimits : Given τ} {minimums : Option (Given τ)}
    (passed : budget.reissue issuer newLimits minimums = .ok next) :
    issuer.NonModel ∧ (∀ dimension, budget.spent dimension ≤ next.limit dimension) ∧
      ∀ dimension, next.spent dimension = budget.spent dimension := by
  obtain ⟨_, _, passed⟩ := bind_ok_iff.mp passed
  obtain ⟨_, issued, passed⟩ := bind_ok_iff.mp passed
  obtain ⟨_, _, passed⟩ := bind_ok_iff.mp passed
  obtain ⟨_, covers, passed⟩ := bind_ok_iff.mp passed
  obtain rfl := (Except.ok.inj passed).symm
  refine ⟨validateIssuer_ok issued, covers_ok covers, fun dimension => ?_⟩
  show ((budget.consumed dimension).or ((amounts 0 (mapNew newLimits) dimension).map fun _ => 0)).getD 0 =
    (budget.consumed dimension).getD 0
  cases budget.consumed dimension with
  | some amount => rfl
  | none => cases amounts 0 (mapNew newLimits) dimension <;> rfl

/-- What a call does where it is not refused. -/
theorem call_ok {call : Call τ} (passed : budget.call call = .ok next) :
    (∃ (own : Dimension) (requested : Nat) (now : Int), call = .allocate (.dimension own) (.integer requested) now ∧
      budget.spent own + max requested (budget.minimum own) ≤ budget.limit own ∧
      next = { budget with consumed := put budget.consumed own (budget.spent own + max requested (budget.minimum own)) }) ∨
    ∃ issuer newLimits minimums, call = .reissue issuer newLimits minimums ∧ issuer.NonModel ∧
      (∀ dimension, budget.spent dimension ≤ next.limit dimension) ∧ ∀ dimension, next.spent dimension = budget.spent dimension := by
  cases call with
  | allocate dimension amount now =>
    obtain ⟨own, requested, rfl, rfl, within, same⟩ := allocate_ok passed
    exact .inl ⟨own, requested, now, rfl, within, same⟩
  | reissue issuer newLimits minimums => exact .inr ⟨issuer, newLimits, minimums, rfl, reissue_ok passed⟩
  | requestIncrease request => cases passed

/-! ### What a call keeps -/

def granted (budget : Budget τ) (call : Call τ) : List Grant :=
  match call, budget.call call with
  | .allocate (.dimension dimension) (.integer requested) _, .ok _ =>
    [⟨dimension, requested.toNat, budget.minimum dimension⟩]
  | _, _ => []

def grants (budget : Budget τ) : List (Call τ) → List Grant
  | [] => []
  | call :: calls => budget.granted call ++ (budget.after call).grants calls

def Within (budget : Budget τ) : Prop := ∀ dimension, budget.spent dimension ≤ budget.limit dimension

theorem after_ok {call : Call τ} (passed : budget.call call = .ok next) : budget.after call = next := by
  rw [after, passed]

theorem after_refused {call : Call τ} (refused : budget.call call = .error refusal) : budget.after call = budget := by
  rw [after, refused]

theorem granted_refused {call : Call τ} (refused : budget.call call = .error refusal) : budget.granted call = [] := by
  unfold granted
  rw [refused]
  split
  case h_1 other => cases other
  case h_2 => rfl

theorem Within.after (within : budget.Within) (call : Call τ) : (budget.after call).Within := by
  cases result : budget.call call with
  | error refusal => rwa [after_refused result]
  | ok next =>
    rw [after_ok result]
    intro dimension
    obtain ⟨own, requested, now, rfl, room, rfl⟩ | ⟨issuer, newLimits, minimums, rfl, -, covered, same⟩ := call_ok result
    · rw [spent_put]
      split
      case isTrue same => rw [same]; exact room
      case isFalse => exact within dimension
    · rw [same]
      exact covered dimension

theorem spent_after (call : Call τ) (dimension : Dimension) :
    (budget.after call).spent dimension = budget.spent dimension + charges (budget.granted call) dimension := by
  cases result : budget.call call with
  | error refusal =>
    rw [after_refused result, granted_refused result]
    rfl
  | ok next =>
    rw [after_ok result]
    obtain ⟨own, requested, now, rfl, room, rfl⟩ | ⟨issuer, newLimits, minimums, rfl, -, covered, same⟩ := call_ok result
    · have grant : budget.granted (.allocate (.dimension own) (.integer requested) now) =
          [⟨own, requested, budget.minimum own⟩] := by
        unfold granted
        rw [result]
        rfl
      rw [spent_put, grant, charges, List.filter_singleton]
      by_cases same : dimension = own
      · subst same
        simp [Grant.charge]
      · simp [same, Ne.symm same]
    · rw [same]
      rfl

theorem limit_after {call : Call τ} {dimension : Dimension} (grown : budget.limit dimension < (budget.after call).limit dimension) :
    ∃ issuer newLimits minimums, call = .reissue issuer newLimits minimums ∧ issuer.NonModel := by
  cases result : budget.call call with
  | error refusal =>
    rw [after_refused result] at grown
    exact absurd grown (Nat.lt_irrefl _)
  | ok next =>
    obtain ⟨own, requested, now, rfl, room, rfl⟩ | ⟨issuer, newLimits, minimums, rfl, issued, -⟩ := call_ok result
    · rw [after_ok result] at grown
      exact absurd grown (Nat.lt_irrefl _)
    · exact ⟨issuer, newLimits, minimums, rfl, issued⟩

/-! ### Runs -/

theorem run_append (first second : List (Call τ)) : budget.run (first ++ second) = (budget.run first).run second :=
  List.foldl_append

theorem Within.run (within : budget.Within) (calls : List (Call τ)) : (budget.run calls).Within := by
  induction calls generalizing budget with
  | nil => exact within
  | cons call calls ih => exact ih (within.after call)

theorem charges_append (first second : List Grant) (dimension : Dimension) :
    charges (first ++ second) dimension = charges first dimension + charges second dimension := by
  simp only [charges, List.filter_append, List.map_append, List.sum_append]

theorem spent_run (calls : List (Call τ)) (dimension : Dimension) :
    (budget.run calls).spent dimension = budget.spent dimension + charges (budget.grants calls) dimension := by
  induction calls generalizing budget with
  | nil => rfl
  | cons call calls ih =>
    show ((budget.after call).run calls).spent dimension = _
    rw [ih, spent_after, grants, charges_append, Nat.add_assoc]

end Budget

theorem new_ok {limits minimums : Given τ} {issuedBy : Issuer τ} {startedAtMs : Int}
    (created : new limits issuedBy minimums startedAtMs = .ok budget) (dimension : Dimension) : budget.spent dimension = 0 := by
  obtain ⟨_, _, created⟩ := bind_ok_iff.mp created
  obtain ⟨_, _, created⟩ := bind_ok_iff.mp created
  obtain ⟨_, _, created⟩ := bind_ok_iff.mp created
  obtain rfl := (Except.ok.inj created).symm
  show ((amounts 0 (mapNew limits) dimension).map fun _ => 0).getD 0 = 0
  cases amounts 0 (mapNew limits) dimension <;> rfl

/-- What holds of the calls on a budget, at each of them and after the last. -/
structure Accounted (budget : Budget τ) (calls : List (Call τ)) : Prop where
  within : ∀ dimension, (budget.run calls).spent dimension ≤ (budget.run calls).limit dimension
  charged : ∀ dimension, (budget.run calls).spent dimension = charges (budget.grants calls) dimension
  kept : ∀ before after, calls = before ++ after → ∀ dimension,
    (budget.run before).spent dimension ≤ (budget.run calls).spent dimension
  issued : ∀ before call after, calls = before ++ call :: after → ∀ dimension,
    (budget.run before).limit dimension < (budget.run (before ++ [call])).limit dimension →
      ∃ issuer newLimits minimums, call = .reissue issuer newLimits minimums ∧ issuer.NonModel
  refused : ∀ before call after refusal, calls = before ++ call :: after →
    (budget.run before).call call = .error refusal → budget.run (before ++ [call]) = budget.run before

theorem never_overspent {limits minimums : Given τ} {issuedBy : Issuer τ} {startedAtMs : Int}
    (created : new limits issuedBy minimums startedAtMs = .ok budget) (calls : List (Call τ)) : Accounted budget calls where
  within := by
    have fresh : budget.Within := fun dimension => by rw [new_ok created]; exact Nat.zero_le _
    exact fresh.run calls
  charged dimension := by rw [Budget.spent_run, new_ok created, Nat.zero_add]
  kept before after split dimension := by
    have later : ((budget.run before).run after).spent dimension =
        (budget.run before).spent dimension + charges ((budget.run before).grants after) dimension :=
      Budget.spent_run after dimension
    rw [split, Budget.run_append, later]
    exact Nat.le_add_right _ _
  issued before call after _ dimension grown := by
    rw [Budget.run_append] at grown
    exact Budget.limit_after grown
  refused before call after refusal _ refused := by
    rw [Budget.run_append]
    exact Budget.after_refused refused

end Calls

/-- The second call is refused, and the third one is charged the minimum. -/
theorem never_overspent_tokens : ∃ budget,
    new [(.dimension .tokens, .integer 2)] (.host ()) [] 0 = .ok budget ∧
      Accounted budget [.allocate (.dimension .tokens) (.integer 1) 0, .allocate (.dimension .tokens) (.integer 2) 1,
        .allocate (.dimension .tokens) (.integer 0) 2] := by
  obtain ⟨budget, created⟩ : ∃ budget, new [(.dimension .tokens, .integer 2)] (.host ()) [] 0 = .ok budget := ⟨_, rfl⟩
  exact ⟨budget, created, never_overspent created _⟩

end AshA2A.Semantic.Allocator
