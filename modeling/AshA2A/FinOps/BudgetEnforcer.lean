import AshA2A.FinOps.BudgetStore
import AshA2A.Term

/-! The gate in front of a dispatch: who pays, and whether the estimate still fits. -/

namespace AshA2A.FinOps

/-- The billing tag of a dispatch. -/
structure Chargeback where
  costCenter : Term
  budgetAccountId : Term
  ceiling : Option Nat := none
  windowStartedAt : Option Int := none
  windowMs : Option Nat := none
  requested : Option Nat := none
  consumed : Option Nat := none
  deriving Repr, DecidableEq

namespace BudgetEnforcer

/-- Neither `nil` nor `false`. -/
def truthy (value : Term) : Bool := value ≠ .nil ∧ value ≠ .atom "false"

/-- A request that is no map has no fields. -/
abbrev Request := Option TermMap

def fetchKey (request : Request) (key : Term) : Option Term :=
  (request.bind (TermMap.get? key)).filter (· ≠ .nil)

def fetchAny (request : Request) (keys : List Term) : Option Term :=
  keys.findSome? fun key => (fetchKey request key).filter truthy

/-- The configured default: `finops` is the list or map of the application environment. -/
def defaultFor (finops : TermMap) (key : String) : Option Term :=
  (finops.get? (.atom (if key = "cost_center" then "default_cost_center" else "default_budget_account_id"))).filter truthy

def fetchField (finops : TermMap) (request : Request) (key : String) (headerForms : List Term) :
    Except String Term :=
  match fetchAny request [.atom key, .binary key] with
  | some value => .ok value
  | none =>
    match fetchAny request headerForms with
    | some value => .ok value
    | none =>
      match defaultFor finops key with
      | some value => .ok value
      | none => .error key

inductive Fault where
  | refused (refusal : Refusal Term)
  /-- The call raises: the estimate is not a non-negative integer. -/
  | raised (estimate : Term)
  deriving Repr, DecidableEq

def resolveAttribution (finops : TermMap) (request : Request) : Except Fault (Term × Term) :=
  let fields := do
    let costCenter ← fetchField finops request "cost_center" [.binary "x-cost-center"]
    let budgetAccountId ← fetchField finops request "budget_account_id" [.binary "x-budget-account-id"]
    return (costCenter, budgetAccountId)
  match fields with
  | .ok attribution => .ok attribution
  | .error field =>
    .error (.refused (.invalidRequest field
      "FR-05.1: no organizational cost attribution on the request and no default configured"))

def normalizeAmount : Term → Except Fault Nat
  | .integer (.ofNat amount) => .ok amount
  | value => .error (.raised value)

/-- The first of the fields that is there, and the option otherwise. -/
def estimatedTokens (request : Request) (option : Option Term) : Except Fault Nat :=
  match fetchAny request [.atom "estimated_tokens", .atom "tokens", .binary "estimated_tokens", .binary "tokens"] with
  | some value => normalizeAmount value
  | none => normalizeAmount (option.getD (.integer 0))

def reserveRefusal (estimated : Nat) : Refusal Term → Refusal Term
  | .missingEvidence account _ => .missingEvidence account "no hard budget ceiling configured for this account"
  | .budgetExceeded account _ consumed ceiling windowStartedAt =>
    .budgetExceeded account estimated consumed ceiling windowStartedAt
  | refusal => refusal

def authorize (finops : TermMap) (store : BudgetStore Term) (request : Request) (option : Option Term)
    (now : Int) : Except Fault Chargeback × BudgetStore Term :=
  match resolveAttribution finops request with
  | .error fault => (.error fault, store)
  | .ok (costCenter, budgetAccountId) =>
    match estimatedTokens request option with
    | .error fault => (.error fault, store)
    | .ok estimated =>
      match store.record budgetAccountId estimated now with
      | (.error refusal, store) => (.error (.refused (reserveRefusal estimated refusal)), store)
      | (.ok reservation, store) =>
        (.ok
          { costCenter
            budgetAccountId
            ceiling := some reservation.ceiling
            windowStartedAt := some reservation.windowStartedAt
            windowMs := some reservation.windowMs
            requested := some estimated
            consumed := some reservation.consumed }, store)

inductive Settlement where
  /-- `:ok`: at or under the estimate. -/
  | covered
  | charged (reservation : Reservation)
  | refused (refusal : Refusal Term)
  deriving Repr, DecidableEq

/-- Only what goes beyond the estimate is charged, to the window of the clock as it is now. -/
def settle (store : BudgetStore Term) (tag : Chargeback) (actual : Nat) (now : Int) :
    Settlement × BudgetStore Term :=
  let reserved := tag.requested.getD 0
  if 0 < actual - reserved then
    match store.record tag.budgetAccountId (actual - reserved) now with
    | (.ok reservation, store) => (.charged reservation, store)
    | (.error refusal, store) => (.refused refusal, store)
  else (.covered, store)

end BudgetEnforcer
end AshA2A.FinOps
