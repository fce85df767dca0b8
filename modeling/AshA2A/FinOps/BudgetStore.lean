import Mathlib.Logic.Function.Basic

/-! Hard ceilings on what an account consumes in one billing window. Reservations go through
one owner, so a check and its reservation are one step. -/

namespace AshA2A.FinOps

structure Budget where
  ceiling : Nat
  windowMs : Nat
  ceiling_pos : 0 < ceiling
  windowMs_pos : 0 < windowMs
  deriving DecidableEq

def Budget.defaultWindowMs : Nat := 3600000

inductive ArgumentError where
  | ceiling (given : Int)
  | windowMs (given : Int)
  deriving Repr, DecidableEq

/-- The arguments of `set_budget`, checked before the owner is called. -/
def Budget.ofArguments (ceiling : Int) (windowMs : Option Int) : Except ArgumentError Budget :=
  if ceilingPos : 0 < ceiling then
    let windowMs := windowMs.getD Budget.defaultWindowMs
    if windowMsPos : 0 < windowMs then .ok ⟨ceiling.toNat, windowMs.toNat, by omega, by omega⟩
    else .error (.windowMs windowMs)
  else .error (.ceiling ceiling)

inductive Refusal (Account : Type) where
  | budgetExceeded (budgetAccountId : Account) (requested consumed ceiling : Nat) (windowStartedAt : Int)
  | missingEvidence (budgetAccountId : Account) (reason : String)
  | invalidRequest (missing reason : String)
  deriving Repr, DecidableEq

def Refusal.code {Account : Type} : Refusal Account → String
  | .budgetExceeded .. => "budget_exceeded"
  | .missingEvidence .. => "missing_evidence"
  | .invalidRequest .. => "invalid_request"

structure Reservation where
  consumed : Nat
  ceiling : Nat
  windowStartedAt : Int
  windowMs : Nat
  deriving Repr, DecidableEq

/-- The table. A window without a row has consumed nothing. -/
structure BudgetStore (Account : Type) where
  budget : Account → Option Budget
  usage : Account → Int → Nat

namespace BudgetStore
variable {Account : Type} [DecidableEq Account]

def empty : BudgetStore Account := ⟨fun _ => none, fun _ _ => 0⟩

/-- Windows are fixed buckets of the clock. `div` rounds towards zero. -/
def currentBucket (now : Int) (windowMs : Nat) : Int := now.tdiv windowMs

def doSetBudget (store : BudgetStore Account) (accountId : Account) (budget : Budget) : BudgetStore Account :=
  { store with budget := Function.update store.budget accountId (some budget) }

def setBudget (store : BudgetStore Account) (accountId : Account) (ceiling : Int) (windowMs : Option Int) :
    Except ArgumentError (BudgetStore Account) :=
  (Budget.ofArguments ceiling windowMs).map (store.doSetBudget accountId)

def init (budgets : List (Account × Budget)) : BudgetStore Account :=
  budgets.foldl (fun store (accountId, budget) => store.doSetBudget accountId budget) empty

/-- `:ets.update_counter(table, key, amount, {key, 0})`. -/
def consume (store : BudgetStore Account) (accountId : Account) (bucket : Int) (amount : Nat) :
    BudgetStore Account :=
  { store with
    usage := Function.update store.usage accountId
      (Function.update (store.usage accountId) bucket (store.usage accountId bucket + amount)) }

def record (store : BudgetStore Account) (accountId : Account) (amount : Nat) (now : Int) :
    Except (Refusal Account) Reservation × BudgetStore Account :=
  match store.budget accountId with
  | some budget =>
    let bucket := currentBucket now budget.windowMs
    let current := store.usage accountId bucket
    if current + amount > budget.ceiling then
      (.error (.budgetExceeded accountId amount current budget.ceiling (bucket * budget.windowMs)), store)
    else
      (.ok ⟨current + amount, budget.ceiling, bucket * budget.windowMs, budget.windowMs⟩,
        store.consume accountId bucket amount)
  | none => (.error (.missingEvidence accountId "no hard ceiling configured"), store)

/-! ### What a step does -/

section
variable {store : BudgetStore Account} {accountId : Account} {amount : Nat} {now : Int}

@[simp]
theorem budget_consume (bucket : Int) : (store.consume accountId bucket amount).budget = store.budget := rfl

@[simp]
theorem usage_consume (bucket : Int) (other : Account) (window : Int) :
    (store.consume accountId bucket amount).usage other window =
      store.usage other window + if other = accountId ∧ window = bucket then amount else 0 := by
  unfold consume
  by_cases same : other = accountId
  case pos =>
    subst same
    by_cases here : window = bucket
    · subst here
      simp
    · simp [here]
  case neg => simp [same]

@[simp]
theorem usage_doSetBudget (budget : Budget) : (store.doSetBudget accountId budget).usage = store.usage := rfl

theorem usage_init (budgets : List (Account × Budget)) (bucket : Int) : (init budgets).usage accountId bucket = 0 := by
  have kept : ∀ (budgets : List (Account × Budget)) (store : BudgetStore Account),
      (budgets.foldl (fun store entry => store.doSetBudget entry.1 entry.2) store).usage = store.usage := by
    intro budgets
    induction budgets with
    | nil => intro store; rfl
    | cons entry rest hypothesis =>
      intro store
      rw [List.foldl_cons, hypothesis, usage_doSetBudget]
  rw [init, kept]
  rfl

/-- A reservation fits under the ceiling it was checked against and is booked in the window of
the clock; a refusal books nothing. -/
theorem record_cases (store : BudgetStore Account) (accountId : Account) (amount : Nat) (now : Int) :
    (∃ budget, store.budget accountId = some budget ∧
      store.usage accountId (currentBucket now budget.windowMs) + amount ≤ budget.ceiling ∧
      store.record accountId amount now =
        (.ok ⟨store.usage accountId (currentBucket now budget.windowMs) + amount, budget.ceiling,
            currentBucket now budget.windowMs * budget.windowMs, budget.windowMs⟩,
          store.consume accountId (currentBucket now budget.windowMs) amount)) ∨
      ∃ refusal, (∀ budget, store.budget accountId = some budget →
          budget.ceiling < store.usage accountId (currentBucket now budget.windowMs) + amount) ∧
        store.record accountId amount now = (.error refusal, store) := by
  unfold record
  cases found : store.budget accountId with
  | none => exact .inr ⟨_, nofun, rfl⟩
  | some budget =>
    dsimp only
    split
    case isTrue beyond =>
      refine .inr ⟨_, fun other same => ?_, rfl⟩
      cases same
      exact beyond
    case isFalse fits => exact .inl ⟨budget, rfl, by omega, rfl⟩

end

end BudgetStore
end AshA2A.FinOps
