import AshA2A.UniqueBy

/-! The bounded budget that is issued before an expensive resolution, and what is spent of it. -/

namespace AshA2A.Semantic.Allocator

open UniqueBy

inductive Dimension where
  | inferenceCalls | tokens | computeUnits | retries | externalRequests | moneyMicros | agents | tools | wallTimeMs
  deriving Repr, DecidableEq

def dimensions : List Dimension :=
  [.inferenceCalls, .tokens, .computeUnits, .retries, .externalRequests, .moneyMicros, .agents, .tools, .wallTimeMs]

def defaultMinimum : Nat := 1

/-- A key or a value that a caller gives; `τ` are the terms that are neither. -/
inductive Named (τ : Type) where
  | dimension (dimension : Dimension)
  | authority
  | term (term : τ)
  deriving Repr, DecidableEq

inductive Amount (τ : Type) where
  | integer (value : Int)
  | term (term : τ)
  deriving Repr, DecidableEq

/-- The source of an authority is an atom. -/
inductive Issuer (τ : Type) where
  | host (identity : τ)
  | authority (source : String)
  | model (identity : τ)
  | other (term : τ)
  deriving Repr, DecidableEq

/-- A keyword list or a map. -/
abbrev Given (τ : Type) := List (Named τ × Amount τ)

abbrev Amounts := Dimension → Option Nat

/-- Its fingerprint, a digest of the other fields, is not part of it here. -/
structure Budget (τ : Type) where
  limits : Amounts
  minimums : Amounts
  consumed : Amounts
  startedAtMs : Int
  issuedBy : Issuer τ

inductive Refusal (τ : Type) where
  | emptyBudget
  | invalidBudgetLimits (invalid : Given τ)
  | invalidBudgetMinimums (invalid : Given τ)
  | modelIssuedBudgetRefused
  | invalidBudgetIssuer (issuer : Issuer τ)
  | reissueBelowConsumed (dimensions : List (Dimension × Nat))
  | authorityNotAllocatable
  | unknownDimension (dimension : Named τ)
  | invalidAllocationAmount (dimension : Dimension) (requested : Amount τ)
  | dimensionNotBudgeted (dimension : Dimension)
  | wallTimeExhausted (limit : Nat) (elapsed : Int)
  | budgetExhausted (dimension : Dimension) (limit consumed requested charged : Nat)
  | selfGrantRefused (requested : τ) (currentLimits currentConsumed : Amounts)

variable {τ : Type} [DecidableEq τ]

/-- `Map.new/1`: the last entry of a key stays. -/
def mapNew (given : Given τ) : Given τ := uniqBy Prod.fst given.reverse

/-- An integer that is not below the bound. -/
def Amount.atLeast (bound : Nat) : Amount τ → Option Nat
  | .integer value => if (bound : Int) ≤ value then some value.toNat else none
  | .term _ => none

def wellFormed (bound : Nat) : Named τ × Amount τ → Bool
  | (.dimension _, amount) => (amount.atLeast bound).isSome
  | _ => false

/-- What a valid map has under a dimension. -/
def amounts (bound : Nat) (given : Given τ) : Amounts := fun dimension =>
  (given.lookup (.dimension dimension)).bind (Amount.atLeast bound)

def validateLimits (limits : Given τ) : Except (Refusal τ) Unit :=
  if limits = [] then .error .emptyBudget
  else
    match limits.filter fun entry => !wellFormed 0 entry with
    | [] => .ok ()
    | invalid => .error (.invalidBudgetLimits invalid)

def validateMinimums (minimums : Given τ) : Except (Refusal τ) Unit :=
  match minimums.filter fun entry => !wellFormed defaultMinimum entry with
  | [] => .ok ()
  | invalid => .error (.invalidBudgetMinimums invalid)

def validateIssuer : Issuer τ → Except (Refusal τ) Unit
  | .host _ => .ok ()
  | .authority source => if source = "model" then .error .modelIssuedBudgetRefused else .ok ()
  | .model _ => .error .modelIssuedBudgetRefused
  | other => .error (.invalidBudgetIssuer other)

def materializeMinimums (limits given : Amounts) : Amounts := fun dimension =>
  (limits dimension).map fun _ => (given dimension).getD defaultMinimum

/-- A clock reading stands in for `:started_at_ms` where it is not given. -/
def new (limits : Given τ) (issuedBy : Issuer τ) (givenMinimums : Given τ) (startedAtMs : Int) :
    Except (Refusal τ) (Budget τ) := do
  let limits := mapNew limits
  let givenMinimums := mapNew givenMinimums
  validateLimits limits
  validateIssuer issuedBy
  validateMinimums givenMinimums
  return {
    limits := amounts 0 limits
    minimums := materializeMinimums (amounts 0 limits) (amounts defaultMinimum givenMinimums)
    consumed := fun dimension => (amounts 0 limits dimension).map fun _ => 0
    startedAtMs
    issuedBy }

namespace Budget

def minimum (budget : Budget τ) (dimension : Dimension) : Nat :=
  match budget.minimums dimension with
  | some value => if defaultMinimum ≤ value then value else defaultMinimum
  | none => defaultMinimum

def spent (budget : Budget τ) (dimension : Dimension) : Nat := (budget.consumed dimension).getD 0

def checkWallTime (budget : Budget τ) (now : Int) : Except (Refusal τ) Unit :=
  match budget.limits .wallTimeMs with
  | none => .ok ()
  | some limit =>
    let elapsed := now - budget.startedAtMs
    if elapsed > limit then .error (.wallTimeExhausted limit elapsed) else .ok ()

def fetchLimit (budget : Budget τ) (dimension : Dimension) : Except (Refusal τ) Nat :=
  match budget.limits dimension with
  | some limit => .ok limit
  | none => .error (.dimensionNotBudgeted dimension)

def put (amounts : Amounts) (dimension : Dimension) (amount : Nat) : Amounts := fun other =>
  if other = dimension then some amount else amounts other

def allocate (budget : Budget τ) (dimension : Named τ) (amount : Amount τ) (now : Int) :
    Except (Refusal τ) (Budget τ) :=
  match dimension with
  | .authority => .error .authorityNotAllocatable
  | .term _ => .error (.unknownDimension dimension)
  | .dimension dimension =>
    match amount.atLeast 0 with
    | none => .error (.invalidAllocationAmount dimension amount)
    | some requested => do
      budget.checkWallTime now
      let limit ← budget.fetchLimit dimension
      let consumed := budget.spent dimension
      let charged := max requested (budget.minimum dimension)
      if consumed + charged > limit then .error (.budgetExhausted dimension limit consumed requested charged)
      else return { budget with consumed := put budget.consumed dimension (consumed + charged) }

def requestIncrease (budget : Budget τ) (request : τ) : Except (Refusal τ) (Budget τ) :=
  .error (.selfGrantRefused request budget.limits budget.consumed)

/-- `Map.take(minimums, keys)`. -/
def take (budget : Budget τ) (limits : Given τ) : Given τ :=
  limits.filterMap fun entry =>
    match entry.1 with
    | .dimension dimension => (budget.minimums dimension).map fun minimum => (.dimension dimension, .integer minimum)
    | _ => none

/-- What was spent where the new limits leave no room for it. -/
def underConsumed (budget : Budget τ) (newLimits : Amounts) : List (Dimension × Nat) :=
  dimensions.filterMap fun dimension =>
    match budget.consumed dimension, newLimits dimension with
    | some spent, some limit => if spent > limit then some (dimension, spent) else none
    | some spent, none => if spent > 0 then some (dimension, spent) else none
    | none, _ => none

def validateReissueCoversConsumed (budget : Budget τ) (newLimits : Amounts) : Except (Refusal τ) Unit :=
  match budget.underConsumed newLimits with
  | [] => .ok ()
  | under => .error (.reissueBelowConsumed under)

def reissue (budget : Budget τ) (issuer : Issuer τ) (newLimits : Given τ) (minimums : Option (Given τ)) :
    Except (Refusal τ) (Budget τ) := do
  let newLimits := mapNew newLimits
  let givenMinimums :=
    match minimums with
    | some minimums => mapNew minimums
    | none => budget.take newLimits
  validateLimits newLimits
  validateIssuer issuer
  validateMinimums givenMinimums
  budget.validateReissueCoversConsumed (amounts 0 newLimits)
  return { budget with
    limits := amounts 0 newLimits
    minimums := materializeMinimums (amounts 0 newLimits) (amounts defaultMinimum givenMinimums)
    consumed := fun dimension => (budget.consumed dimension).or ((amounts 0 newLimits dimension).map fun _ => 0)
    issuedBy := issuer }

end Budget

/-! ## Runs -/

inductive Call (τ : Type) where
  | allocate (dimension : Named τ) (amount : Amount τ) (now : Int)
  | reissue (issuer : Issuer τ) (newLimits : Given τ) (minimums : Option (Given τ))
  | requestIncrease (request : τ)

/-- A refused call has no budget to hand back. -/
def Budget.call (budget : Budget τ) : Call τ → Except (Refusal τ) (Budget τ)
  | .allocate dimension amount now => budget.allocate dimension amount now
  | .reissue issuer newLimits minimums => budget.reissue issuer newLimits minimums
  | .requestIncrease request => budget.requestIncrease request

/-- The budget that the caller has after the call. -/
def Budget.after (budget : Budget τ) (call : Call τ) : Budget τ :=
  match budget.call call with
  | .ok next => next
  | .error _ => budget

def Budget.run (budget : Budget τ) (calls : List (Call τ)) : Budget τ := calls.foldl Budget.after budget

end AshA2A.Semantic.Allocator
