import AshA2A.Receipt

/-! Independent observation of the intended effect after a dispatch. -/

namespace AshA2A

open Receipt

structure Postcondition where
  id : String
  verifier : String
  expect : Term
  deriving Repr, DecidableEq

namespace Postcondition

inductive Reason where
  | atom (name : String)
  | text (text : String)
  deriving Repr, DecidableEq

def Reason.toString : Reason → String
  | .atom name => name
  | .text message => message

inductive Verdict where
  | verified (evidence : Term)
  | contradicted (evidence : Term)
  | unverified (reason : Reason)
  deriving Repr, DecidableEq

/-- A verifier that cannot be called, or one that answers each report with a verdict. Its
crash and its timeout are verdicts too. -/
abbrev Verifier := Option (Reply → Verdict)

def Verdict.status : Verdict → Observation.Status
  | .verified _ => .verified
  | .contradicted _ => .contradicted
  | .unverified _ => .unverified

def Verdict.name (verdict : Verdict) : Term :=
  match verdict.status with
  | .verified => .binary "verified"
  | .contradicted => .binary "contradicted"
  | .unverified => .binary "unverified"

def Reason.asAtom : Reason → String
  | .atom name => name
  | .text message =>
    if startsWith message "verifier_raised" then "verifier_raised"
    else if startsWith message "verifier_crashed" then "verifier_crashed"
    else if startsWith message "verifier_invalid_verdict" then "verifier_invalid_verdict"
    else if startsWith message "verifier_" then "verifier_raised"
    else "verifier_unverified"

def observation (status : Observation.Status) (reason : Option String)
    (postcondition : Option Postcondition) (independent : Option Bool) (evidence : Term) :
    Observation :=
  ⟨status, reason, postcondition.map (·.id), postcondition.map (·.verifier), independent, evidence⟩

/-- A verdict counts only when the same verifier reaches it under the counterfactual report. -/
def judge (postcondition : Postcondition) (actual counterfactual : Verdict) : Observation :=
  let dependent (evidence : Term) :=
    observation .unverified (some "verifier_not_independent") (some postcondition) (some false)
      (.map (.cons (.tuple (.cons (.binary "verdict_under_actuator_report") (.cons actual.name .empty)))
        (.cons (.tuple (.cons (.binary "verdict_under_counterfactual_report")
            (.cons counterfactual.name .empty)))
          (.cons (.tuple (.cons (.binary "actual_evidence") (.cons evidence .empty))) .empty))))
  match actual with
  | .unverified reason =>
    observation .unverified (some reason.asAtom) (some postcondition) none
      (.map (.cons (.tuple (.cons (.binary "detail") (.cons (.binary reason.toString) .empty))) .empty))
  | .verified evidence | .contradicted evidence =>
    if actual.status = counterfactual.status then
      observation actual.status none (some postcondition) (some true) evidence
    else dependent evidence

def successClaim : Reply → Bool
  | .reply _ => true
  | _ => false

/-- A failure report the actuator did not make. -/
def counterfactualReport : Reply :=
  .error ⟨none, .map (.cons (.tuple (.cons (.atom "reason")
    (.cons (.atom "counterfactual_failure_report") .empty))) .empty), .nil⟩

def evaluate (postcondition : Option Postcondition) (consequence : Consequence) (report : Reply)
    (verifier : Verifier) : Option Observation :=
  match postcondition with
  | none =>
    if consequence = .observe then none
    else some (observation .unverified (some "no_postcondition_declared") none none (.map .empty))
  | some postcondition =>
    match verifier with
    | none => some (observation .unverified (some "verifier_not_implemented") (some postcondition) none
        (.map .empty))
    | some verify =>
      if successClaim report then
        some (judge postcondition (verify report) (verify counterfactualReport))
      else some (observation .unverified (some "no_success_claim") (some postcondition) none
        (.map .empty))

def applyToReceipt (host : Host) (receipt : Receipt) : Option Observation → Receipt
  | none => receipt
  | some observation =>
    let metadata := { receipt.metadata with postcondition := some observation }
    match observation.status with
    | .contradicted => transition host.crypto host.key receipt
        { receipt with status := .postconditionContradicted, metadata := metadata } .postcondition
    | _ => transition host.crypto host.key receipt
        { receipt with metadata := metadata } .postcondition

end Postcondition

end AshA2A
