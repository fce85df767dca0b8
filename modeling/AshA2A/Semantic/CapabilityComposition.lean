import AshA2A.Semantic.CanonicalTermDigest
import Mathlib.Data.Finset.Sort
import Mathlib.Data.String.Basic

/-! Capabilities that are chained where the effects of one give what the next one needs. -/

namespace AshA2A.Semantic.CapabilityComposition

open CanonicalTermDigest (Term)

inductive Name where
  | atom (name : String)
  | text (text : String)
  deriving Repr, DecidableEq

structure Fact where
  predicate : Name
  arguments : List Name
  deriving Repr, DecidableEq

/-- A fact as it is compared, in the order of the terms. -/
abbrev Plain := String ×ₗ List String

/-- `to_string(nil)` is the empty string. -/
def Name.toString : Name → String
  | .atom name => if name = "nil" then "" else name
  | .text content => content

def normalize (fact : Fact) : Plain := toLex (fact.predicate.toString, fact.arguments.map Name.toString)

def ofPlain (plain : Plain) : Fact := ⟨.text (ofLex plain).1, (ofLex plain).2.map .text⟩

/-- `ρ` are the maps that describe what authority an execution needs. -/
structure Profile (ρ : Type) where
  capabilityId : String
  consequence : Option String := none
  preconditions : List Fact := []
  addEffects : List Fact := []
  deleteEffects : List Fact := []
  authorityRequirement : ρ

/-- The requirement of a participant is a term of its own; the hash is a parameter. -/
structure Host (ρ : Type) where
  term : ρ → Term
  sha256 : Bytes → Bytes

structure Composition (ρ : Type) where
  left : String
  right : String
  authorityRequirements : List (String × ρ)
  consequenceClasses : List (String × Option String)
  resultingState : List Fact
  compositionDigest : String

inductive Refusal where
  | selfComposition (id : String)
  | preconditionsUnmet (unmet resultingState : List Fact) (left right : String)
  | authorityCeilingRaised (capabilityIds : List String)
  deriving Repr, DecidableEq

/-! ## States -/

/-- `MapSet.new(facts, &normalize/1)`. -/
def held (state : List Fact) : Finset Plain := (state.map normalize).toFinset

/-- The facts of a set, sorted. -/
def facts (state : Finset Plain) : List Fact := state.sort.map ofPlain

def applyEffects {ρ : Type} (state : List Fact) (profile : Profile ρ) : List Fact :=
  facts ((held state ∪ held profile.addEffects) \ held profile.deleteEffects)

def unmet (state preconditions : List Fact) : List Fact :=
  facts ((preconditions.map normalize).filter fun fact => fact ∉ held state).toFinset

/-! ## Compositions -/

variable {ρ : Type} (host : Host ρ)

def factTerm (fact : Fact) : Term :=
  .tuple [.binary (utf8 fact.predicate.toString), .list (fact.arguments.map fun argument => .binary (utf8 argument.toString))]

def digest (composition : Composition ρ) : String :=
  CanonicalTermDigest.digest host.sha256 (.map [
    (.atom "left", .binary (utf8 composition.left)),
    (.atom "right", .binary (utf8 composition.right)),
    (.atom "authority_requirements",
      .map (composition.authorityRequirements.map fun entry => (.binary (utf8 entry.1), host.term entry.2))),
    (.atom "consequence_classes",
      .map (composition.consequenceClasses.map fun entry => (.binary (utf8 entry.1), .atom (entry.2.getD "nil")))),
    (.atom "resulting_state", .list (composition.resultingState.map factTerm))])

variable [DecidableEq ρ]

/-- Whose requirement is another one than it declared. -/
def raisesCeiling (composition : Composition ρ) (profiles : List (Profile ρ)) : List String :=
  ((profiles.filter fun profile =>
    composition.authorityRequirements.lookup profile.capabilityId ≠ some profile.authorityRequirement).map
      Profile.capabilityId).mergeSort

def compose (left right : Profile ρ) (initialState : List Fact) : Except Refusal (Composition ρ) :=
  if left.capabilityId = right.capabilityId then .error (.selfComposition left.capabilityId)
  else
    let afterLeft := applyEffects initialState left
    match unmet afterLeft right.preconditions with
    | [] =>
      let composition : Composition ρ := {
        left := left.capabilityId
        right := right.capabilityId
        authorityRequirements :=
          [(left.capabilityId, left.authorityRequirement), (right.capabilityId, right.authorityRequirement)]
        consequenceClasses := [(left.capabilityId, left.consequence), (right.capabilityId, right.consequence)]
        resultingState := applyEffects afterLeft right
        compositionDigest := "pending" }
      match raisesCeiling composition [left, right] with
      | [] => .ok { composition with compositionDigest := digest host composition }
      | raised => .error (.authorityCeilingRaised raised)
    | missing => .error (.preconditionsUnmet missing afterLeft left.capabilityId right.capabilityId)

/-- The state is the one before `previous` has run, and the number that of the hop. -/
def chainFrom (composed : List (Composition ρ)) (state : List Fact) (previous : Profile ρ) (hop : Nat) :
    List (Profile ρ) → Except (Refusal × Nat) (List (Composition ρ) × List Fact)
  | [] => .ok (composed.reverse, applyEffects state previous)
  | next :: rest =>
    match compose host previous next state with
    | .ok composition => chainFrom (composition :: composed) (applyEffects state previous) next (hop + 1) rest
    | .error refusal => .error (refusal, hop)

/-- A chain has a first profile. -/
def chain (first : Profile ρ) (rest : List (Profile ρ)) (initialState : List Fact) :
    Except (Refusal × Nat) (List (Composition ρ) × List Fact) :=
  chainFrom host [] initialState first 0 rest

end AshA2A.Semantic.CapabilityComposition
