import AshA2A.Planning.GoalFacts
import Mathlib.Data.String.Basic

/-! The domain of a subject and the problem of admitted goal facts as HDDL texts. -/

namespace AshA2A.Planning.HddlRenderer

open GoalFacts (Fact Object)

inductive Refusal where
  | notCompiled (subject : String)
  | noHddlOperators
  | inconsistentPredicateArity (predicate : String) (arities : List Nat)
  | missingOpt (opt : String)
  | emptyTaskSequence
  deriving Repr, DecidableEq

def Refusal.message : Refusal → Option String
  | .notCompiled subject => some (subject ++ " has no compiled AshA2A capability index")
  | .noHddlOperators => some "no skill declares an hddl_operator"
  | .emptyTaskSequence => some "task_sequence must declare at least one task call"
  | .inconsistentPredicateArity _ _ | .missingOpt _ => none

/-! ## Names -/

def isLetter (char : Char) : Bool := 'a' ≤ char && char ≤ 'z' || 'A' ≤ char && char ≤ 'Z'

def isNameChar (char : Char) : Bool := isLetter char || '0' ≤ char && char ≤ '9' || char = '_' || char = '-'

/-- The pattern is matched byte by byte. -/
def masked (char : Char) : List Char := if isNameChar char then [char] else List.replicate char.utf8Size '_'

def ensureLeadingLetter : List Char → List Char
  | [] => ['n', '_']
  | first :: rest => if isLetter first then first :: rest else 'n' :: '_' :: first :: rest

def safeName (value : String) : String := String.ofList (ensureLeadingLetter (value.toList.flatMap masked))

/-- `to_string(nil)` is the empty string. -/
def safeArg (arg : Option String) : String := safeName (arg.getD "")

/-! ## The domain -/

def application (name : String) : List String → String
  | [] => "(" ++ name ++ ")"
  | args => "(" ++ name ++ " " ++ " ".intercalate args ++ ")"

def paramNames (names : List String) : List String := names.map fun name => "?" ++ safeName name

def renderDomainFact (fact : OperatorFact) : String := application (safeName fact.predicate) (paramNames fact.args)

def renderDomainConjunction : List OperatorFact → String
  | [] => "()"
  | facts => "(and " ++ " ".intercalate (facts.map renderDomainFact) ++ ")"

def renderDomainEffect (addEffects deleteEffects : List OperatorFact) : String :=
  match addEffects, deleteEffects with
  | [], [] => "()"
  | addEffects, deleteEffects =>
    "(and " ++ " ".intercalate (addEffects.map renderDomainFact ++
      deleteEffects.map fun fact => "(not " ++ renderDomainFact fact ++ ")") ++ ")"

def renderAction (name : String) (operator : HddlOperator) : String :=
  "  (:action " ++ name ++ "\n    :parameters (" ++ " ".intercalate (paramNames operator.parameters) ++
    ")\n    :precondition " ++ renderDomainConjunction operator.preconditions ++ "\n    :effect " ++
    renderDomainEffect operator.addEffects operator.deleteEffects ++ ")"

/-- Of several operators each action has its number. -/
def actionName (skill : Skill) (index : Nat) : String :=
  if skill.hddlOperators.length = 1 then safeName skill.id else safeName skill.id ++ "-" ++ toString index

def actions (skill : Skill) : List String :=
  skill.hddlOperators.zipIdx.map fun (operator, index) => renderAction (actionName skill index) operator

def addArity (arities : List (String × Nat)) (fact : OperatorFact) : Except Refusal (List (String × Nat)) :=
  match arities.lookup (safeName fact.predicate) with
  | some arity =>
    if arity = fact.args.length then .ok arities
    else .error (.inconsistentPredicateArity (safeName fact.predicate) [arity, fact.args.length])
  | none => .ok ((safeName fact.predicate, fact.args.length) :: arities)

def predicateArities (skills : List Skill) : Except Refusal (List (String × Nat)) :=
  ((skills.flatMap Skill.hddlOperators).flatMap HddlOperator.facts).foldlM addArity []

def placeholderParams (arity : Nat) : String :=
  if arity = 0 then "" else " " ++ " ".intercalate ((List.range arity).map fun index => "?a" ++ toString (index + 1))

def predicateLine (name : String) (arity : Nat) : String := "    (" ++ name ++ placeholderParams arity ++ ")"

def domainText (subject : Subject) (domainName : String) : Except Refusal String :=
  match subject.index with
  | none => .error (.notCompiled subject.name)
  | some index =>
    let skills := index.filter fun skill => skill.hddlOperators ≠ []
    if skills = [] then .error .noHddlOperators
    else do
      let arities ← predicateArities skills
      let predicates := (arities.mergeSort fun first second => first.1 ≤ second.1).map fun (name, arity) =>
        predicateLine name arity
      return "(define (domain " ++ safeName domainName ++ ")\n  (:predicates\n" ++ "\n".intercalate predicates ++ ")\n" ++
        "\n".intercalate (skills.flatMap actions) ++ ")\n"

/-! ## The problem -/

structure Options where
  domainName : Option String := none
  objects : List Object := []
  init : List Fact := []
  goal : List Fact := []
  taskSequence : Option (List Fact) := none
  deriving Repr, DecidableEq

def renderGroundCall (call : Fact) : String := application (safeName call.name) (call.args.map safeArg)

def goalBlock : List Fact → String
  | [] => "()"
  | facts => "(and " ++ " ".intercalate (facts.map renderGroundCall) ++ ")"

/-- The subtasks are counted from one. -/
def subtask (call : Fact) (index : Nat) : String :=
  "      (t" ++ toString index ++ " " ++ renderGroundCall call ++ ")"

def problemText (problemName : String) (opts : Options) : Except Refusal String :=
  match opts.domainName, opts.taskSequence with
  | none, _ => .error (.missingOpt "domain_name")
  | some _, none => .error (.missingOpt "task_sequence")
  | some _, some [] => .error .emptyTaskSequence
  | some domainName, some taskCalls =>
    .ok ("(define (problem " ++ safeName problemName ++ ")\n  (:domain " ++ safeName domainName ++ ")\n  (:objects " ++
      " ".intercalate (opts.objects.map fun object => safeName object.id) ++ ")\n  (:init " ++
      " ".intercalate (opts.init.map renderGroundCall) ++ ")\n  (:goal " ++ goalBlock opts.goal ++
      ")\n  (:htn\n    :ordered-subtasks (and\n" ++
      "\n".intercalate ((taskCalls.zipIdx 1).map fun (call, index) => subtask call index) ++ ")))\n")

/-- How the synthesis hands over what was admitted. -/
def optionsOf (admitted : GoalFacts.Admitted) (domainName : String) : Options where
  domainName := some domainName
  objects := admitted.objects
  init := admitted.init
  goal := admitted.goal
  taskSequence := some admitted.taskCalls

end AshA2A.Planning.HddlRenderer
