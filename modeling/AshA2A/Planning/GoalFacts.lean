import AshA2A.Json.Reading
import AshA2A.Outcome
import Mathlib.Data.List.Basic

/-! Goal facts that a caller submits, admitted against the capabilities of a subject. -/

namespace AshA2A.Planning

/-- A fact of an operator: its predicate and its parameters. -/
structure OperatorFact where
  predicate : String
  args : List String
  deriving Repr, DecidableEq

structure HddlOperator where
  parameters : List String := []
  preconditions : List OperatorFact := []
  addEffects : List OperatorFact := []
  deleteEffects : List OperatorFact := []
  deriving Repr, DecidableEq

def HddlOperator.facts (operator : HddlOperator) : List OperatorFact :=
  operator.preconditions ++ operator.addEffects ++ operator.deleteEffects

/-- The name is an atom, here its text. -/
structure Skill where
  id : String
  name : String
  hddlOperators : List HddlOperator := []
  deriving Repr, DecidableEq

/-- A resource or a domain, with its index where it is compiled. -/
structure Subject where
  name : String
  index : Option (List Skill)
  deriving Repr, DecidableEq

namespace Info

inductive Missing where
  | skillNotFound
  | ambiguousSkill (selector : String)
  deriving Repr, DecidableEq

def selects (selector : String) (skill : Skill) : Bool := skill.id = selector || skill.name = selector

/-- An id counts more than a display name that several skills share. -/
def skill (subject : Subject) (selector : String) : Except Missing Skill :=
  match (subject.index.getD []).filter (selects selector) with
  | [] => .error .skillNotFound
  | [skill] => .ok skill
  | several =>
    match several.filter fun skill => skill.id = selector with
    | [skill] => .ok skill
    | _ => .error (.ambiguousSkill selector)

end Info

namespace GoalFacts

inductive Refusal where
  | invalidRequestId
  | emptyTaskSequence
  | invalidTaskSequenceEntry
  | noncanonicalCapability (detail : String)
  | invalidFactEntry (key : String)
  | invalidObjectEntry
  | undeclaredObject (detail : Option String)
  | notCompiled (subject : String)
  | undeclaredPredicate (detail : String)
  deriving Repr, DecidableEq

/-- The others come with a detail. -/
def Refusal.message : Refusal → Option String
  | .invalidRequestId => some "request_id must be nil or a string"
  | .emptyTaskSequence => some "task_sequence must declare at least one task call"
  | .invalidTaskSequenceEntry => some "task_sequence contains a malformed entry"
  | .invalidFactEntry key => some (key ++ " contains a malformed fact entry")
  | .invalidObjectEntry => some "objects contains an entry with no id"
  | .notCompiled subject => some (subject ++ " has no compiled AshA2A capability index")
  | .noncanonicalCapability _ | .undeclaredObject _ | .undeclaredPredicate _ => none

inductive Fault where
  | refused (refusal : Refusal)
  | raised
  deriving Repr, DecidableEq

def refuse {α : Type} (refusal : Refusal) : Except Fault α := .error (.refused refusal)

/-! ## Members -/

/-- `first || second`. -/
def orElse (first second : Json) : Json :=
  match first with
  | .null | .bool false => second
  | first => first

/-- What was decoded has no atoms for keys. -/
def fetch (map : Json) (key : String) : Json := orElse ((map.get? key).getD .null) .null

/-- `List.wrap/1`. -/
def wrap : Json → List Json
  | .null => []
  | .array items => items
  | json => [json]

/-- An integer as a code point. -/
def codePoint (code : Int) : Option Char :=
  if 0 ≤ code ∧ code.toNat.isValidChar then some (.ofNat code.toNat) else none

mutual

/-- An element of character data. -/
def chardata : Json → Option (List Char)
  | .int code => (codePoint code).map fun char => [char]
  | .string text => some text.toList
  | .array items => chardataItems items
  | _ => none

def chardataItems : List Json → Option (List Char)
  | [] => some []
  | item :: items => do return (← chardata item) ++ (← chardataItems items)

end

section Texts
variable (floatText : Rat → String)

/-- Maps have no text, and of the lists only those of characters have one. -/
def maybeToString : Json → Except Fault (Option String)
  | .null => .ok none
  | .bool value => .ok (some (if value then "true" else "false"))
  | .int value => .ok (some (toString value))
  | .float value => .ok (some (floatText value))
  | .string text => .ok (some text)
  | .array items =>
    match chardataItems items with
    | some chars => .ok (some (String.ofList chars))
    | none => .error .raised
  | .object _ => .error .raised

/-- A fact or a call as it is normalized. -/
structure Entry where
  name : Option String
  args : List (Option String)
  deriving Repr, DecidableEq

structure Fact where
  name : String
  args : List (Option String)
  deriving Repr, DecidableEq

def entry (name : Json) (map : Json) : Except Fault Entry := do
  let name ← maybeToString floatText name
  let args ← (wrap (fetch map "args")).mapM (maybeToString floatText)
  return ⟨name, args⟩

/-- Only a name that is not empty is valid. -/
def valid? (entry : Entry) : Option Fact :=
  match entry.name with
  | none => none
  | some name => if name = "" then none else some ⟨name, entry.args⟩

/-! ## The task sequence -/

def capabilityId (map : Json) : Json := orElse (fetch map "capability_id") (fetch map "id")

def normalizeTaskCall : Json → Except Fault Entry
  | .object entries => entry floatText (capabilityId (.object entries)) (.object entries)
  | .null => .ok ⟨none, []⟩
  | .bool value => .ok ⟨some (if value then "true" else "false"), []⟩
  | .string name => .ok ⟨some name, []⟩
  | _ => .ok ⟨none, []⟩

def fetchTaskCalls (envelope : Json) : Except Fault (List Fact) :=
  match wrap (fetch envelope "task_sequence") with
  | [] => refuse .emptyTaskSequence
  | raw => do
    let calls ← raw.mapM (normalizeTaskCall floatText)
    match calls.mapM valid? with
    | some calls => return calls
    | none => refuse .invalidTaskSequenceEntry

/-- No clause takes an ambiguous skill. -/
def resolveCapabilityId (subject : Subject) (call : Fact) : Except Fault Skill :=
  match Info.skill subject call.name with
  | .ok skill => .ok skill
  | .error .skillNotFound => refuse (.noncanonicalCapability call.name)
  | .error (.ambiguousSkill _) => .error .raised

def resolveCapabilityIds (subject : Subject) (calls : List Fact) : Except Fault (List Skill) :=
  calls.mapM (resolveCapabilityId subject)

/-! ## Facts and objects -/

def normalizeFact : Json → Except Fault Entry
  | .object entries => entry floatText (fetch (.object entries) "predicate") (.object entries)
  | _ => .ok ⟨none, []⟩

def fetchFacts (envelope : Json) (key : String) : Except Fault (List Fact) := do
  let facts ← (wrap (fetch envelope key)).mapM (normalizeFact floatText)
  match facts.mapM valid? with
  | some facts => return facts
  | none => refuse (.invalidFactEntry key)

/-- An object as it is normalized. -/
structure Candidate where
  id : Option String
  type : Option String
  deriving Repr, DecidableEq

structure Object where
  id : String
  type : Option String
  deriving Repr, DecidableEq

def normalizeObject : Json → Except Fault Candidate
  | .object entries => do
    let id ← maybeToString floatText (fetch (.object entries) "id")
    let type ← maybeToString floatText (fetch (.object entries) "type")
    return ⟨id, type⟩
  | .bool value => .ok ⟨some (if value then "true" else "false"), none⟩
  | .string id => .ok ⟨some id, none⟩
  | _ => .ok ⟨none, none⟩

def fetchObjects (envelope : Json) : Except Fault (List Candidate) :=
  (wrap (fetch envelope "objects")).mapM (normalizeObject floatText)

end Texts

def validateObjects (objects : List Candidate) : Except Fault (List Object) :=
  match objects.mapM fun object => object.id.map fun id => (⟨id, object.type⟩ : Object) with
  | some objects => .ok objects
  | none => refuse .invalidObjectEntry

/-- A map is refused here, so that it cannot carry a capability id. -/
def validateRequestId (envelope : Json) : Except Fault Unit :=
  match fetch envelope "request_id" with
  | .null | .string _ => .ok ()
  | _ => refuse .invalidRequestId

/-! ## Closure -/

def referentialClosure (objects : List Object) (facts : List Fact) : Except Fault Unit :=
  match (facts.flatMap Fact.args).find? fun arg => ! objects.any fun object => some object.id = arg with
  | none => .ok ()
  | some undeclared => refuse (.undeclaredObject undeclared)

def declaredPredicates (subject : Subject) : Except Fault (List String) :=
  match subject.index with
  | some skills =>
    .ok ((skills.flatMap Skill.hddlOperators).flatMap fun operator => operator.facts.map OperatorFact.predicate)
  | none => refuse (.notCompiled subject.name)

def predicateClosure (declared : List String) (facts : List Fact) : Except Fault Unit :=
  match (facts.map Fact.name).find? fun predicate => ! declared.contains predicate with
  | none => .ok ()
  | some undeclared => refuse (.undeclaredPredicate undeclared)

/-! ## Admission -/

/-- The names of the domain and of the problem are carried as they are given. -/
structure Admitted where
  requestId : Option String
  domainName : Json
  problemName : Json
  objects : List Object
  init : List Fact
  goal : List Fact
  taskCalls : List Fact
  capabilityIds : List String
  deriving Repr

def defaultName (kind : String) : Option String → String
  | none => "ash_a2a_goal_facts_" ++ kind
  | some requestId => "ash_a2a_goal_facts_" ++ kind ++ "_" ++ requestId

def requestId? (envelope : Json) : Option String :=
  match fetch envelope "request_id" with
  | .string requestId => some requestId
  | _ => none

def buildAdmitted (envelope : Json) (taskCalls : List Fact) (objects : List Object) (init goal : List Fact) : Admitted where
  requestId := requestId? envelope
  domainName := orElse (fetch envelope "domain_name") (.string (defaultName "domain" (requestId? envelope)))
  problemName := orElse (fetch envelope "problem_name") (.string (defaultName "problem" (requestId? envelope)))
  objects := objects
  init := init
  goal := goal
  taskCalls := taskCalls
  capabilityIds := taskCalls.map Fact.name

/-- Only a map is taken. The objects are read before the first check. -/
def admitEnvelope (floatText : Rat → String) (subject : Subject) (envelope : Json) : Except Fault Admitted :=
  if envelope.isObject then do
    let candidates ← fetchObjects floatText envelope
    validateRequestId envelope
    let taskCalls ← fetchTaskCalls floatText envelope
    let _ ← resolveCapabilityIds subject taskCalls
    let init ← fetchFacts floatText envelope "init"
    let goal ← fetchFacts floatText envelope "goal"
    let objects ← validateObjects candidates
    referentialClosure objects (init ++ goal)
    let declared ← declaredPredicates subject
    predicateClosure declared (init ++ goal)
    return buildAdmitted envelope taskCalls objects init goal
  else .error .raised

end GoalFacts
end AshA2A.Planning
