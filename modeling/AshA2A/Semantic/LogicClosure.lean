import AshA2A.Semantic.LogicClosure.RuleDocument

/-! The closure of a fact graph under an admitted rule document, and the questions that are put to it. The
engine is the one that derives. -/

namespace AshA2A.Semantic.LogicClosure

/-- The facts are plain Turtle, the rules an N3 rule document. -/
structure Program where
  facts : Bytes
  rules : Bytes
  deriving DecidableEq, Repr

/-- What the engine reported about a document whose facts it read as they are. -/
structure Run where
  derivedCount : Int
  denialRefused : Bool
  denialCount : Int
  deriving DecidableEq, Repr

structure Closure where
  rulesDigest : String
  factsDigest : String
  factCountBefore : Nat
  factCountAfter : Int
  derivedCount : Int
  ruleCount : Nat
  denialCount : Int
  deriving DecidableEq, Repr

inductive Refusal where
  | factsNotPlainRdf (reason : String)
  | hookInFacts (iri : Bytes)
  | unadmittedRule (digest : String)
  | ruleShape (failure : RuleDocument.Failure)
  | engine (reason : String)
  | denialViolated (count : Int)
  | entailmentWitness (failure : RuleDocument.Failure)
  | groundWitness
  deriving DecidableEq

/-- What the closure takes from outside of it: SHA-256, the Turtle reader with the texts of what it read, and the
engine under the bounds of the call. -/
structure Host where
  sha256Hex : Bytes → String
  turtleGraph : Bytes → Except String (List (Bytes × Bytes × Bytes))
  engine : Bytes → Bytes → Except String Run

/-- A document that the engine was given, and the facts it was told to find in it. -/
structure Call where
  document : Bytes
  facts : Bytes
  deriving DecidableEq, Repr

/-- What the engine was asked on the way, and the outcome: none where the code raises. -/
structure Asked (α : Type) where
  calls : List Call
  result : Option (Except Refusal α)

namespace Asked
variable {α β : Type}

def of (result : Except Refusal α) : Asked α := ⟨[], some result⟩

def bind (asked : Asked α) (next : α → Asked β) : Asked β :=
  match asked.result with
  | some (.ok value) => ⟨asked.calls ++ (next value).calls, (next value).result⟩
  | some (.error refusal) => ⟨asked.calls, some (.error refusal)⟩
  | none => ⟨asked.calls, none⟩

instance : Monad Asked where
  pure value := of (.ok value)
  bind := bind

end Asked

section Closing

variable (host : Host)

def hookIri (graph : List (Bytes × Bytes × Bytes)) : Option Bytes :=
  (graph.flatMap fun (subject, predicate, object) => [subject, predicate, object]).find?
    (RuleDocument.inside RuleDocument.hookNamespaces)

def factsShape (facts : Bytes) : Except Refusal (List (Bytes × Bytes × Bytes)) :=
  match host.turtleGraph facts with
  | .error reason => .error (.factsNotPlainRdf reason)
  | .ok graph =>
    match hookIri graph with
    | none => .ok graph
    | some iri => .error (.hookInFacts iri)

def ruleIdentity (digest : String) (admittedRules : List String) : Except Refusal Unit :=
  if digest ∈ admittedRules then .ok () else .error (.unadmittedRule digest)

def ruleShape (rules : Bytes) : Asked RuleDocument.Analysis :=
  ⟨[], (RuleDocument.check rules).map (·.mapError .ruleShape)⟩

def engine (document facts : Bytes) : Asked Run :=
  ⟨[⟨document, facts⟩], some ((host.engine document facts).mapError .engine)⟩

def admitClosure (program : Program) (run : Run) (graph : List (Bytes × Bytes × Bytes))
    (analysis : RuleDocument.Analysis) : Except Refusal Closure :=
  if run.denialRefused then .error (.denialViolated run.denialCount)
  else
    .ok {
      rulesDigest := host.sha256Hex program.rules
      factsDigest := host.sha256Hex program.facts
      factCountBefore := graph.length
      factCountAfter := graph.length + run.derivedCount
      derivedCount := run.derivedCount
      ruleCount := analysis.rules.length
      denialCount := run.denialCount }

def close (admittedRules : List String) (program : Program) : Asked Closure := do
  let graph ← .of (factsShape host program.facts)
  .of (ruleIdentity (host.sha256Hex program.rules) admittedRules)
  let analysis ← ruleShape program.rules
  let run ← engine host (program.facts ++ utf8 "\n" ++ program.rules) program.facts
  .of (admitClosure host program run graph analysis)

/-- The rules with the witness as a denial behind them. -/
def query (program : Program) (witness : Bytes) : Bytes :=
  program.rules ++ utf8 "\n\x7b " ++ witness ++ utf8 " \x7d => false .\n"

def witnessShape (witness query : Bytes) : Asked Unit :=
  ⟨[], (RuleDocument.check query).map fun
    | .error failure => .error (.entailmentWitness failure)
    | .ok _ => if 0x3f ∈ witness then .ok () else .error .groundWitness⟩

/-- `entails?/3` -/
def entails (admittedRules : List String) (program : Program) (witness : Bytes) : Asked Bool := do
  let closure ← close host admittedRules program
  witnessShape witness (query program witness)
  let run ← engine host (program.facts ++ utf8 "\n" ++ query program witness) program.facts
  pure (run.denialCount > closure.denialCount)

end Closing

end AshA2A.Semantic.LogicClosure
