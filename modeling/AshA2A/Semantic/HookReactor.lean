import AshA2A.UniqueBy
import AshA2A.Value
import Mathlib.Data.Prod.Lex
import Mathlib.Data.String.Basic

/-! The hook reactor: the admitted hooks that match a change ask for commands, and what these commands
change is what the hooks are matched against next. -/

namespace AshA2A.Semantic.HookReactor
open UniqueBy

/-- What the reactor takes from the language: the SHA-256 of a term, the text of a map key that is
neither an atom nor a binary, and the order of terms. -/
structure Host where
  sha256 : Value → String
  text : Value → Option Bytes
  sort : List Value → List Value

/-- `to_string/1`. -/
def Host.toText (host : Host) : Value → Option Bytes
  | .atom name => if name = "nil" then some [] else some (utf8 name)
  | .binary bytes => some bytes
  | other => host.text other

/-! ## Hooks -/

structure Template where
  capabilityId : String
  input : List (Value × Value)
  deriving Repr

structure Hook where
  id : String
  revision : Int
  trigger : String
  guard : Option String := none
  witness : String
  conditionDigest : Option String := none
  intent : Template
  provenance : Value
  deriving Repr

namespace Hook

mutual

/-- Maps as lists of their entries, whose keys are only known by their text. -/
def canonical (host : Host) : Value → Option Value
  | .map entries => (canonicalEntries host entries).map fun entries => .list (host.sort entries)
  | .list items => (canonicalItems host items).map .list
  | .improper _ _ => none
  | other => some other
termination_by structural value => value

def canonicalItems (host : Host) : List Value → Option (List Value)
  | [] => some []
  | item :: items => do
    let item ← canonical host item
    let items ← canonicalItems host items
    pure (item :: items)

def canonicalEntries (host : Host) : List (Value × Value) → Option (List Value)
  | [] => some []
  | (key, value) :: entries => do
    let key ← host.toText key
    let value ← canonical host value
    let entries ← canonicalEntries host entries
    pure (.tuple [.binary key, value] :: entries)

end

def textOrNil : Option String → Value
  | some text => .text text
  | none => .nil

/-- What a hook is admitted as. It raises where a key has no text. -/
def identity (host : Host) (hook : Hook) : Option Value := do
  let input ← canonicalEntries host hook.intent.input
  let provenance ← canonical host hook.provenance
  pure (.tuple [.text "sa2a-hook/1", .text hook.id, .integer hook.revision, .text hook.trigger, textOrNil hook.guard,
    .text hook.witness, textOrNil hook.conditionDigest,
    .list (host.sort [.tuple [.text "capability_id", .text hook.intent.capabilityId],
      .tuple [.text "input", .list (host.sort input)]]), provenance])

def digest (host : Host) (hook : Hook) : Option String := (hook.identity host).map host.sha256

end Hook

/-! ## Intents -/

/-- A map with texts for keys, in the order of the keys. -/
abbrev Input := List (Bytes × Value)

def Input.put (key : Bytes) (value : Value) : Input → Input
  | [] => [(key, value)]
  | (name, stored) :: rest =>
    if name = key then (key, value) :: rest
    else if key < name then (key, value) :: (name, stored) :: rest
    else (name, stored) :: Input.put key value rest

structure Intent where
  intentId : String
  hookId : String
  hookRevision : Int
  hookDigest : String
  deltaDigest : String
  generation : Nat
  capabilityId : String
  input : Input
  deriving Repr

namespace Intent

/-- The keys of a hook that has a digest have texts. -/
def template (host : Host) (hook : Hook) : Input :=
  hook.intent.input.foldl (fun input entry => input.put ((host.toText entry.1).getD []) entry.2) []

def build (host : Host) (hook : Hook) (hookDigest deltaDigest : String) (generation : Nat) : Intent :=
  let template := template host hook
  let intentId := host.sha256 (.tuple [.text "sa2a-hook-intent/1", .text hook.id, .integer hook.revision,
    .text hookDigest, .text deltaDigest, .text hook.intent.capabilityId,
    .list (template.map fun entry => .tuple [.binary entry.1, entry.2])])
  { intentId
    hookId := hook.id
    hookRevision := hook.revision
    hookDigest
    deltaDigest
    generation
    capabilityId := hook.intent.capabilityId
    input := template.put (utf8 "cause") (.text intentId) }

def commandId (intent : Intent) : String := "hook-intent-" ++ intent.intentId

end Intent

/-! ## The surroundings of an episode -/

structure Bounds where
  fanOut : Nat
  depth : Nat
  parallelism : Nat
  authority : Value := .atom "none"
  deriving Repr

structure Delta (Graph : Type) where
  graph : Graph
  ntriples : String
  digest : String
  size : Nat

structure Engine (Graph : Type) where
  canonicalDelta : String → Except String (Delta Graph)
  /-- Whether a condition matches, in N-Triples. -/
  matches? : String → String → Except String Bool
  add : Graph → Graph → Graph
  write : Graph → String

structure Receipt where
  replayed : Bool
  status : String
  term : Value
  deriving Repr

/-- What the command bus answers with. A task that is gone has crashed. -/
inductive Reply where
  | ok (receipt : Receipt)
  | error (code : String) (receipt : Option Receipt)
  | other
  | crashed
  deriving Repr

structure Config (Graph World : Type) where
  engine : Engine Graph
  bounds : Bounds
  /-- The digests of the admitted hooks. -/
  admission : List String
  base : String := ""
  parallelism : Int
  /-- Commands are routed a generation at a time, in any number of tasks. -/
  commandBus : World → List Intent → List Reply × World
  project : Option (Intent → Receipt → Option String) := none

/-! ## What an episode records -/

inductive GuardOutcome where
  | none | notEvaluated
  | decided (holds : Bool)
  deriving Repr, DecidableEq

inductive EvaluationOutcome where
  | fired (guard : GuardOutcome)
  | notFired (trigger : Bool) (guard : GuardOutcome)
  | refused (code : String)
  deriving Repr, DecidableEq

structure Evaluation where
  generation : Nat
  hookId : String
  hookRevision : Int
  deltaDigest : String
  outcome : EvaluationOutcome
  deriving Repr, DecidableEq

inductive RouteOutcome where
  | committed | replayed | failed | uncommitted | refused
  deriving Repr, DecidableEq

structure Route where
  intent : Intent
  commandId : String
  outcome : RouteOutcome
  code : Option String
  receipt : Option Receipt
  deriving Repr

inductive BoundKind where
  | parallelism | depth | fanOut
  deriving Repr, DecidableEq

structure BoundDecision where
  bound : BoundKind
  generation : Nat
  requested : Int
  ceiling : Nat
  /-- The code of the refusal. -/
  refused : Option String
  deriving Repr, DecidableEq

/-- The lists have the last record first, until the episode is over. -/
structure Result where
  /-- `none` is quiescence, otherwise the code of the refusal. -/
  refused : Option String := none
  deltaDigest : Option String := none
  deltaSize : Nat := 0
  generations : Nat := 0
  depthReached : Nat := 0
  evaluations : List Evaluation := []
  intents : List Intent := []
  routes : List Route := []
  boundDecisions : List BoundDecision := []
  deriving Repr

def finish (result : Result) (refused : Option String) : Result :=
  { result with
    refused
    evaluations := result.evaluations.reverse
    intents := result.intents.reverse
    routes := result.routes.reverse
    boundDecisions := result.boundDecisions.reverse }

def bound (result : Result) (bound : BoundKind) (generation : Nat) (requested : Int) (ceiling : Nat)
    (refused : Option String) : Result :=
  { result with boundDecisions := ⟨bound, generation, requested, ceiling, refused⟩ :: result.boundDecisions }

/-! ## Evaluation -/

section Episode
variable {Graph World : Type} (host : Host) (config : Config Graph World)

/-- A hook with its digest. -/
abbrev Candidate := Hook × String

/-- The hooks that are evaluated, in their order. -/
def candidates (hooks : List Hook) : Option (List Candidate) := do
  let digested ← hooks.mapM fun hook => (hook.digest host).map (hook, ·)
  pure (sortBy (fun candidate : Candidate => toLex (candidate.1.id, candidate.2)) (uniqBy Prod.snd digested))

def guard (trigger : Bool) (guard : Option String) (postState : String) : Except String GuardOutcome :=
  match guard with
  | none => .ok .none
  | some condition =>
    if trigger then (config.engine.matches? postState condition).map .decided else .ok .notEvaluated

/-- How one hook does on one change. -/
def judge (delta : Delta Graph) (candidate : Candidate) (postState : String) : EvaluationOutcome × Option String :=
  if candidate.2 ∈ config.admission then
    match (do
      let trigger ← config.engine.matches? delta.ntriples candidate.1.trigger
      let guard ← guard config trigger candidate.1.guard postState
      pure (trigger, guard) : Except String (Bool × GuardOutcome)) with
    | .ok (trigger, guard) =>
      if trigger ∧ (guard = .none ∨ guard = .decided true) then (.fired guard, none) else (.notFired trigger guard, none)
    | .error code => (.refused code, some code)
  else (.refused "hook_not_admitted", none)

def evaluation (generation : Nat) (delta : Delta Graph) (candidate : Candidate) (outcome : EvaluationOutcome) :
    Evaluation :=
  ⟨generation, candidate.1.id, candidate.1.revision, delta.digest, outcome⟩

abbrev Fired (Graph : Type) := Delta Graph × Candidate

/-- The first error of the engine ends the evaluation. -/
def evaluatePairs (generation : Nat) (postState : String) :
    List (Fired Graph) → Result → List (Fired Graph) → Result × Except String (List (Fired Graph))
  | [], result, fired => (result, .ok fired)
  | (delta, candidate) :: rest, result, fired =>
    let (outcome, stop) := judge config delta candidate postState
    let result := { result with evaluations := evaluation generation delta candidate outcome :: result.evaluations }
    match stop, outcome with
    | some code, _ => (result, .error code)
    | none, .fired _ => evaluatePairs generation postState rest result (fired ++ [(delta, candidate)])
    | none, _ => evaluatePairs generation postState rest result fired

def frontierPairs (frontier : List (Delta Graph)) (candidates : List Candidate) : List (Fired Graph) :=
  (sortBy Delta.digest (uniqBy Delta.digest frontier)).flatMap fun delta => candidates.map fun candidate => (delta, candidate)

/-! ## Intents -/

def construct (generation : Nat) (fired : List (Fired Graph)) (result : Result) : Result × List Intent :=
  let intents := fired.map fun entry => Intent.build host entry.2.1 entry.2.2 entry.1.digest generation
  ({ result with intents := intents.reverse ++ result.intents }, uniqBy Intent.intentId intents)

/-- How many intents each change asks for, in the order of the changes. -/
def grouped (intents : List Intent) : List (String × Nat) :=
  (sortBy id (uniqBy id (intents.map Intent.deltaDigest))).map fun digest =>
    (digest, intents.countP fun intent => intent.deltaDigest = digest)

def admitFanOut (generation : Nat) : List (String × Nat) → Result → Result × Option String
  | [], result => (result, none)
  | (_, requested) :: rest, result =>
    let ceiling := config.bounds.fanOut
    if requested ≤ ceiling then admitFanOut generation rest (bound result .fanOut generation requested ceiling none)
    else
      let code := "bounds_fan_out_exceeded"
      (bound result .fanOut generation requested ceiling (some code), some code)

/-! ## Routing -/

def classify : Reply → RouteOutcome × Option String × Option Receipt
  | .ok receipt =>
    if receipt.replayed then (.replayed, none, some receipt)
    else if receipt.status = "completed" then (.committed, none, some receipt)
    else (.failed, some receipt.status, some receipt)
  | .error code (some receipt) => (.uncommitted, some code, some receipt)
  | .error code none => (.refused, some code, none)
  | .other => (.refused, some "hook_route_crashed", none)
  | .crashed => (.failed, some "hook_route_crashed", none)

def route (intent : Intent) (reply : Reply) : Route :=
  let (outcome, code, receipt) := classify reply
  ⟨intent, intent.commandId, outcome, code, receipt⟩

def routeAll (intents : List Intent) (world : World) : List Route × World :=
  let intents := sortBy Intent.intentId intents
  let (replies, world) := config.commandBus world intents
  ((intents.zip replies).map fun entry => route entry.1 entry.2, world)

def committed (route : Route) : Bool := route.outcome = .committed

/-- What the committed routes changed. -/
def feedback (routes : List Route) : List (Delta Graph) :=
  match config.project with
  | none => []
  | some project =>
    uniqBy Delta.digest ((sortBy (fun route => route.intent.intentId) (routes.filter committed)).filterMap fun route =>
      match route.receipt.bind (project route.intent) with
      | some turtle => (config.engine.canonicalDelta turtle).toOption
      | none => none)

/-! ## Generations -/

/-- What a generation comes to: the end of the episode, or the changes the next one starts with. -/
inductive Turn (Graph World : Type) where
  | halted (result : Result)
  | next (deltas : List (Delta Graph)) (world : World) (result : Result)

/-- A generation in which something has fired. -/
def act (generation : Nat) (fired : List (Fired Graph)) (world : World) (result : Result) : Turn Graph World :=
  let depth := config.bounds.depth
  if depth < generation then
    let code := "bounds_depth_exceeded"
    .halted (finish (bound result .depth generation generation depth (some code)) (some code))
  else
    let (result, intents) := construct host generation fired (bound result .depth generation generation depth none)
    match admitFanOut config generation (grouped intents) result with
    | (result, some code) => .halted (finish result (some code))
    | (result, none) =>
      let (routes, world) := routeAll config intents world
      let result := { result with routes := routes.reverse ++ result.routes }
      let result := if routes.any committed then { result with depthReached := generation } else result
      match feedback config routes with
      | [] => .halted (finish result none)
      | deltas => .next deltas world result

/-- `none` has raised. -/
def turn (hooks : List Hook) (generation : Nat) (frontier : List (Delta Graph)) (graph : Graph) (world : World)
    (result : Result) : Option (Turn Graph World) :=
  (candidates host hooks).map fun candidates =>
    match evaluatePairs config generation (config.engine.write graph) (frontierPairs frontier candidates)
        { result with generations := generation } [] with
    | (result, .error code) => .halted (finish result (some code))
    | (result, .ok []) => .halted (finish result none)
    | (result, .ok fired) => act host config generation fired world result

theorem act_next {generation : Nat} {fired : List (Fired Graph)} {world after : World} {result final : Result}
    {deltas : List (Delta Graph)} (next : act host config generation fired world result = .next deltas after final) :
    generation ≤ config.bounds.depth := by
  unfold act at next
  dsimp only at next
  split at next
  · cases next
  · omega

theorem turn_next {hooks : List Hook} {generation : Nat} {frontier deltas : List (Delta Graph)} {graph : Graph}
    {world after : World} {result final : Result}
    (next : turn host config hooks generation frontier graph world result = some (.next deltas after final)) :
    generation ≤ config.bounds.depth := by
  obtain ⟨candidates, -, evaluated⟩ := Option.map_eq_some_iff.mp next
  split at evaluated
  · cases evaluated
  · cases evaluated
  · exact act_next host config evaluated

def generate (hooks : List Hook) (generation : Nat) (frontier : List (Delta Graph)) (graph : Graph) (world : World)
    (result : Result) : Option Result :=
  match turned : turn host config hooks generation frontier graph world result with
  | none => none
  | some (.halted result) => some result
  | some (.next deltas world result) =>
    generate hooks (generation + 1) deltas (deltas.foldl (fun graph delta => config.engine.add graph delta.graph) graph)
      world result
termination_by config.bounds.depth + 1 - generation
decreasing_by
  have within := turn_next host config turned
  omega

def admitParallelism (result : Result) : Result × Option String :=
  let requested := config.parallelism
  let ceiling := config.bounds.parallelism
  let refused :=
    if config.bounds.authority.equal true (.atom "none") = false then some "bounds_authority_ceiling_violated"
    else if requested < 1 then some "bounds_parallelism_exceeded"
    else if requested > ceiling then some "bounds_parallelism_exceeded"
    else none
  (bound result .parallelism 0 requested ceiling refused, refused)

def run (hooks : List Hook) (world : World) (delta : String) : Option Result :=
  match (do
    let base ← config.engine.canonicalDelta config.base
    let delta ← config.engine.canonicalDelta delta
    pure (base, delta) : Except String (Delta Graph × Delta Graph)) with
  | .error code => some (finish {} (some code))
  | .ok (base, delta) =>
    match admitParallelism config { deltaDigest := some delta.digest, deltaSize := delta.size } with
    | (result, some code) => some (finish result (some code))
    | (result, none) =>
      generate host config hooks 1 [delta] (config.engine.add base.graph delta.graph) world result

end Episode
end AshA2A.Semantic.HookReactor
