import AshA2A.Outcome
import AshA2A.Semantic.HookReactor
import Mathlib.Data.Finset.Card
import Mathlib.Order.Interval.Finset.Nat

/-! An episode of the hook reactor stays within its bounds, and the order in which the hooks are passed
does not matter as long as a digest stands for one template. -/

namespace AshA2A.Semantic.HookReactor
open UniqueBy

variable {Graph World : Type} {host : Host} {config : Config Graph World} {hooks others : List Hook}

/-! ## The bounds -/

/-- The evaluation fired a hook of the list that is admitted. -/
def FiredAdmitted (host : Host) (admission : List String) (hooks : List Hook) (evaluation : Evaluation) : Prop :=
  ∃ hook ∈ hooks, ∃ digest ∈ admission, hook.digest host = some digest ∧
    evaluation.hookId = hook.id ∧ evaluation.hookRevision = hook.revision

def asks (generation : Nat) (deltaDigest : String) (intent : Intent) : Bool :=
  intent.generation = generation ∧ intent.deltaDigest = deltaDigest

/-- What the records of an episode keep to in every generation. -/
structure Bounded (host : Host) (config : Config Graph World) (hooks : List Hook) (evaluations : List Evaluation)
    (routes : List Route) : Prop where
  fired : ∀ evaluation ∈ evaluations, ∀ guard, evaluation.outcome = .fired guard →
    FiredAdmitted host config.admission hooks evaluation
  admitted : ∀ route ∈ routes, route.intent.hookDigest ∈ config.admission
  within : ∀ route ∈ routes, 1 ≤ route.intent.generation ∧ route.intent.generation ≤ config.bounds.depth
  fanOut : ∀ generation deltaDigest,
    routes.countP (fun route => asks generation deltaDigest route.intent) ≤ config.bounds.fanOut

def Before (generation : Nat) (routes : List Route) : Prop := ∀ route ∈ routes, route.intent.generation < generation

/-- The law of one episode. -/
structure Reaction (host : Host) (config : Config Graph World) (hooks : List Hook) (result : Result) : Prop where
  bounded : Bounded host config hooks result.evaluations result.routes
  generations : (result.routes.map fun route => route.intent.generation).toFinset.card ≤ config.bounds.depth
  /-- Nothing is routed in a generation that is refused. -/
  refused : ∀ code, result.refused = some code → Before result.generations result.routes

theorem Bounded.generations {evaluations : List Evaluation} {routes : List Route}
    (bounded : Bounded host config hooks evaluations routes) :
    (routes.map fun route => route.intent.generation).toFinset.card ≤ config.bounds.depth := by
  have inside : (routes.map fun route => route.intent.generation).toFinset ⊆ Finset.Icc 1 config.bounds.depth := by
    intro generation member
    obtain ⟨route, routed, rfl⟩ := List.mem_map.mp (List.mem_toFinset.mp member)
    exact Finset.mem_Icc.mpr (bounded.within route routed)
  exact (Finset.card_le_card inside).trans (by simp)

/-- The order of the records does not matter. -/
theorem Bounded.reverse {evaluations : List Evaluation} {routes : List Route}
    (bounded : Bounded host config hooks evaluations routes) :
    Bounded host config hooks evaluations.reverse routes.reverse where
  fired evaluation member := bounded.fired evaluation (List.mem_reverse.mp member)
  admitted route member := bounded.admitted route (List.mem_reverse.mp member)
  within route member := bounded.within route (List.mem_reverse.mp member)
  fanOut generation deltaDigest := by
    rw [List.countP_reverse]
    exact bounded.fanOut generation deltaDigest

/-! ### Evaluation -/

theorem mem_candidates {list : List Candidate} (found : candidates host hooks = some list) {candidate : Candidate}
    (member : candidate ∈ list) : candidate.1 ∈ hooks ∧ candidate.1.digest host = some candidate.2 := by
  obtain ⟨digested, mapped, sorted⟩ := Option.bind_eq_some_iff.mp found
  cases sorted
  obtain ⟨hook, listed, same⟩ := (mapM_mem mapped).mp (mem_of_uniqBy (mem_sortBy.mp member))
  obtain ⟨digest, made, rfl⟩ := Option.map_eq_some_iff.mp same
  exact ⟨listed, made⟩

theorem judge_fired {delta : Delta Graph} {candidate : Candidate} {postState : String} {outcome : GuardOutcome}
    {stop : Option String} (judged : judge config delta candidate postState = (.fired outcome, stop)) :
    candidate.2 ∈ config.admission ∧ stop = none := by
  unfold judge at judged
  split at judged
  case isTrue admitted =>
    refine ⟨admitted, ?_⟩
    split at judged
    · split at judged <;> cases judged
      rfl
    · cases judged
  case isFalse => cases judged

/-- What the evaluation of a generation adds to the records. -/
structure Evaluates (config : Config Graph World) (pairs : List (Fired Graph)) (before after : Result) : Prop where
  frame : after = { before with evaluations := after.evaluations }
  evaluations : ∀ evaluation ∈ after.evaluations, evaluation ∈ before.evaluations ∨
    ∃ pair ∈ pairs, evaluation.hookId = pair.2.1.id ∧ evaluation.hookRevision = pair.2.1.revision ∧
      ∀ guard, evaluation.outcome = .fired guard → pair.2.2 ∈ config.admission

theorem evaluatePairs_records {generation : Nat} {postState : String} (pairs : List (Fired Graph)) (result : Result)
    (fired : List (Fired Graph)) :
    Evaluates config pairs result (evaluatePairs config generation postState pairs result fired).1 := by
  induction pairs generalizing result fired with
  | nil => exact ⟨rfl, fun _ member => .inl member⟩
  | cons pair rest ih =>
    obtain ⟨delta, candidate⟩ := pair
    rw [evaluatePairs]
    cases judged : judge config delta candidate postState with | mk outcome stop =>
    have one : Evaluates config ((delta, candidate) :: rest) result
        { result with evaluations := evaluation generation delta candidate outcome :: result.evaluations } := by
      refine ⟨rfl, fun entry member => ?_⟩
      rcases List.mem_cons.mp member with rfl | before
      · refine .inr ⟨(delta, candidate), List.mem_cons_self, rfl, rfl, fun guard fires => ?_⟩
        have fires : outcome = .fired guard := fires
        exact (judge_fired (judged.trans (by rw [fires]))).1
      · exact .inl before
    have later (fired : List (Fired Graph)) : Evaluates config ((delta, candidate) :: rest) result
        (evaluatePairs config generation postState rest
          { result with evaluations := evaluation generation delta candidate outcome :: result.evaluations } fired).1 := by
      obtain ⟨frame, added⟩ := ih
        { result with evaluations := evaluation generation delta candidate outcome :: result.evaluations } fired
      refine ⟨frame, fun entry member => ?_⟩
      rcases added entry member with before | ⟨pair, among, facts⟩
      · exact one.evaluations entry before
      · exact .inr ⟨pair, List.mem_cons_of_mem _ among, facts⟩
    dsimp only
    split
    · exact one
    · exact later _
    · exact later _

/-- What has fired is admitted. -/
theorem evaluatePairs_fired {generation : Nat} {postState : String} {pairs out : List (Fired Graph)} {result : Result}
    {fired : List (Fired Graph)} (evaluated : (evaluatePairs config generation postState pairs result fired).2 = .ok out) :
    ∀ entry ∈ out, entry ∈ fired ∨ (entry ∈ pairs ∧ entry.2.2 ∈ config.admission) := by
  induction pairs generalizing result fired with
  | nil =>
    cases evaluated
    exact fun entry member => .inl member
  | cons pair rest ih =>
    obtain ⟨delta, candidate⟩ := pair
    rw [evaluatePairs] at evaluated
    cases judged : judge config delta candidate postState with | mk outcome stop =>
    rw [judged] at evaluated
    dsimp only at evaluated
    split at evaluated
    · cases evaluated
    · intro entry member
      rcases ih evaluated entry member with before | ⟨among, admitted⟩
      · rcases List.mem_append.mp before with before | now
        · exact .inl before
        · obtain rfl := List.mem_singleton.mp now
          exact .inr ⟨List.mem_cons_self, (judge_fired judged).1⟩
      · exact .inr ⟨List.mem_cons_of_mem _ among, admitted⟩
    · intro entry member
      rcases ih evaluated entry member with before | ⟨among, admitted⟩
      · exact .inl before
      · exact .inr ⟨List.mem_cons_of_mem _ among, admitted⟩

theorem mem_frontierPairs {frontier : List (Delta Graph)} {list : List Candidate} {pair : Fired Graph}
    (member : pair ∈ frontierPairs frontier list) : pair.2 ∈ list := by
  obtain ⟨delta, -, mapped⟩ := List.mem_flatMap.mp member
  obtain ⟨candidate, listed, rfl⟩ := List.mem_map.mp mapped
  exact listed

/-! ### Routing -/

theorem construct_intents {generation : Nat} {fired : List (Fired Graph)} {result : Result} {intent : Intent}
    (member : intent ∈ (construct host generation fired result).2) :
    intent.generation = generation ∧ ∃ entry ∈ fired, intent.hookDigest = entry.2.2 := by
  obtain ⟨entry, among, rfl⟩ := List.mem_map.mp (mem_of_uniqBy member)
  exact ⟨rfl, entry, among, rfl⟩

/-- Every change keeps to the fan-out. -/
theorem admitFanOut_none {generation : Nat} {groups : List (String × Nat)} {result : Result}
    (admitted : (admitFanOut config generation groups result).2 = none) :
    ∀ group ∈ groups, group.2 ≤ config.bounds.fanOut := by
  induction groups generalizing result with
  | nil => exact fun _ none => absurd none List.not_mem_nil
  | cons group rest ih =>
    obtain ⟨digest, requested⟩ := group
    rw [admitFanOut] at admitted
    dsimp only at admitted
    split at admitted
    case isTrue small => exact List.forall_mem_cons.mpr ⟨small, ih admitted⟩
    case isFalse => cases admitted

theorem admitFanOut_frame (generation : Nat) (groups : List (String × Nat)) (result : Result) :
    (admitFanOut config generation groups result).1 =
      { result with boundDecisions := (admitFanOut config generation groups result).1.boundDecisions } := by
  induction groups generalizing result with
  | nil => rfl
  | cons group rest ih =>
    rw [admitFanOut]
    dsimp only
    split
    · rw [ih]
      rfl
    · rfl

theorem grouped_count {intents : List Intent} (bounded : ∀ group ∈ grouped intents, group.2 ≤ config.bounds.fanOut)
    (digest : String) : (intents.countP fun intent => intent.deltaDigest = digest) ≤ config.bounds.fanOut := by
  by_cases some : digest ∈ intents.map Intent.deltaDigest
  · refine bounded (digest, _) (List.mem_map.mpr ⟨digest, ?_, rfl⟩)
    have kept : digest ∈ (uniqBy id (intents.map Intent.deltaDigest)).map id := uniqBy_keys.mpr (by rwa [List.map_id])
    rw [List.map_id] at kept
    exact mem_sortBy.mpr kept
  · rw [List.countP_eq_zero.mpr]
    · exact Nat.zero_le _
    · intro intent member same
      exact some (List.mem_map.mpr ⟨intent, member, of_decide_eq_true same⟩)

theorem zip_fst_sublist {α β : Type} (items : List α) (answers : List β) :
    ((items.zip answers).map Prod.fst).Sublist items := by
  induction items generalizing answers with
  | nil => simp
  | cons item items ih =>
    cases answers with
    | nil => exact List.nil_sublist _
    | cons answer answers => exact (ih answers).cons_cons item

/-- The intents that are routed are some of those that were constructed. -/
theorem routeAll_intents (intents : List Intent) (world : World) :
    ((routeAll config intents world).1.map Route.intent).Subperm intents := by
  have routed : (routeAll config intents world).1.map Route.intent =
      ((sortBy Intent.intentId intents).zip (config.commandBus world (sortBy Intent.intentId intents)).1).map Prod.fst := by
    rw [routeAll, List.map_map]
    rfl
  rw [routed]
  exact (zip_fst_sublist _ _).subperm.trans sortBy_perm.subperm

/-! ### A generation -/

/-- A generation adds routes that keep to the bounds to those of the generations before it. -/
theorem Bounded.route {evaluations : List Evaluation} {earlier now : List Route} {generation : Nat}
    {intents : List Intent} (bounded : Bounded host config hooks evaluations earlier) (before : Before generation earlier)
    (routed : (now.map Route.intent).Subperm intents) (first : 1 ≤ generation) (last : generation ≤ config.bounds.depth)
    (current : ∀ intent ∈ intents, intent.generation = generation ∧ intent.hookDigest ∈ config.admission)
    (fanOut : ∀ digest, (intents.countP fun intent => intent.deltaDigest = digest) ≤ config.bounds.fanOut) :
    Bounded host config hooks evaluations (now.reverse ++ earlier) ∧ Before (generation + 1) (now.reverse ++ earlier) := by
  have fresh : ∀ route ∈ now, route.intent.generation = generation ∧ route.intent.hookDigest ∈ config.admission :=
    fun route member => current route.intent (routed.subset (List.mem_map.mpr ⟨route, member, rfl⟩))
  refine ⟨⟨bounded.fired, fun route member => ?_, fun route member => ?_, fun other digest => ?_⟩, fun route member => ?_⟩
  · rcases List.mem_append.mp member with new | old
    · exact (fresh route (List.mem_reverse.mp new)).2
    · exact bounded.admitted route old
  · rcases List.mem_append.mp member with new | old
    · rw [(fresh route (List.mem_reverse.mp new)).1]
      exact ⟨first, last⟩
    · exact bounded.within route old
  · rw [List.countP_append, List.countP_reverse]
    by_cases same : other = generation
    · subst same
      have none : earlier.countP (fun route => asks other digest route.intent) = 0 := by
        refine List.countP_eq_zero.mpr fun route old asked => ?_
        have asked : route.intent.generation = other ∧ route.intent.deltaDigest = digest := by simpa [asks] using asked
        exact absurd (before route old) (by omega)
      have some : now.countP (fun route => asks other digest route.intent) ≤
          intents.countP fun intent => intent.deltaDigest = digest := by
        calc now.countP (fun route => asks other digest route.intent)
            ≤ now.countP fun route => route.intent.deltaDigest = digest :=
              List.countP_mono_left fun route _ asked => by
                have asked : route.intent.generation = other ∧ route.intent.deltaDigest = digest := by
                  simpa [asks] using asked
                simpa using asked.2
          _ = (now.map Route.intent).countP fun intent => intent.deltaDigest = digest := by
              rw [List.countP_map]
              rfl
          _ ≤ intents.countP fun intent => intent.deltaDigest = digest := routed.countP_le _
      have most := fanOut digest
      omega
    · have none : now.countP (fun route => asks other digest route.intent) = 0 := by
        refine List.countP_eq_zero.mpr fun route new asked => ?_
        have asked : route.intent.generation = other ∧ route.intent.deltaDigest = digest := by simpa [asks] using asked
        exact same (asked.1.symm.trans (fresh route new).1)
      rw [none, Nat.zero_add]
      exact bounded.fanOut other digest
  · rcases List.mem_append.mp member with new | old
    · rw [(fresh route (List.mem_reverse.mp new)).1]
      exact Nat.lt_succ_self _
    · exact Nat.lt_succ_of_lt (before route old)

/-- How a generation leaves the records. -/
def Leaves (host : Host) (config : Config Graph World) (hooks : List Hook) (generation : Nat) : Turn Graph World → Prop
  | .halted result => Reaction host config hooks result
  | .next _ _ result => Bounded host config hooks result.evaluations result.routes ∧ Before (generation + 1) result.routes

theorem finish_reaction {result : Result} {code : Option String}
    (bounded : Bounded host config hooks result.evaluations result.routes)
    (refused : code ≠ none → Before result.generations result.routes) :
    Reaction host config hooks (finish result code) where
  bounded := bounded.reverse
  generations := bounded.reverse.generations
  refused other same route member := by
    have given : code = some other := same
    exact refused (by rw [given]; exact Option.some_ne_none other) route (List.mem_reverse.mp member)

theorem act_leaves {generation : Nat} {fired : List (Fired Graph)} {world : World} {result : Result}
    (bounded : Bounded host config hooks result.evaluations result.routes) (before : Before generation result.routes)
    (first : 1 ≤ generation) (current : result.generations = generation)
    (admitted : ∀ entry ∈ fired, entry.2.2 ∈ config.admission) :
    Leaves host config hooks generation (act host config generation fired world result) := by
  unfold act
  dsimp only
  split
  · exact finish_reaction bounded fun _ => by rw [← current] at before; exact before
  case isFalse small =>
    generalize built : construct host generation fired
      (bound result .depth generation generation config.bounds.depth none) = made
    obtain ⟨constructed, intents⟩ := made
    have named : ∀ intent ∈ intents, intent.generation = generation ∧ intent.hookDigest ∈ config.admission := by
      intro intent member
      obtain ⟨same, entry, among, digest⟩ := construct_intents (by rw [built]; exact member)
      exact ⟨same, digest ▸ admitted entry among⟩
    have kept : constructed.evaluations = result.evaluations ∧ constructed.routes = result.routes ∧
        constructed.generations = result.generations := by
      obtain ⟨rfl, -⟩ := Prod.mk.inj built
      exact ⟨rfl, rfl, rfl⟩
    have frame := @admitFanOut_frame _ _ config generation (grouped intents) constructed
    cases fan : admitFanOut config generation (grouped intents) constructed with | mk bounds code =>
    rw [fan] at frame
    have evaluations : bounds.evaluations = result.evaluations := (congrArg Result.evaluations frame).trans kept.1
    have routes : bounds.routes = result.routes := (congrArg Result.routes frame).trans kept.2.1
    have generations : bounds.generations = result.generations := (congrArg Result.generations frame).trans kept.2.2
    cases code with
    | some code =>
      refine finish_reaction (by rwa [evaluations, routes]) fun _ => ?_
      rw [routes, generations, current]
      exact before
    | none =>
      have few := grouped_count (admitFanOut_none (by rw [fan]))
      have routed := @routeAll_intents _ _ config intents world
      obtain ⟨bounded, before⟩ := bounded.route before routed first (Nat.le_of_not_lt small) named few
      cases sent : routeAll config intents world with | mk now after =>
      rw [sent] at bounded before
      rw [← evaluations, ← routes] at bounded
      rw [← routes] at before
      dsimp only
      split_ifs
      all_goals
        split
        · exact finish_reaction bounded fun given => absurd rfl given
        · exact ⟨bounded, before⟩

theorem turn_leaves {generation : Nat} {frontier : List (Delta Graph)} {graph : Graph} {world : World} {result : Result}
    {next : Turn Graph World} (bounded : Bounded host config hooks result.evaluations result.routes)
    (before : Before generation result.routes) (first : 1 ≤ generation)
    (turned : turn host config hooks generation frontier graph world result = some next) :
    Leaves host config hooks generation next := by
  obtain ⟨list, found, evaluated⟩ := Option.map_eq_some_iff.mp turned
  have records := @evaluatePairs_records _ _ config generation (config.engine.write graph) (frontierPairs frontier list)
    { result with generations := generation } []
  have fires := @evaluatePairs_fired _ _ config generation (config.engine.write graph) (frontierPairs frontier list)
  cases outcome : evaluatePairs config generation (config.engine.write graph) (frontierPairs frontier list)
      { result with generations := generation } [] with | mk after fired =>
  rw [outcome] at records evaluated
  have frame : after = { result with generations := generation, evaluations := after.evaluations } := records.frame
  have routes : after.routes = result.routes := (congrArg Result.routes frame).trans rfl
  have generations : after.generations = generation := (congrArg Result.generations frame).trans rfl
  have kept : Bounded host config hooks after.evaluations after.routes := by
    refine ⟨fun entry member guard fires => ?_, ?_, ?_, ?_⟩
    · rcases records.evaluations entry member with old | ⟨pair, among, id, revision, admitted⟩
      · exact bounded.fired entry old guard fires
      · obtain ⟨listed, digest⟩ := mem_candidates found (mem_frontierPairs among)
        exact ⟨pair.2.1, listed, pair.2.2, admitted guard fires, digest, id, revision⟩
    all_goals rw [routes]
    · exact bounded.admitted
    · exact bounded.within
    · exact bounded.fanOut
  have still : Before generation after.routes := by rwa [routes]
  cases fired with
  | error code =>
    cases evaluated
    exact finish_reaction kept fun _ => by rwa [generations]
  | ok fired =>
    cases fired with
    | nil =>
      cases evaluated
      exact finish_reaction kept fun given => absurd rfl given
    | cons entry rest =>
      cases evaluated
      refine act_leaves kept still first generations fun entry member => ?_
      rcases fires (congrArg Prod.snd outcome) entry member with none | ⟨-, admitted⟩
      · exact absurd none List.not_mem_nil
      · exact admitted

theorem generate_reaction {generation : Nat} {frontier : List (Delta Graph)} {graph : Graph} {world : World}
    {result final : Result} (bounded : Bounded host config hooks result.evaluations result.routes)
    (before : Before generation result.routes) (first : 1 ≤ generation)
    (generated : generate host config hooks generation frontier graph world result = some final) :
    Reaction host config hooks final := by
  fun_induction generate host config hooks generation frontier graph world result with
  | case1 => cases generated
  | case2 generation frontier graph world result ended turned =>
    cases generated
    exact turn_leaves bounded before first turned
  | case3 generation frontier graph world result deltas after next turned ih =>
    obtain ⟨kept, earlier⟩ := turn_leaves bounded before first turned
    exact ih kept earlier (by omega) generated

theorem admitParallelism_frame (result : Result) :
    (admitParallelism config result).1.evaluations = result.evaluations ∧
      (admitParallelism config result).1.routes = result.routes := ⟨rfl, rfl⟩

theorem bounded_nil : Bounded host config hooks [] [] :=
  ⟨fun _ none => absurd none List.not_mem_nil, fun _ none => absurd none List.not_mem_nil,
    fun _ none => absurd none List.not_mem_nil, fun _ _ => by simp⟩

theorem run_reaction {world : World} {delta : String} {result : Result}
    (ran : run host config hooks world delta = some result) : Reaction host config hooks result := by
  have empty : ∀ generation, Before generation [] := fun _ _ none => absurd none List.not_mem_nil
  unfold run at ran
  split at ran
  · cases ran
    exact finish_reaction bounded_nil fun _ => empty _
  · rename_i base delta parsed
    split at ran
    · rename_i after code refused
      cases ran
      obtain ⟨rfl, -⟩ := Prod.mk.inj refused
      exact finish_reaction bounded_nil fun _ => empty _
    · rename_i after refused
      obtain ⟨rfl, -⟩ := Prod.mk.inj refused
      exact generate_reaction bounded_nil (empty 1) (Nat.le_refl 1) ran

/-! ## The order of the hooks -/

/-- Different hooks have different digests. -/
def NoCollision (host : Host) (hooks : List Hook) : Prop :=
  ∀ first ∈ hooks, ∀ second ∈ hooks, ∀ digest, first.digest host = some digest → second.digest host = some digest →
    first.identity host = second.identity host

/-- Hooks of one digest ask for the same, unless a digest cannot be made. -/
def Consistent (host : Host) (hooks : List Hook) : Prop :=
  (∀ hook ∈ hooks, (hook.digest host).isSome) →
    ∀ first ∈ hooks, ∀ second ∈ hooks, ∀ digest, first.digest host = some digest → second.digest host = some digest →
      ∀ delta generation, Intent.build host first digest delta generation = Intent.build host second digest delta generation

/-- Two hooks that the reactor cannot tell apart. -/
structure Alike (host : Host) (first second : Candidate) : Prop where
  digest : first.2 = second.2
  id : first.1.id = second.1.id
  revision : first.1.revision = second.1.revision
  trigger : first.1.trigger = second.1.trigger
  guard : first.1.guard = second.1.guard
  build : ∀ delta generation,
    Intent.build host first.1 first.2 delta generation = Intent.build host second.1 second.2 delta generation

theorem text_inj {first second : String} (same : Value.text first = Value.text second) : first = second :=
  utf8_injective (Value.binary.inj same)

theorem textOrNil_inj {first second : Option String} (same : Hook.textOrNil first = Hook.textOrNil second) :
    first = second := by
  cases first with
  | none =>
    cases second with
    | none => rfl
    | some text => cases same
  | some text =>
    cases second with
    | none => cases same
    | some other => exact congrArg some (text_inj same)

theorem identity_parts {first second : Hook} {known : Value} (one : first.identity host = some known)
    (other : second.identity host = some known) :
    first.id = second.id ∧ first.revision = second.revision ∧ first.trigger = second.trigger ∧ first.guard = second.guard := by
  obtain ⟨input, -, more⟩ := Option.bind_eq_some_iff.mp one
  obtain ⟨provenance, -, same⟩ := Option.bind_eq_some_iff.mp more
  obtain ⟨input', -, more'⟩ := Option.bind_eq_some_iff.mp other
  obtain ⟨provenance', -, same'⟩ := Option.bind_eq_some_iff.mp more'
  have equal := Option.some.inj (same.trans same'.symm)
  simp only [Value.tuple.injEq, List.cons.injEq, Value.integer.injEq] at equal
  obtain ⟨-, id, revision, trigger, guard, -⟩ := equal
  exact ⟨text_inj id, revision, text_inj trigger, textOrNil_inj guard⟩

/-- What the order of the candidates goes by. -/
def place (candidate : Candidate) : String ×ₗ String := toLex (candidate.1.id, candidate.2)

/-- The hooks with their digests, where each has one. -/
theorem digested_all (whole : ∀ hook ∈ hooks, (hook.digest host).isSome) :
    ∃ digested, hooks.mapM (fun hook => (hook.digest host).map (hook, ·)) = some digested ∧
      ∀ candidate, candidate ∈ digested ↔ candidate.1 ∈ hooks ∧ candidate.1.digest host = some candidate.2 := by
  have each : ∀ hook ∈ hooks, ((hook.digest host).map (hook, ·)).isSome := fun hook member => by
    rw [Option.isSome_map]
    exact whole hook member
  obtain ⟨digested, mapped⟩ := mapM_some each
  refine ⟨digested, mapped, fun candidate => ?_⟩
  rw [mapM_mem mapped]
  constructor
  · rintro ⟨hook, member, made⟩
    obtain ⟨digest, found, rfl⟩ := Option.map_eq_some_iff.mp made
    exact ⟨member, found⟩
  · rintro ⟨member, found⟩
    exact ⟨candidate.1, member, by rw [found]; rfl⟩

theorem candidates_none (missing : ¬ ∀ hook ∈ hooks, (hook.digest host).isSome) : candidates host hooks = none := by
  rw [candidates, Option.bind_eq_bind, Option.bind_eq_none_iff]
  intro digested mapped
  refine absurd (fun hook member => ?_) missing
  have made := mapM_each mapped hook member
  rwa [Option.isSome_map] at made

theorem places_nodup {items : List Candidate} (distinct : (items.map Prod.snd).Nodup) : (items.map place).Nodup := by
  have digests : (items.map place).map (fun key => (ofLex key).2) = items.map Prod.snd := by
    rw [List.map_map]
    rfl
  rw [← digests] at distinct
  exact List.Nodup.of_map _ distinct

theorem candidates_alike (free : NoCollision host hooks) (consistent : Consistent host hooks)
    (same : ∀ hook, hook ∈ others ↔ hook ∈ hooks) :
    (candidates host hooks = none ∧ candidates host others = none) ∨
      ∃ first second, candidates host hooks = some first ∧ candidates host others = some second ∧
        List.Forall₂ (Alike host) first second := by
  by_cases whole : ∀ hook ∈ hooks, (hook.digest host).isSome
  · right
    have stands := consistent whole
    obtain ⟨mine, made, listed⟩ := digested_all whole
    have theirWhole : ∀ hook ∈ others, (hook.digest host).isSome := fun hook member => whole hook ((same hook).mp member)
    obtain ⟨theirs, made', listed'⟩ := digested_all theirWhole
    have members : ∀ candidate, candidate ∈ mine ↔ candidate ∈ theirs := fun candidate => by
      rw [listed, listed', same]
    have alike : ∀ first ∈ mine, ∀ second ∈ mine, first.2 = second.2 → Alike host first second := by
      intro first among second member digest
      obtain ⟨held, known⟩ := (listed first).mp among
      obtain ⟨held', known'⟩ := (listed second).mp member
      rw [← digest] at known'
      obtain ⟨identity, found, -⟩ := Option.map_eq_some_iff.mp known
      have equal := free first.1 held second.1 held' first.2 known known'
      obtain ⟨id, revision, trigger, guard⟩ := identity_parts found (equal ▸ found)
      refine ⟨digest, id, revision, trigger, guard, fun delta generation => ?_⟩
      rw [← digest]
      exact stands first.1 held second.1 held' first.2 known known' delta generation
    have places : ∀ name, name ∈ (uniqBy Prod.snd mine).map place ↔ name ∈ (uniqBy Prod.snd theirs).map place := by
      have covers : ∀ {left right : List Candidate}, (∀ candidate, candidate ∈ left → candidate ∈ right) →
          (∀ candidate, candidate ∈ right → candidate ∈ mine) → ∀ name, name ∈ (uniqBy Prod.snd left).map place →
          name ∈ (uniqBy Prod.snd right).map place := by
        intro left right sub known name member
        obtain ⟨candidate, among, rfl⟩ := List.mem_map.mp member
        have present := sub candidate (mem_of_uniqBy among)
        have covered : candidate.2 ∈ (uniqBy Prod.snd right).map Prod.snd :=
          uniqBy_keys.mpr (List.mem_map.mpr ⟨candidate, present, rfl⟩)
        obtain ⟨other, kept, digest⟩ := List.mem_map.mp covered
        have twin := alike other (known other (mem_of_uniqBy kept)) candidate (known candidate present) digest
        exact List.mem_map.mpr ⟨other, kept, by rw [place, place, twin.id, twin.digest]⟩
      intro name
      exact ⟨covers (fun candidate => (members candidate).mp) (fun candidate => (members candidate).mpr) name,
        covers (fun candidate => (members candidate).mpr) (fun _ => id) name⟩
    refine ⟨sortBy place (uniqBy Prod.snd mine), sortBy place (uniqBy Prod.snd theirs), ?_, ?_, ?_⟩
    · rw [candidates, made]
      rfl
    · rw [candidates, made']
      rfl
    · have sorted := sortBy_keys_eq (places_nodup uniqBy_nodup) (places_nodup uniqBy_nodup) places
      refine forall₂_of_keys sorted fun first among second member key => ?_
      have digest : first.2 = second.2 := congrArg (fun key => (ofLex key).2) key
      exact alike first (mem_of_uniqBy (mem_sortBy.mp among)) second
        ((members second).mpr (mem_of_uniqBy (mem_sortBy.mp member))) digest
  · left
    refine ⟨candidates_none whole, candidates_none fun all => whole fun hook member => ?_⟩
    exact all hook ((same hook).mpr member)

/-! ### Two runs -/

/-- The same change, and hooks that cannot be told apart. -/
def Paired (host : Host) (first second : Fired Graph) : Prop := first.1 = second.1 ∧ Alike host first.2 second.2

theorem judge_alike {delta : Delta Graph} {first second : Candidate} (alike : Alike host first second) (postState : String) :
    judge config delta first postState = judge config delta second postState := by
  unfold judge
  rw [alike.digest, alike.trigger, alike.guard]

theorem evaluatePairs_alike {generation : Nat} {postState : String} {pairs twins fired again : List (Fired Graph)}
    {result : Result} (paired : List.Forall₂ (Paired host) pairs twins) (both : List.Forall₂ (Paired host) fired again) :
    (evaluatePairs config generation postState pairs result fired).1 =
        (evaluatePairs config generation postState twins result again).1 ∧
      ((∃ code, (evaluatePairs config generation postState pairs result fired).2 = .error code ∧
          (evaluatePairs config generation postState twins result again).2 = .error code) ∨
        ∃ out more, (evaluatePairs config generation postState pairs result fired).2 = .ok out ∧
          (evaluatePairs config generation postState twins result again).2 = .ok more ∧
          List.Forall₂ (Paired host) out more) := by
  induction paired generalizing result fired again with
  | nil => exact ⟨rfl, .inr ⟨fired, again, rfl, rfl, both⟩⟩
  | @cons pair twin pairs twins one _ ih =>
    obtain ⟨delta, candidate⟩ := pair
    obtain ⟨delta', candidate'⟩ := twin
    obtain ⟨rfl, alike⟩ : delta = delta' ∧ Alike host candidate candidate' := one
    have recorded : ∀ outcome, evaluation generation delta candidate outcome =
        evaluation generation delta candidate' outcome := fun _ => by
      rw [evaluation, evaluation, alike.id, alike.revision]
    rw [evaluatePairs, evaluatePairs, judge_alike alike]
    cases judged : judge config delta candidate' postState with | mk outcome stop =>
    dsimp only
    rw [recorded]
    cases stop with
    | some code => exact ⟨rfl, .inl ⟨code, rfl, rfl⟩⟩
    | none =>
      cases outcome with
      | fired guard => exact ih (List.rel_append both (.cons ⟨rfl, alike⟩ .nil))
      | notFired trigger guard => exact ih both
      | refused code => exact ih both

theorem frontierPairs_alike (frontier : List (Delta Graph)) {first second : List Candidate}
    (alike : List.Forall₂ (Alike host) first second) :
    List.Forall₂ (Paired host) (frontierPairs frontier first) (frontierPairs frontier second) := by
  unfold frontierPairs
  induction sortBy Delta.digest (uniqBy Delta.digest frontier) with
  | nil => exact .nil
  | cons delta rest ih =>
    rw [List.flatMap_cons, List.flatMap_cons]
    refine List.rel_append ?_ ih
    rw [List.forall₂_map_left_iff, List.forall₂_map_right_iff]
    exact alike.imp fun _ _ twin => ⟨rfl, twin⟩

theorem construct_alike {generation : Nat} {fired again : List (Fired Graph)} {result : Result}
    (paired : List.Forall₂ (Paired host) fired again) :
    construct host generation fired result = construct host generation again result := by
  have built : fired.map (fun entry => Intent.build host entry.2.1 entry.2.2 entry.1.digest generation) =
      again.map fun entry => Intent.build host entry.2.1 entry.2.2 entry.1.digest generation := by
    induction paired with
    | nil => rfl
    | cons one _ ih => rw [List.map_cons, List.map_cons, ih, one.2.build, one.1]
  rw [construct, construct, built]

theorem turn_alike (free : NoCollision host hooks) (consistent : Consistent host hooks)
    (same : ∀ hook, hook ∈ others ↔ hook ∈ hooks) (generation : Nat) (frontier : List (Delta Graph)) (graph : Graph)
    (world : World) (result : Result) :
    turn host config others generation frontier graph world result =
      turn host config hooks generation frontier graph world result := by
  unfold turn
  rcases candidates_alike free consistent same with ⟨one, other⟩ | ⟨first, second, one, other, alike⟩
  · rw [one, other]
  · rw [one, other, Option.map_some, Option.map_some]
    obtain ⟨records, outcomes⟩ := @evaluatePairs_alike _ _ host config generation (config.engine.write graph) _ _ [] []
      { result with generations := generation } (frontierPairs_alike frontier alike) .nil
    cases left : evaluatePairs config generation (config.engine.write graph) (frontierPairs frontier first)
        { result with generations := generation } [] with | mk after outcome =>
    cases right : evaluatePairs config generation (config.engine.write graph) (frontierPairs frontier second)
        { result with generations := generation } [] with | mk other answer =>
    rw [left, right] at records outcomes
    obtain rfl : after = other := records
    rcases outcomes with ⟨code, one, two⟩ | ⟨out, more, one, two, both⟩
    · obtain rfl : outcome = .error code := one
      obtain rfl : answer = .error code := two
      rfl
    · obtain rfl : outcome = .ok out := one
      obtain rfl : answer = .ok more := two
      cases both with
      | nil => rfl
      | cons pair rest => exact congrArg some (by dsimp only; rw [act, act, construct_alike (.cons pair rest)])

theorem generate_eq (generation : Nat) (frontier : List (Delta Graph)) (graph : Graph) (world : World) (result : Result) :
    generate host config hooks generation frontier graph world result =
      match turn host config hooks generation frontier graph world result with
      | none => none
      | some (.halted result) => some result
      | some (.next deltas world result) =>
        generate host config hooks (generation + 1) deltas
          (deltas.foldl (fun graph delta => config.engine.add graph delta.graph) graph) world result := by
  rw [generate]
  split <;> rename_i turned <;> rw [turned]

theorem generate_alike (free : NoCollision host hooks) (consistent : Consistent host hooks)
    (same : ∀ hook, hook ∈ others ↔ hook ∈ hooks) (generation : Nat) (frontier : List (Delta Graph)) (graph : Graph)
    (world : World) (result : Result) :
    generate host config others generation frontier graph world result =
      generate host config hooks generation frontier graph world result := by
  have turns := @turn_alike _ _ host config hooks others free consistent same
  fun_induction generate host config hooks generation frontier graph world result with
  | case1 generation frontier graph world result turned => rw [generate_eq, turns, turned]
  | case2 generation frontier graph world result ended turned => rw [generate_eq, turns, turned]
  | case3 generation frontier graph world result deltas after next turned ih =>
    rw [generate_eq, turns, turned]
    exact ih

theorem run_alike (free : NoCollision host hooks) (consistent : Consistent host hooks)
    (same : ∀ hook, hook ∈ others ↔ hook ∈ hooks) (world : World) (delta : String) :
    run host config others world delta = run host config hooks world delta := by
  unfold run
  split
  · rfl
  · split
    · rfl
    · exact generate_alike free consistent same _ _ _ _ _

theorem turn_fired {generation : Nat} {frontier : List (Delta Graph)} {graph : Graph} {result after : Result}
    {list : List Candidate} {entry : Fired Graph} {rest : List (Fired Graph)} (found : candidates host hooks = some list)
    (evaluated : evaluatePairs config generation (config.engine.write graph) (frontierPairs frontier list)
      { result with generations := generation } [] = (after, .ok (entry :: rest))) (world : World) :
    turn host config hooks generation frontier graph world result =
      some (act host config generation (entry :: rest) world after) := by
  rw [turn, found, Option.map_some, evaluated]

/-! ### Telling two hooks apart -/

/-- Surroundings in which every condition holds and only one digest is admitted. -/
def probe (delta digest : String) : Config Unit Unit where
  engine :=
    { canonicalDelta _ := .ok ⟨(), "", delta, 0⟩
      matches? _ _ := .ok true
      add _ _ := ()
      write _ := "" }
  bounds := ⟨1, 1, 1, .atom "none"⟩
  admission := [digest]
  parallelism := 1
  commandBus _ intents := (intents.map fun _ => .other, ())

theorem judge_probe (delta digest : String) (change : Delta Unit) (candidate : Candidate) (postState : String) :
    ∃ outcome, judge (probe delta digest) change candidate postState = (outcome, none) ∧
      ((∃ guard, outcome = .fired guard) ↔ candidate.2 = digest) := by
  by_cases same : candidate.2 = digest
  · cases guarded : candidate.1.guard with
    | none => exact ⟨.fired .none, by rw [judge, if_pos (by simp [probe, same]), guarded]; rfl, by simp [same]⟩
    | some condition =>
      exact ⟨.fired (.decided true), by rw [judge, if_pos (by simp [probe, same]), guarded]; rfl, by simp [same]⟩
  · exact ⟨.refused "hook_not_admitted", by simp [judge, probe, same], by simp [same]⟩

theorem evaluatePairs_probe (delta digest : String) (generation : Nat) (postState : String) (pairs : List (Fired Unit))
    (result : Result) (fired : List (Fired Unit)) :
    ∃ evaluations, evaluatePairs (probe delta digest) generation postState pairs result fired =
      ({ result with evaluations }, .ok (fired ++ pairs.filter fun pair => pair.2.2 = digest)) := by
  induction pairs generalizing result fired with
  | nil => exact ⟨result.evaluations, by simp [evaluatePairs]⟩
  | cons pair rest ih =>
    obtain ⟨change, candidate⟩ := pair
    obtain ⟨outcome, judged, fires⟩ := judge_probe delta digest change candidate postState
    rw [evaluatePairs, judged]
    dsimp only
    cases outcome with
    | fired guard =>
      have same := fires.mp ⟨guard, rfl⟩
      obtain ⟨evaluations, rest⟩ := ih { result with
        evaluations := evaluation generation change candidate (.fired guard) :: result.evaluations }
        (fired ++ [(change, candidate)])
      exact ⟨evaluations, by rw [rest, List.filter_cons_of_pos (by simpa using same), List.append_assoc]; rfl⟩
    | notFired trigger guard =>
      have other : candidate.2 ≠ digest := fun same => by obtain ⟨_, none⟩ := fires.mpr same; cases none
      obtain ⟨evaluations, rest⟩ := ih { result with
        evaluations := evaluation generation change candidate (.notFired trigger guard) :: result.evaluations } fired
      exact ⟨evaluations, by rw [rest, List.filter_cons_of_neg (by simpa using other)]⟩
    | refused code =>
      have other : candidate.2 ≠ digest := fun same => by obtain ⟨_, none⟩ := fires.mpr same; cases none
      obtain ⟨evaluations, rest⟩ := ih { result with
        evaluations := evaluation generation change candidate (.refused code) :: result.evaluations } fired
      exact ⟨evaluations, by rw [rest, List.filter_cons_of_neg (by simpa using other)]⟩

theorem act_probe (first : Hook) (digest delta : String) (result : Result) (empty : result.routes = []) :
    ∃ final, act host (probe delta digest) 1 [(⟨(), "", delta, 0⟩, (first, digest))] () result = .halted final ∧
      final.routes = [route (Intent.build host first digest delta 1) .other] := by
  have asked : (Intent.build host first digest delta 1).deltaDigest = delta := rfl
  have uncommitted : committed (route (Intent.build host first digest delta 1) .other) = false := rfl
  simp [uncommitted, act, construct, probe, grouped, uniqBy, uniqFrom, sortBy, admitFanOut, routeAll, feedback, finish, bound, asked,
    empty]

/-- In these surroundings the first hook of the digest is the one that is routed. -/
theorem probe_routes (whole : ∀ hook ∈ hooks, (hook.digest host).isSome) {first : Hook}
    {digest : String} (known : first.digest host = some digest) (delta : String) :
    (run host (probe delta digest) (first :: hooks) () "").map Result.routes =
      some [route (Intent.build host first digest delta 1) .other] := by
  obtain ⟨digested, mapped, -⟩ := digested_all whole
  have found : candidates host (first :: hooks) = some (sortBy place (uniqBy Prod.snd ((first, digest) :: digested))) := by
    rw [candidates, List.mapM_cons, known, mapped]
    rfl
  have pairs : frontierPairs [(⟨(), "", delta, 0⟩ : Delta Unit)] (sortBy place (uniqBy Prod.snd ((first, digest) :: digested))) =
      (sortBy place (uniqBy Prod.snd ((first, digest) :: digested))).map fun candidate => (⟨(), "", delta, 0⟩, candidate) := by
    simp [frontierPairs, uniqBy, uniqFrom, sortBy]
  have distinct : ((sortBy place (uniqBy Prod.snd ((first, digest) :: digested))).map Prod.snd).Nodup :=
    ((sortBy_perm.map Prod.snd).nodup_iff).mpr uniqBy_nodup
  have kept : (first, digest) ∈ sortBy place (uniqBy Prod.snd ((first, digest) :: digested)) := by
    have headed : ∃ rest, uniqBy Prod.snd ((first, digest) :: digested) = (first, digest) :: rest := uniqBy_cons
    obtain ⟨rest, headed⟩ := headed
    exact mem_sortBy.mpr (headed ▸ List.mem_cons_self)
  have only : ((sortBy place (uniqBy Prod.snd ((first, digest) :: digested))).map
      fun candidate => ((⟨(), "", delta, 0⟩ : Delta Unit), candidate)).filter (fun pair => pair.2.2 = digest) =
      [(⟨(), "", delta, 0⟩, (first, digest))] := by
    rw [List.filter_map, Function.comp_def, filter_key distinct kept]
    rfl
  have started : run host (probe delta digest) (first :: hooks) () "" =
      generate host (probe delta digest) (first :: hooks) 1 [⟨(), "", delta, 0⟩] () ()
        (bound { deltaDigest := some delta, deltaSize := 0 } .parallelism 0 1 1 none) := rfl
  obtain ⟨evaluations, evaluated⟩ := evaluatePairs_probe delta digest 1 ""
    ((sortBy place (uniqBy Prod.snd ((first, digest) :: digested))).map fun candidate => (⟨(), "", delta, 0⟩, candidate))
    { bound { deltaDigest := some delta, deltaSize := 0 } .parallelism 0 1 1 none with generations := 1 } []
  rw [only, List.nil_append] at evaluated
  obtain ⟨result, halted, routes⟩ := act_probe first digest delta
    { bound { deltaDigest := some delta, deltaSize := 0 } .parallelism 0 1 1 none with generations := 1, evaluations } rfl
  rw [← pairs] at evaluated
  have turned : turn host (probe delta digest) (first :: hooks) 1 [⟨(), "", delta, 0⟩] () ()
      (bound { deltaDigest := some delta, deltaSize := 0 } .parallelism 0 1 1 none) = some (.halted result) :=
    (turn_fired found evaluated ()).trans (congrArg some halted)
  rw [started, generate_eq, turned]
  exact congrArg some routes

/-! ## The law -/

/-- Whatever the surroundings, the episode keeps to its law, and it is the same for every list of the same hooks. -/
def BoundedOrderFree (host : Host) (hooks : List Hook) : Prop :=
  ∀ {Graph World : Type} (config : Config Graph World) (world : World) (delta : String),
    (∀ result, run host config hooks world delta = some result → Reaction host config hooks result) ∧
    ∀ others, (∀ hook, hook ∈ others ↔ hook ∈ hooks) →
      (run host config others world delta).map (fun result => (result.evaluations, result.routes)) =
        (run host config hooks world delta).map fun result => (result.evaluations, result.routes)

theorem boundedOrderFree_iff (host : Host) (hooks : List Hook) (free : NoCollision host hooks) :
    BoundedOrderFree host hooks ↔ Consistent host hooks := by
  constructor
  · intro law whole first member second among digest known known' delta generation
    have same (hook : Hook) (listed : hook ∈ hooks) : ∀ other, other ∈ hook :: hooks ↔ other ∈ hooks := by
      intro other
      rw [List.mem_cons]
      exact or_iff_right_of_imp fun here => here ▸ listed
    have one := (law (probe delta digest) () "").2 (first :: hooks) (same first member)
    have other := (law (probe delta digest) () "").2 (second :: hooks) (same second among)
    have routes := congrArg (Option.map Prod.snd) (one.trans other.symm)
    rw [Option.map_map, Option.map_map] at routes
    have equal := (probe_routes whole known delta).symm.trans (routes.trans (probe_routes whole known' delta))
    have intents : Intent.build host first digest delta 1 = Intent.build host second digest delta 1 :=
      congrArg (fun route : Route => route.intent) (List.cons.inj (Option.some.inj equal)).1
    exact congrArg (fun intent : Intent => { intent with generation }) intents
  · intro consistent Graph World config world delta
    exact ⟨fun result ran => run_reaction ran, fun others same => congrArg _ (run_alike free consistent same world delta)⟩

/-! ### Two templates of one digest -/

private def asking (id : String) (key : Value) : Hook where
  id := id
  revision := 1
  trigger := "{ ?s ?p ?o } => false ."
  witness := "<urn:s> <urn:p> <urn:o> ."
  intent := ⟨"Example.Resource.act", [(.text "payload", .map [(key, .integer 1)])]⟩
  provenance := .map []

/-- Different terms have different texts. -/
private def plain : Host where
  sha256 value := reprStr value
  text _ := none
  sort := id

private theorem asking_input (id : String) (key : Value) (digest : String) :
    ∃ cause, (Intent.build plain (asking id key) digest "delta" 1).input =
      [(utf8 "cause", cause), (utf8 "payload", .map [(key, .integer 1)])] := by
  have other : utf8 "payload" ≠ utf8 "cause" := by decide
  have below : utf8 "cause" < utf8 "payload" := by decide
  refine ⟨.text (Intent.build plain (asking id key) digest "delta" 1).intentId, ?_⟩
  change Input.put (utf8 "cause") _ [(utf8 "payload", _)] = _
  rw [Input.put, if_neg other, if_pos below]
  rfl

/-- The same key, once as an atom and once as a binary. -/
theorem keys_reordered : NoCollision plain [asking "hook" (.atom "key"), asking "hook" (.text "key")] ∧
    ¬ BoundedOrderFree plain [asking "hook" (.atom "key"), asking "hook" (.text "key")] := by
  have one : (asking "hook" (.atom "key")).identity plain = (asking "hook" (.text "key")).identity plain := rfl
  have digests : (asking "hook" (.atom "key")).digest plain = (asking "hook" (.text "key")).digest plain := by
    rw [Hook.digest, Hook.digest, one]
  have whole : ∀ hook ∈ [asking "hook" (.atom "key"), asking "hook" (.text "key")], (hook.digest plain).isSome := by
    intro hook member
    rcases List.mem_pair.mp member with rfl | rfl <;> rfl
  refine ⟨fun first member second among _ _ _ => ?_, fun law => ?_⟩
  · rcases List.mem_pair.mp member with rfl | rfl <;> rcases List.mem_pair.mp among with rfl | rfl <;> rfl
  · obtain ⟨digest, known⟩ := Option.isSome_iff_exists.mp (whole _ List.mem_cons_self)
    have last := List.mem_cons_of_mem (asking "hook" (.atom "key")) (List.mem_singleton_self (asking "hook" (.text "key")))
    have atomFirst := (law (probe "delta" digest) () "").2
      (asking "hook" (.atom "key") :: [asking "hook" (.atom "key"), asking "hook" (.text "key")]) fun hook => by simp
    have textFirst := (law (probe "delta" digest) () "").2
      (asking "hook" (.text "key") :: [asking "hook" (.atom "key"), asking "hook" (.text "key")]) fun hook => by
        rw [List.mem_cons]
        exact or_iff_right_of_imp fun here => here ▸ last
    have routes := congrArg (Option.map Prod.snd) (atomFirst.trans textFirst.symm)
    rw [Option.map_map, Option.map_map] at routes
    have equal := (probe_routes whole known "delta").symm.trans
      (routes.trans (probe_routes whole (digests ▸ known) "delta"))
    have intents := congrArg (fun route : Route => route.intent) (List.cons.inj (Option.some.inj equal)).1
    obtain ⟨_, left⟩ := asking_input "hook" (.atom "key") digest
    obtain ⟨_, right⟩ := asking_input "hook" (.text "key") digest
    have inputs := left.symm.trans ((congrArg Intent.input intents).trans right)
    simp [Value.text] at inputs

/-- A host whose digests tell two hooks apart by their ids. -/
private def named : Host where
  sha256
    | .tuple (_ :: .binary id :: _) => if id = utf8 "first" then "one" else "other"
    | _ => "none"
  text _ := none
  sort := id

theorem hooks_orderFree : NoCollision named [asking "first" (.atom "key"), asking "second" (.atom "key")] ∧
    BoundedOrderFree named [asking "first" (.atom "key"), asking "second" (.atom "key")] := by
  have one : (asking "first" (.atom "key")).digest named = some "one" := rfl
  have other : (asking "second" (.atom "key")).digest named = some "other" := by decide
  have alone : ∀ first ∈ [asking "first" (.atom "key"), asking "second" (.atom "key")],
      ∀ second ∈ [asking "first" (.atom "key"), asking "second" (.atom "key")], ∀ digest,
        first.digest named = some digest → second.digest named = some digest → first = second := by
    intro first member second among digest known known'
    rcases List.mem_pair.mp member with rfl | rfl <;> rcases List.mem_pair.mp among with rfl | rfl
    · rfl
    · cases one.symm.trans known
      exact absurd (other.symm.trans known') (by decide)
    · cases one.symm.trans known'
      exact absurd (other.symm.trans known) (by decide)
    · rfl
  have free : NoCollision named [asking "first" (.atom "key"), asking "second" (.atom "key")] :=
    fun first member second among digest known known' => by rw [alone first member second among digest known known']
  refine ⟨free, (boundedOrderFree_iff named _ free).mpr fun _ first member second among digest known known' _ _ => ?_⟩
  rw [alone first member second among digest known known']

end AshA2A.Semantic.HookReactor
