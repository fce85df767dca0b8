import AshA2A.Planning.HddlRenderer
import AshA2A.Proofs.GoalAdmission
import AshA2A.Term

/-! Names that are names already stay as they are, and what the problem refers to is declared in the
domain. -/

namespace AshA2A.Planning.HddlRenderer

open GoalFacts (Fact Object Admitted)

/-! ## Names -/

/-- What the lexer takes as one name. -/
def Token (name : String) : Prop :=
  ∃ first rest, name.toList = first :: rest ∧ isLetter first ∧ ∀ char ∈ rest, isNameChar char

theorem isNameChar_of_isLetter {char : Char} (letter : isLetter char) : isNameChar char := by
  simp [isNameChar, letter]

theorem masked_isNameChar {char other : Char} (member : other ∈ masked char) : isNameChar other := by
  unfold masked at member
  split at member
  next named => exact List.mem_singleton.mp member ▸ named
  · rw [List.eq_of_mem_replicate member]
    decide

theorem flatMap_masked {chars : List Char} (named : ∀ char ∈ chars, isNameChar char) : chars.flatMap masked = chars := by
  induction chars with
  | nil => rfl
  | cons first rest ih =>
    obtain ⟨one, others⟩ := List.forall_mem_cons.mp named
    rw [List.flatMap_cons, ih others, masked, if_pos one]
    rfl

theorem safeName_token (value : String) : Token (safeName value) := by
  have named : ∀ char ∈ value.toList.flatMap masked, isNameChar char := by
    intro char member
    obtain ⟨source, _, within⟩ := List.mem_flatMap.mp member
    exact masked_isNameChar within
  unfold Token safeName
  rw [String.toList_ofList]
  cases chars : value.toList.flatMap masked with
  | nil => exact ⟨'n', ['_'], rfl, by decide, by simp [isNameChar]⟩
  | cons first rest =>
    rw [chars] at named
    rw [ensureLeadingLetter]
    split
    next letter => exact ⟨first, rest, rfl, letter, (List.forall_mem_cons.mp named).2⟩
    · exact ⟨'n', '_' :: first :: rest, rfl, by decide, List.forall_mem_cons.mpr ⟨by decide, named⟩⟩

/-- A name is rendered as itself. -/
theorem safeName_of_token {name : String} (token : Token name) : safeName name = name := by
  obtain ⟨first, rest, chars, letter, named⟩ := token
  have all : ∀ char ∈ name.toList, isNameChar char := by
    rw [chars]
    exact List.forall_mem_cons.mpr ⟨isNameChar_of_isLetter letter, named⟩
  rw [safeName, flatMap_masked all, chars, ensureLeadingLetter, if_pos letter, ← chars, String.ofList_toList]

theorem safeName_inj {name other : String} (token : Token name) (token' : Token other)
    (same : safeName name = safeName other) : name = other := by
  rwa [safeName_of_token token, safeName_of_token token'] at same

/-! ## Parts of a text -/

def Contains (text part : String) : Prop := part.toList <:+: text.toList

section Parts
variable {text part first second : String}

theorem Contains.refl : Contains text text := List.infix_rfl

theorem Contains.left (contains : Contains first part) : Contains (first ++ second) part := by
  unfold Contains
  rw [String.toList_append]
  exact contains.trans (List.prefix_append _ _).isInfix

theorem Contains.right (contains : Contains second part) : Contains (first ++ second) part := by
  unfold Contains
  rw [String.toList_append]
  exact contains.trans (List.suffix_append _ _).isInfix

theorem contains_intercalate {separator : String} {parts : List String} (member : part ∈ parts) :
    Contains (separator.intercalate parts) part := by
  induction parts with
  | nil => cases member
  | cons first rest ih =>
    cases rest with
    | nil =>
      obtain rfl := List.mem_singleton.mp member
      rw [String.intercalate_singleton]
      exact .refl
    | cons second rest =>
      rw [String.intercalate_cons_cons]
      rcases List.mem_cons.mp member with rfl | member
      · exact Contains.refl.left.left
      · exact (ih member).right

end Parts

/-! ## The domain -/

section Domain
variable {subject : Subject} {arities next : List (String × Nat)} {domainName domain : String}

theorem addArity_adds {fact : OperatorFact} (added : addArity arities fact = .ok next) :
    arities ⊆ next ∧ (safeName fact.predicate, fact.args.length) ∈ next := by
  unfold addArity at added
  split at added
  next arity known =>
    split at added
    next same =>
      cases added
      exact ⟨List.Subset.refl _, same ▸ mem_of_lookup known⟩
    · cases added
  · cases added
    exact ⟨List.subset_cons_self _ _, List.mem_cons_self⟩

theorem foldlM_addArity {facts : List OperatorFact} (added : facts.foldlM addArity arities = .ok next) :
    arities ⊆ next ∧ ∀ fact ∈ facts, (safeName fact.predicate, fact.args.length) ∈ next := by
  induction facts generalizing arities with
  | nil =>
    cases added
    exact ⟨List.Subset.refl _, List.forall_mem_nil _⟩
  | cons fact rest ih =>
    rw [List.foldlM_cons] at added
    obtain ⟨middle, one, others⟩ := bind_ok_iff.mp added
    obtain ⟨grows, here⟩ := addArity_adds one
    obtain ⟨keeps, each⟩ := ih others
    exact ⟨List.Subset.trans grows keeps, List.forall_mem_cons.mpr ⟨keeps here, each⟩⟩

theorem facts_operating {index : List Skill} :
    ((index.filter fun skill => skill.hddlOperators ≠ []).flatMap Skill.hddlOperators) =
      index.flatMap Skill.hddlOperators := by
  induction index with
  | nil => rfl
  | cons skill rest ih =>
    rw [List.filter_cons]
    split
    · rw [List.flatMap_cons, List.flatMap_cons, ih]
    next none =>
      have empty : skill.hddlOperators = [] := by simpa using none
      rw [ih, List.flatMap_cons, empty, List.nil_append]

/-- The text holds a line for each predicate and the actions of each skill. -/
theorem domainText_holds (rendered : domainText subject domainName = .ok domain) :
    (∀ fact ∈ subject.facts, Contains domain (predicateLine (safeName fact.predicate) fact.args.length)) ∧
      ∀ skill ∈ subject.skills, ∀ action ∈ actions skill, Contains domain action := by
  unfold domainText at rendered
  split at rendered
  · cases rendered
  next index indexed =>
    dsimp only at rendered
    split at rendered
    · cases rendered
    obtain ⟨arities, added, rendered⟩ := bind_ok_iff.mp rendered
    cases rendered
    unfold predicateArities at added
    rw [facts_operating] at added
    constructor
    · intro fact member
      rw [Subject.facts, Subject.skills, indexed] at member
      refine Contains.left (.left (.left (.right (contains_intercalate ?_))))
      refine List.mem_map.mpr ⟨(safeName fact.predicate, fact.args.length), ?_, rfl⟩
      exact List.mem_mergeSort.mpr ((foldlM_addArity added).2 fact member)
    · intro skill member action among
      rw [Subject.skills, indexed] at member
      refine Contains.left (.right (contains_intercalate (List.mem_flatMap.mpr ⟨skill, ?_, among⟩)))
      refine List.mem_filter.mpr ⟨member, ?_⟩
      have operating : skill.hddlOperators ≠ [] := by
        intro none
        rw [actions, none] at among
        cases among
      simpa using operating

end Domain

/-! ## The problem -/

section Problem
variable {problemName problem : String} {opts : Options}

/-- The objects in the order in which they are declared. -/
def objectsLine (objects : List Object) : String :=
  ")\n  (:objects " ++ " ".intercalate (objects.map fun object => safeName object.id)

theorem goalBlock_contains {facts : List Fact} {fact : Fact} (member : fact ∈ facts) :
    Contains (goalBlock facts) (renderGroundCall fact) := by
  cases facts with
  | nil => cases member
  | cons first rest => exact Contains.left (.right (contains_intercalate (List.mem_map_of_mem member)))

theorem problemText_holds (rendered : problemText problemName opts = .ok problem) :
    Contains problem (objectsLine opts.objects) ∧
      (∀ fact ∈ opts.init ++ opts.goal, Contains problem (renderGroundCall fact)) ∧
      ∀ calls, opts.taskSequence = some calls → ∀ call ∈ calls, ∃ index, Contains problem (subtask call index) := by
  unfold problemText at rendered
  split at rendered
  · cases rendered
  · cases rendered
  · cases rendered
  next taskCalls _ _ given =>
    cases rendered
    refine ⟨?_, fun fact member => ?_, fun calls same call member => ?_⟩
    · apply Contains.left
      apply Contains.left
      apply Contains.left
      apply Contains.left
      apply Contains.left
      apply Contains.left
      apply Contains.left
      rw [String.append_assoc, ← objectsLine]
      exact Contains.refl.right
    · rcases List.mem_append.mp member with member | member
      · refine Contains.left (.left (.left (.left (.left (.right ?_)))))
        exact contains_intercalate (List.mem_map_of_mem member)
      · exact Contains.left (.left (.left (.right (goalBlock_contains member))))
    · cases given.symm.trans same
      obtain ⟨index, within, rfl⟩ := List.getElem_of_mem member
      refine ⟨index + 1, Contains.left (.right (contains_intercalate ?_))⟩
      refine List.mem_map.mpr ⟨(taskCalls[index], index + 1), ?_, rfl⟩
      rw [List.mem_zipIdx_iff_le_and_getElem?_sub]
      simp

end Problem

/-! ## Both texts -/

/-- What the problem refers to stands in the domain, or among the objects. -/
structure Faithful (subject : Subject) (admitted : Admitted) (domain problem : String) : Prop where
  listed : Contains problem (objectsLine admitted.objects)
  objects : ∀ fact ∈ admitted.init ++ admitted.goal, ∀ arg ∈ fact.args, ∃ object ∈ admitted.objects,
    safeArg arg = safeName object.id
  predicates : ∀ fact ∈ admitted.init ++ admitted.goal, Contains problem (renderGroundCall fact) ∧
    ∃ declared ∈ subject.facts, declared.predicate = fact.name ∧
      Contains domain (predicateLine (safeName fact.name) declared.args.length)
  subtasks : ∀ call ∈ admitted.taskCalls, (∃ index, Contains problem (subtask call index)) ∧
    ∀ skill ∈ subject.skills, skill.id = call.name → ∀ operator, skill.hddlOperators = [operator] →
      Contains domain (renderAction (safeName call.name) operator)

theorem actions_single {skill : Skill} {operator : HddlOperator} (single : skill.hddlOperators = [operator]) :
    actions skill = [renderAction (safeName skill.id) operator] := by
  simp [actions, actionName, single]

/-- Names that are names already stay apart, and the problem of what was admitted refers to what the
domain declares. -/
theorem rendering_faithful (floatText : Rat → String) :
    (∀ value, Token (safeName value)) ∧
    (∀ name other, Token name → Token other → safeName name = safeName other → name = other) ∧
    ∀ subject envelope admitted domainName problemName domain problem,
      GoalFacts.admitEnvelope floatText subject envelope = .ok admitted → domainText subject domainName = .ok domain →
      problemText problemName (optionsOf admitted domainName) = .ok problem → Faithful subject admitted domain problem := by
  refine ⟨safeName_token, fun name other => safeName_inj, ?_⟩
  intro subject envelope admitted domainName problemName domain problem accepted declared referred
  have closed := GoalFacts.admit_closed accepted
  obtain ⟨lines, blocks⟩ := domainText_holds declared
  obtain ⟨listed, facts, calls⟩ := problemText_holds referred
  refine ⟨listed, fun fact member arg among => ?_, fun fact member => ⟨facts fact member, ?_⟩,
    fun call member => ⟨calls _ rfl call member, ?_⟩⟩
  · obtain ⟨object, within, rfl⟩ := closed.objects fact member arg among
    exact ⟨object, within, rfl⟩
  · obtain ⟨operatorFact, within, same⟩ := closed.predicates fact member
    exact ⟨operatorFact, within, same, same ▸ lines operatorFact within⟩
  · intro skill within same operator single
    rw [← same]
    apply blocks skill within
    rw [actions_single single]
    exact List.mem_cons_self

def lampAdmitted : Admitted where
  requestId := none
  domainName := .string "ash_a2a_goal_facts_domain"
  problemName := .string "ash_a2a_goal_facts_problem"
  objects := [⟨"hall", none⟩]
  init := []
  goal := [⟨"lit", [some "hall"]⟩]
  taskCalls := [⟨"Lamps.light", [some "hall"]⟩]
  capabilityIds := ["Lamps.light"]

theorem rendering_faithful_lamp : ∃ domain problem, domainText GoalFacts.lamps "lamps" = .ok domain ∧
    problemText "hall" (optionsOf lampAdmitted "lamps") = .ok problem ∧
    Faithful GoalFacts.lamps lampAdmitted domain problem := by
  refine ⟨_, _, rfl, rfl, ?_⟩
  exact (rendering_faithful fun _ => "").2.2 GoalFacts.lamps GoalFacts.lamp lampAdmitted "lamps" "hall" _ _ rfl rfl rfl

/-- Two objects that differ where a name has no dot. -/
def alike : Json := .object [
  ("objects", .array [.string "hall.1", .string "hall_1"]),
  ("task_sequence", .array [.object [("capability_id", .string "Lamps.light"), ("args", .array [.string "hall_1"])]])]

theorem objects_collide : ¬ ∀ floatText subject envelope admitted,
    GoalFacts.admitEnvelope floatText subject envelope = .ok admitted →
    (∀ object ∈ admitted.objects, ∀ other ∈ admitted.objects,
      safeName object.id = safeName other.id → object.id = other.id) ∧
      ∀ call ∈ admitted.taskCalls, ∃ skill ∈ subject.skills, ∃ item ∈ skill.hddlOperators.zipIdx,
        actionName skill item.2 = safeName call.name ∧ item.1.parameters.length = call.args.length := by
  intro faithful
  obtain ⟨apart, _⟩ := faithful (fun _ => "") GoalFacts.lamps alike _ rfl
  have same := apart ⟨"hall.1", none⟩ List.mem_cons_self ⟨"hall_1", none⟩
    (List.mem_cons_of_mem _ List.mem_cons_self) (by decide)
  exact absurd same (by decide)

end AshA2A.Planning.HddlRenderer
