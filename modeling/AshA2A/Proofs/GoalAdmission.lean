import AshA2A.Planning.GoalFacts

/-! What is admitted refers to what is declared, and an envelope of texts is never raised on. -/

namespace AshA2A.Planning

variable {subject : Subject} {selector : String}

def Subject.skills (subject : Subject) : List Skill := subject.index.getD []

def Subject.facts (subject : Subject) : List OperatorFact :=
  (subject.skills.flatMap Skill.hddlOperators).flatMap HddlOperator.facts

namespace Info

/-- A display name of several skills that is not the id of one. -/
def Shared (subject : Subject) (selector : String) : Prop :=
  1 < (subject.skills.filter (selects selector)).length ∧
    (subject.skills.filter fun skill => skill.id = selector).length ≠ 1

theorem filter_selects {skills : List Skill} :
    (skills.filter (selects selector)).filter (fun skill => skill.id = selector) =
      skills.filter fun skill => skill.id = selector := by
  rw [List.filter_filter]
  refine List.filter_congr fun skill _ => ?_
  by_cases named : skill.id = selector <;> simp [selects, named]

theorem skill_ok {found : Skill} (resolved : skill subject selector = .ok found) :
    found ∈ subject.skills ∧ (found.id = selector ∨ found.name = selector) := by
  have selected (member : found ∈ subject.skills.filter (selects selector)) :
      found ∈ subject.skills ∧ (found.id = selector ∨ found.name = selector) := by
    obtain ⟨within, fits⟩ := List.mem_filter.mp member
    exact ⟨within, by simpa [selects] using fits⟩
  unfold skill at resolved
  split at resolved
  · cases resolved
  next single =>
    cases resolved
    apply selected
    rw [Subject.skills, single]
    exact List.mem_cons_self
  · split at resolved
    next exact =>
      cases resolved
      have member : found ∈ (subject.skills.filter (selects selector)).filter fun skill => skill.id = selector := by
        rw [Subject.skills, exact]
        exact List.mem_cons_self
      exact selected (List.mem_filter.mp member).1
    · cases resolved

theorem skill_ambiguous {other : String} (failed : skill subject selector = .error (.ambiguousSkill other)) :
    Shared subject selector := by
  unfold skill at failed
  split at failed
  · cases failed
  · cases failed
  next none single =>
    split at failed
    · cases failed
    next unnamed =>
      constructor
      · rw [Subject.skills]
        cases several : (subject.index.getD []).filter (selects selector) with
        | nil => exact absurd several none
        | cons first rest =>
          cases rest with
          | nil => exact absurd several (single first)
          | cons second rest => simp
      · intro one
        obtain ⟨skill, only⟩ := List.length_eq_one_iff.mp one
        rw [← filter_selects] at only
        exact unnamed skill only

end Info

namespace GoalFacts

variable {floatText : Rat → String} {envelope : Json}

/-! ## Texts -/

/-- Neither a map nor a list of something else than characters. -/
def Printable : Json → Prop
  | .object _ => False
  | .array items => (chardataItems items).isSome
  | _ => True

theorem maybeToString_survives {json : Json} : maybeToString floatText json ≠ .error .raised ↔ Printable json := by
  cases json with
  | object entries => exact iff_of_false (fun kept => kept rfl) id
  | array items => cases chars : chardataItems items <;> simp [maybeToString, Printable, chars]
  | _ => simp [maybeToString, Printable]

/-- The name and the arguments of an entry are texts. -/
structure Spelled (name map : Json) : Prop where
  name : Printable name
  args : ∀ arg ∈ wrap (fetch map "args"), Printable arg

theorem entry_survives {name map : Json} (spelled : Spelled name map) : entry floatText name map ≠ .error .raised := by
  refine bind_survives.mpr ⟨maybeToString_survives.mpr spelled.name, fun _ _ => ?_⟩
  refine bind_survives.mpr ⟨mapM_survives fun arg member => ?_, fun _ _ => by simp [Pure.pure, Except.pure]⟩
  exact maybeToString_survives.mpr (spelled.args arg member)

variable (floatText subject envelope) in
/-- A map of which every name and every argument is a text, and in which no call goes by a display
name that several skills share. -/
structure Spoken : Prop where
  map : envelope.isObject
  objects : ∀ object ∈ wrap (fetch envelope "objects"), object.isObject →
    Printable (fetch object "id") ∧ Printable (fetch object "type")
  calls : ∀ call ∈ wrap (fetch envelope "task_sequence"), call.isObject → Spelled (capabilityId call) call
  facts : ∀ key ∈ ["init", "goal"], ∀ fact ∈ wrap (fetch envelope key), fact.isObject →
    Spelled (fetch fact "predicate") fact
  named : ∀ call ∈ wrap (fetch envelope "task_sequence"), ∀ entry name, normalizeTaskCall floatText call = .ok entry →
    entry.name = some name → ¬ Info.Shared subject name

theorem fetchObjects_survives (spoken : Spoken subject floatText envelope) :
    fetchObjects floatText envelope ≠ .error .raised := by
  refine mapM_survives fun object member => ?_
  cases object with
  | object entries =>
    obtain ⟨id, type⟩ := spoken.objects _ member rfl
    refine bind_survives.mpr ⟨maybeToString_survives.mpr id, fun _ _ => ?_⟩
    exact bind_survives.mpr ⟨maybeToString_survives.mpr type, fun _ _ => by simp [Pure.pure, Except.pure]⟩
  | _ => simp [normalizeObject]

theorem fetchFacts_survives (spoken : Spoken subject floatText envelope) {key : String} (member : key ∈ ["init", "goal"]) :
    fetchFacts floatText envelope key ≠ .error .raised := by
  refine bind_survives.mpr ⟨mapM_survives fun fact among => ?_, fun facts _ => ?_⟩
  · cases fact with
    | object entries => exact entry_survives (spoken.facts key member _ among rfl)
    | _ => simp [normalizeFact]
  · split <;> simp [refuse, Pure.pure, Except.pure]

theorem fetchTaskCalls_survives (spoken : Spoken subject floatText envelope) :
    fetchTaskCalls floatText envelope ≠ .error .raised := by
  unfold fetchTaskCalls
  split
  · simp [refuse]
  · refine bind_survives.mpr ⟨mapM_survives fun call among => ?_, fun calls _ => ?_⟩
    · cases call with
      | object entries => exact entry_survives (spoken.calls _ among rfl)
      | _ => simp [normalizeTaskCall]
    · split <;> simp [refuse, Pure.pure, Except.pure]

/-! ## The task sequence -/

/-- A valid call is one of the entries, under its name. -/
theorem fetchTaskCalls_mem {calls : List Fact} (fetched : fetchTaskCalls floatText envelope = .ok calls) {call : Fact}
    (member : call ∈ calls) : ∃ raw ∈ wrap (fetch envelope "task_sequence"), ∃ entry,
      normalizeTaskCall floatText raw = .ok entry ∧ entry.name = some call.name := by
  unfold fetchTaskCalls at fetched
  split at fetched
  · cases fetched
  · obtain ⟨entries, normalized, fetched⟩ := bind_ok_iff.mp fetched
    split at fetched
    next valid =>
      cases fetched
      obtain ⟨entry, among, same⟩ := (mapM_mem valid).mp member
      obtain ⟨pairs, raws, rfl, each⟩ := mapM_ok_iff.mp normalized
      obtain ⟨pair, paired, rfl⟩ := List.mem_map.mp among
      refine ⟨pair.1, raws ▸ List.mem_map_of_mem paired, pair.2, each pair paired, ?_⟩
      unfold valid? at same
      split at same
      · cases same
      next given =>
        split at same
        · cases same
        · cases same
          exact given
    · cases fetched

theorem resolveCapabilityIds_survives (spoken : Spoken subject floatText envelope) {calls : List Fact}
    (fetched : fetchTaskCalls floatText envelope = .ok calls) :
    resolveCapabilityIds subject calls ≠ .error .raised := by
  refine mapM_survives fun call member => ?_
  obtain ⟨raw, among, entry, normalized, named⟩ := fetchTaskCalls_mem fetched member
  unfold resolveCapabilityId
  split
  · simp
  · simp [refuse]
  next ambiguous => exact absurd (Info.skill_ambiguous ambiguous) (spoken.named raw among entry _ normalized named)

theorem resolveCapabilityIds_ok {calls : List Fact} {skills : List Skill}
    (resolved : resolveCapabilityIds subject calls = .ok skills) :
    ∀ call ∈ calls, ∃ skill ∈ subject.skills, Info.skill subject call.name = .ok skill := by
  intro call member
  obtain ⟨pairs, rfl, _, each⟩ := mapM_ok_iff.mp resolved
  obtain ⟨pair, paired, rfl⟩ := List.mem_map.mp member
  have found := each pair paired
  unfold resolveCapabilityId at found
  split at found
  next skill given => exact ⟨skill, (Info.skill_ok given).1, given⟩
  · cases found
  · cases found

/-! ## Closure -/

theorem referentialClosure_ok {objects : List Object} {facts : List Fact} :
    referentialClosure objects facts = .ok () ↔
      ∀ fact ∈ facts, ∀ arg ∈ fact.args, ∃ object ∈ objects, some object.id = arg := by
  unfold referentialClosure
  split
  next none =>
    refine iff_of_true rfl fun fact member arg among => ?_
    simpa using List.find?_eq_none.mp none arg (List.mem_flatMap.mpr ⟨fact, member, among⟩)
  next undeclared found =>
    refine iff_of_false (by simp [refuse]) fun closed => ?_
    obtain ⟨fact, member, among⟩ := List.mem_flatMap.mp (List.mem_of_find?_eq_some found)
    obtain ⟨object, listed, same⟩ := closed fact member undeclared among
    have absent := List.find?_some found
    simp only [Bool.not_eq_true', List.any_eq_false, decide_eq_true_eq] at absent
    exact absent object listed same

theorem predicateClosure_ok {declared : List String} {facts : List Fact} :
    predicateClosure declared facts = .ok () ↔ ∀ fact ∈ facts, fact.name ∈ declared := by
  unfold predicateClosure
  split
  next none =>
    refine iff_of_true rfl fun fact member => ?_
    simpa using List.find?_eq_none.mp none fact.name (List.mem_map_of_mem member)
  next undeclared found =>
    refine iff_of_false (by simp [refuse]) fun closed => ?_
    obtain ⟨fact, member, rfl⟩ := List.mem_map.mp (List.mem_of_find?_eq_some found)
    have absent := List.find?_some found
    simp only [Bool.not_eq_true', List.contains_eq_mem, decide_eq_false_iff_not] at absent
    exact absent (closed fact member)

theorem declaredPredicates_ok {declared : List String} (given : declaredPredicates subject = .ok declared) :
    declared = subject.facts.map OperatorFact.predicate := by
  unfold declaredPredicates at given
  split at given
  next indexed =>
    cases given
    rw [Subject.facts, Subject.skills, indexed, Option.getD_some, List.map_flatMap]
  · cases given

/-! ## Admission -/

/-- Facts are of declared objects and predicates, and calls of skills in the index. -/
structure Closed (subject : Subject) (admitted : Admitted) : Prop where
  objects : ∀ fact ∈ admitted.init ++ admitted.goal, ∀ arg ∈ fact.args, ∃ object ∈ admitted.objects, some object.id = arg
  predicates : ∀ fact ∈ admitted.init ++ admitted.goal, ∃ declared ∈ subject.facts, declared.predicate = fact.name
  skills : ∀ call ∈ admitted.taskCalls, ∃ skill ∈ subject.skills, Info.skill subject call.name = .ok skill

/-- As many arguments as are declared, and none of a call that is not an object. -/
structure Counted (subject : Subject) (admitted : Admitted) : Prop where
  facts : ∀ fact ∈ admitted.init ++ admitted.goal, ∃ declared ∈ subject.facts,
    declared.predicate = fact.name ∧ declared.args.length = fact.args.length
  calls : ∀ call ∈ admitted.taskCalls, ∃ skill ∈ subject.skills, Info.skill subject call.name = .ok skill ∧
    ∃ operator ∈ skill.hddlOperators, operator.parameters.length = call.args.length
  objects : ∀ call ∈ admitted.taskCalls, ∀ arg ∈ call.args, ∃ object ∈ admitted.objects, some object.id = arg

theorem admit_survives (spoken : Spoken subject floatText envelope) :
    admitEnvelope floatText subject envelope ≠ .error .raised := by
  unfold admitEnvelope
  rw [if_pos spoken.map]
  refine bind_survives.mpr ⟨fetchObjects_survives spoken, fun candidates _ => ?_⟩
  refine bind_survives.mpr ⟨by unfold validateRequestId; split <;> simp [refuse], fun _ _ => ?_⟩
  refine bind_survives.mpr ⟨fetchTaskCalls_survives spoken, fun calls fetched => ?_⟩
  refine bind_survives.mpr ⟨resolveCapabilityIds_survives spoken fetched, fun _ _ => ?_⟩
  refine bind_survives.mpr ⟨fetchFacts_survives spoken (by simp), fun init _ => ?_⟩
  refine bind_survives.mpr ⟨fetchFacts_survives spoken (by simp), fun goal _ => ?_⟩
  refine bind_survives.mpr ⟨by unfold validateObjects; split <;> simp [refuse], fun objects _ => ?_⟩
  refine bind_survives.mpr ⟨by unfold referentialClosure; split <;> simp [refuse], fun _ _ => ?_⟩
  refine bind_survives.mpr ⟨by unfold declaredPredicates; split <;> simp [refuse], fun declared _ => ?_⟩
  refine bind_survives.mpr ⟨by unfold predicateClosure; split <;> simp [refuse], fun _ _ => ?_⟩
  simp [Pure.pure, Except.pure]

theorem admit_closed {admitted : Admitted} (accepted : admitEnvelope floatText subject envelope = .ok admitted) :
    Closed subject admitted := by
  unfold admitEnvelope at accepted
  split at accepted
  · simp only [bind_ok_iff] at accepted
    obtain ⟨_, _, _, _, calls, _, _, resolved, init, _, goal, _, objects, _, ⟨⟩, closed, declared, given, ⟨⟩, known, same⟩ :=
      accepted
    cases same
    refine ⟨referentialClosure_ok.mp closed, fun fact member => ?_, resolveCapabilityIds_ok resolved⟩
    have within := predicateClosure_ok.mp known fact member
    rw [declaredPredicates_ok given] at within
    exact List.mem_map.mp within
  · cases accepted

/-- What a caller can rely on. -/
theorem admission_closed (floatText : Rat → String) (subject : Subject) (envelope : Json) :
    (Spoken subject floatText envelope → (∃ admitted, admitEnvelope floatText subject envelope = .ok admitted) ∨
      ∃ refusal, admitEnvelope floatText subject envelope = .error (.refused refusal)) ∧
    ∀ admitted, admitEnvelope floatText subject envelope = .ok admitted → Closed subject admitted := by
  refine ⟨fun spoken => ?_, fun admitted accepted => admit_closed accepted⟩
  cases result : admitEnvelope floatText subject envelope with
  | ok admitted => exact .inl ⟨admitted, rfl⟩
  | error fault =>
    cases fault with
    | refused refusal => exact .inr ⟨refusal, rfl⟩
    | raised => exact absurd result (admit_survives spoken)

def lamps : Subject where
  name := "Lamps"
  index := some [{
    id := "Lamps.light"
    name := "light"
    hddlOperators := [{ parameters := ["lamp"], addEffects := [⟨"lit", ["lamp"]⟩] }] }]

def lamp : Json := .object [
  ("objects", .array [.string "hall"]),
  ("goal", .array [.object [("predicate", .string "lit"), ("args", .array [.string "hall"])]]),
  ("task_sequence", .array [.object [("capability_id", .string "Lamps.light"), ("args", .array [.string "hall"])]])]

theorem lamp_spoken : Spoken lamps (fun _ => "") lamp where
  map := rfl
  objects := List.forall_mem_singleton.mpr fun object => absurd object Bool.false_ne_true
  calls := List.forall_mem_singleton.mpr fun _ => ⟨trivial, List.forall_mem_singleton.mpr trivial⟩
  facts := List.forall_mem_cons.mpr ⟨List.forall_mem_nil _, List.forall_mem_singleton.mpr
    (List.forall_mem_singleton.mpr fun _ => ⟨trivial, List.forall_mem_singleton.mpr trivial⟩)⟩
  named := by
    refine List.forall_mem_singleton.mpr fun entry name normalized named => ?_
    cases normalized
    cases named
    rintro ⟨several, _⟩
    revert several
    decide

theorem admission_closed_lamp : ((∃ admitted, admitEnvelope (fun _ => "") lamps lamp = .ok admitted) ∨
      ∃ refusal, admitEnvelope (fun _ => "") lamps lamp = .error (.refused refusal)) ∧
    ∀ admitted, admitEnvelope (fun _ => "") lamps lamp = .ok admitted → Closed lamps admitted :=
  ⟨(admission_closed (fun _ => "") lamps lamp).1 lamp_spoken, (admission_closed (fun _ => "") lamps lamp).2⟩

/-- A fact and a call without arguments. -/
def unlit : Json := .object [
  ("goal", .array [.object [("predicate", .string "lit")]]),
  ("task_sequence", .array [.string "Lamps.light"])]

theorem uncounted_admitted : ¬ ∀ floatText subject envelope, admitEnvelope floatText subject envelope ≠ .error .raised ∧
    ∀ admitted, admitEnvelope floatText subject envelope = .ok admitted →
      Closed subject admitted ∧ Counted subject admitted := by
  intro promised
  obtain ⟨_, counted⟩ := (promised (fun _ => "") lamps unlit).2 _ rfl
  obtain ⟨declared, member, _, length⟩ := counted.facts ⟨"lit", []⟩ List.mem_cons_self
  revert length
  revert declared
  decide

end GoalFacts
end AshA2A.Planning
