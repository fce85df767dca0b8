import AshA2A.Semantic.CapabilityComposition

/-! A chain of capabilities, against the execution of its actions one after the other. -/

namespace Strips

/-- What must hold before, what holds after, and what no longer does. -/
structure Action (φ : Type) where
  preconditions : Finset φ
  adds : Finset φ
  deletes : Finset φ

variable {φ : Type} [DecidableEq φ]

def Action.after (action : Action φ) (state : Finset φ) : Finset φ := (state ∪ action.adds) \ action.deletes

def execute (state : Finset φ) (actions : List (Action φ)) : Finset φ :=
  actions.foldl (fun state action => action.after state) state

/-- Each action can run in the state that the ones before it have left. -/
def Executable (state : Finset φ) : List (Action φ) → Prop
  | [] => True
  | action :: actions => action.preconditions ⊆ state ∧ Executable (action.after state) actions

section Runs
variable {α : Type} {action : α → Action φ} {state : Finset φ} {list : List α}

theorem executable_iff : Executable state (list.map action) ↔
    ∀ before own after, list = before ++ own :: after → (action own).preconditions ⊆ execute state (before.map action) := by
  induction list generalizing state with
  | nil =>
    refine iff_of_true trivial fun before own after split => ?_
    cases before <;> cases split
  | cons first rest ih =>
    rw [List.map_cons, Executable, ih]
    constructor
    · intro ⟨runs, later⟩ before own after split
      cases before with
      | nil =>
        obtain ⟨rfl, -⟩ := List.cons.inj split
        exact runs
      | cons head before =>
        obtain ⟨rfl, -⟩ := List.cons.inj split
        exact later before own after (List.cons.inj split).2
    · intro each
      exact ⟨each [] first rest rfl, fun before own after split =>
        each (first :: before) own after (by rw [split, List.cons_append])⟩

/-- What cannot be executed has a first action that cannot run. -/
theorem first_failing (fails : ¬ Executable state (list.map action)) : ∃ before own after,
    list = before ++ own :: after ∧ Executable state (before.map action) ∧
      ¬ (action own).preconditions ⊆ execute state (before.map action) := by
  induction list generalizing state with
  | nil => exact absurd trivial fails
  | cons first rest ih =>
    by_cases runs : (action first).preconditions ⊆ state
    · have later : ¬ Executable ((action first).after state) (rest.map action) := fun later => fails ⟨runs, later⟩
      obtain ⟨before, own, after, split, earlier, stuck⟩ := ih later
      exact ⟨first :: before, own, after, by rw [split, List.cons_append], ⟨runs, earlier⟩, stuck⟩
    · exact ⟨[], first, rest, rfl, trivial, runs⟩

end Runs

end Strips

namespace AshA2A.Semantic.CapabilityComposition

open Strips (execute Executable executable_iff first_failing)

section Chains
variable {ρ : Type} {state : List Fact} {left right first previous : Profile ρ} {rest : List (Profile ρ)}

def Profile.action (profile : Profile ρ) : Strips.Action Plain where
  preconditions := held profile.preconditions
  adds := held profile.addEffects
  deletes := held profile.deleteEffects

/-! ## Sets of facts and their lists -/

theorem Name.toString_text (name : String) : (Name.text name).toString = name := rfl

theorem normalize_ofPlain (plain : Plain) : normalize (ofPlain plain) = plain := by
  show toLex ((ofLex plain).1, ((ofLex plain).2.map Name.text).map Name.toString) = plain
  rw [List.map_map, show Name.toString ∘ Name.text = id from rfl, List.map_id]
  rfl

theorem held_facts (set : Finset Plain) : held (facts set) = set := by
  unfold held facts
  rw [List.map_map, show normalize ∘ ofPlain = id from funext normalize_ofPlain, List.map_id, Finset.sort_toFinset]

theorem applyEffects_eq (profile : Profile ρ) : applyEffects state profile = facts (profile.action.after (held state)) := rfl

theorem unmet_eq (preconditions : List Fact) : unmet state preconditions = facts (held preconditions \ held state) := by
  unfold unmet
  congr 1
  ext fact
  simp [held]

theorem facts_eq_nil {set : Finset Plain} : facts set = [] ↔ set = ∅ := by
  constructor
  · intro none
    rw [← held_facts set, none]
    rfl
  · rintro rfl
    simp [facts]

/-! ## One hop -/

variable [DecidableEq ρ] (host : Host ρ)

/-- Each participant is recorded with the requirement it declared. -/
theorem raisesCeiling_eq_nil {composition : Composition ρ} (apart : left.capabilityId ≠ right.capabilityId)
    (records : composition.authorityRequirements =
      [(left.capabilityId, left.authorityRequirement), (right.capabilityId, right.authorityRequirement)]) :
    raisesCeiling composition [left, right] = [] := by
  have other : (right.capabilityId == left.capabilityId) = false := beq_eq_false_iff_ne.mpr (Ne.symm apart)
  have calm : [left, right].filter (fun profile =>
      composition.authorityRequirements.lookup profile.capabilityId ≠ some profile.authorityRequirement) = [] := by
    simp [records, List.lookup_cons, other]
  unfold raisesCeiling
  rw [calm, List.map_nil, List.mergeSort_nil]

theorem compose_ok (apart : left.capabilityId ≠ right.capabilityId)
    (runs : right.action.preconditions ⊆ left.action.after (held state)) :
    ∃ composition, compose host left right state = .ok composition := by
  have nothing : unmet (applyEffects state left) right.preconditions = [] := by
    rw [unmet_eq, facts_eq_nil, applyEffects_eq, held_facts]
    exact Finset.sdiff_eq_empty_iff_subset.mpr runs
  unfold compose
  rw [if_neg apart]
  dsimp only
  rw [nothing]
  dsimp only
  rw [raisesCeiling_eq_nil apart rfl]
  exact ⟨_, rfl⟩

theorem compose_refused (apart : left.capabilityId ≠ right.capabilityId)
    (fails : ¬ right.action.preconditions ⊆ left.action.after (held state)) :
    compose host left right state =
      .error (.preconditionsUnmet (facts (right.action.preconditions \ left.action.after (held state)))
        (facts (left.action.after (held state))) left.capabilityId right.capabilityId) := by
  have missing : unmet (applyEffects state left) right.preconditions =
      facts (right.action.preconditions \ left.action.after (held state)) := by
    rw [unmet_eq, applyEffects_eq, held_facts]
    rfl
  have some : facts (right.action.preconditions \ left.action.after (held state)) ≠ [] := by
    rw [ne_eq, facts_eq_nil, Finset.sdiff_eq_empty_iff_subset]
    exact fails
  unfold compose
  rw [if_neg apart]
  dsimp only
  rw [missing]
  split
  case h_1 none => exact absurd none some
  case h_2 => rfl

/-! ## The whole chain -/

section Whole
variable (composed : List (Composition ρ)) (hop : Nat)

/-- No two neighbours are the same capability. -/
abbrev Apart (profiles : List (Profile ρ)) : Prop :=
  profiles.IsChain fun left right => left.capabilityId ≠ right.capabilityId

theorem chainFrom_runs (apart : Apart (previous :: rest))
    (runs : Executable (previous.action.after (held state)) (rest.map Profile.action)) :
    ∃ compositions, chainFrom host composed state previous hop rest =
      .ok (compositions, facts (execute (held state) ((previous :: rest).map Profile.action))) := by
  induction rest generalizing composed state previous hop with
  | nil => exact ⟨composed.reverse, rfl⟩
  | cons next rest ih =>
    obtain ⟨neighbours, later⟩ := List.isChain_cons_cons.mp apart
    obtain ⟨composition, composes⟩ := compose_ok host neighbours runs.1
    have onwards : Executable (next.action.after (held (applyEffects state previous))) (rest.map Profile.action) := by
      rw [applyEffects_eq, held_facts]
      exact runs.2
    obtain ⟨compositions, answers⟩ := ih (composition :: composed) (hop + 1) later onwards
    refine ⟨compositions, ?_⟩
    rw [chainFrom, composes]
    dsimp only
    rw [answers, applyEffects_eq, held_facts]
    rfl

theorem chainFrom_stops {before after : List (Profile ρ)} {profile : Profile ρ}
    (apart : Apart (previous :: (before ++ profile :: after)))
    (runs : Executable (previous.action.after (held state)) (before.map Profile.action))
    (fails : ¬ profile.action.preconditions ⊆ execute (held state) ((previous :: before).map Profile.action)) :
    chainFrom host composed state previous hop (before ++ profile :: after) =
      .error (.preconditionsUnmet
        (facts (profile.action.preconditions \ execute (held state) ((previous :: before).map Profile.action)))
        (facts (execute (held state) ((previous :: before).map Profile.action)))
        (before.getLastD previous).capabilityId profile.capabilityId, hop + before.length) := by
  induction before generalizing composed state previous hop with
  | nil =>
    obtain ⟨neighbours, -⟩ := List.isChain_cons_cons.mp apart
    rw [List.nil_append, chainFrom, compose_refused host neighbours fails]
    rfl
  | cons next before ih =>
    obtain ⟨neighbours, later⟩ := List.isChain_cons_cons.mp apart
    obtain ⟨composition, composes⟩ := compose_ok host neighbours runs.1
    have threaded : held (applyEffects state previous) = previous.action.after (held state) := by
      rw [applyEffects_eq, held_facts]
    have onwards : Executable (next.action.after (held (applyEffects state previous))) (before.map Profile.action) := by
      rw [threaded]
      exact runs.2
    have stuck : ¬ profile.action.preconditions ⊆
        execute (held (applyEffects state previous)) ((next :: before).map Profile.action) := by
      rw [threaded]
      exact fails
    have answers := ih (composition :: composed) (hop + 1) later onwards stuck
    rw [List.cons_append, chainFrom, composes]
    dsimp only
    rw [answers, threaded, List.length_cons, Nat.add_assoc, Nat.add_comm 1]
    cases before <;> rfl

theorem chain_executes (apart : Apart (first :: rest)) :
    ((∃ answer, chain host first rest state = .ok answer) ↔
      ∀ before profile after, rest = before ++ profile :: after →
        held profile.preconditions ⊆ execute (held state) ((first :: before).map Profile.action)) ∧
    (∀ compositions final, chain host first rest state = .ok (compositions, final) →
      final = facts (execute (held state) ((first :: rest).map Profile.action))) ∧
    ∀ refusal hop, chain host first rest state = .error (refusal, hop) → ∃ before profile after,
      rest = before ++ profile :: after ∧ hop = before.length ∧
      (∀ earlier own later, before = earlier ++ own :: later →
        held own.preconditions ⊆ execute (held state) ((first :: earlier).map Profile.action)) ∧
      ¬ held profile.preconditions ⊆ execute (held state) ((first :: before).map Profile.action) ∧
      refusal = .preconditionsUnmet
        (facts (held profile.preconditions \ execute (held state) ((first :: before).map Profile.action)))
        (facts (execute (held state) ((first :: before).map Profile.action)))
        (before.getLastD first).capabilityId profile.capabilityId := by
  have meaning : Executable (first.action.after (held state)) (rest.map Profile.action) ↔
      ∀ before profile after, rest = before ++ profile :: after →
        held profile.preconditions ⊆ execute (held state) ((first :: before).map Profile.action) := executable_iff
  by_cases runs : Executable (first.action.after (held state)) (rest.map Profile.action)
  · obtain ⟨compositions, answers⟩ := chainFrom_runs host [] 0 apart runs
    change chain host first rest state = _ at answers
    refine ⟨iff_of_true ⟨_, answers⟩ (meaning.mp runs), ?_, ?_⟩
    · intro compositions final same
      cases answers.symm.trans same
      rfl
    · intro refusal hop refused
      cases answers.symm.trans refused
  · obtain ⟨before, profile, after, rfl, earlier, fails⟩ := first_failing runs
    have answers := chainFrom_stops host [] 0 apart earlier fails
    change chain host first (before ++ profile :: after) state = _ at answers
    refine ⟨iff_of_false ?_ (runs ∘ meaning.mpr), ?_, ?_⟩
    · intro ⟨answer, same⟩
      cases answers.symm.trans same
    · intro compositions final same
      cases answers.symm.trans same
    · intro refusal hop refused
      cases answers.symm.trans refused
      exact ⟨before, profile, after, rfl, Nat.zero_add _, executable_iff.mp earlier, fails, rfl⟩

end Whole

end Chains

section Walk

def host : Host Unit := { term := fun _ => .map [], sha256 := id }

def room (name : String) : Fact := ⟨.atom "at", [.text name]⟩

/-- It leaves the room it was in. -/
def walk (here there : String) : Profile Unit :=
  { capabilityId := here ++ "-" ++ there, preconditions := [room here], addEffects := [room there],
    deleteEffects := [room here], authorityRequirement := () }

theorem chain_executes_walk :
    ((∃ answer, chain host (walk "a" "b") [walk "b" "c", walk "b" "d"] [] = .ok answer) ↔
      ∀ before profile after, [walk "b" "c", walk "b" "d"] = before ++ profile :: after →
        held profile.preconditions ⊆ execute (held []) ((walk "a" "b" :: before).map Profile.action)) :=
  (chain_executes host (by decide)).1

end Walk

end AshA2A.Semantic.CapabilityComposition
