import AshA2A.PreparedEffectStore

/-! What the kernel asks of a store for prepared records: once an effect is being applied, its
record stays behind the point where it could be released. -/

namespace AshA2A.ConsequenceKernel

/-- A store for prepared records, with the point in the life of a record from which it cannot be
released any more. -/
structure PreparedStore (Store : Type) where
  serve : Store → PreparedEffectStore.Call → PreparedEffectStore.Answer × Store
  applied : Store → String → Prop
  enters : ∀ {store digest}, (serve store (.transition digest "claimed" "applying")).1 = .ok →
    applied (serve store (.transition digest "claimed" "applying")).2 digest
  keeps : ∀ {store digest} call, applied store digest → applied (serve store call).2 digest
  refuses : ∀ {store digest} source, applied store digest →
    (serve store (.transition digest source "released")).1 ≠ .ok

namespace PreparedStore
open PreparedEffectStore

/-- From here a record goes on to the states after it only. -/
def pastRelease (record : Record) : Prop :=
  ∃ state ∈ ["applying", "completed", "unknown_outcome", "reconciled", "compensated"], record.state = some (.atom state)

theorem pastRelease_step {source target : String}
    (past : source ∈ ["applying", "completed", "unknown_outcome", "reconciled", "compensated"])
    (admitted : Transition.admit source target = true) :
    target ∈ ["applying", "completed", "unknown_outcome", "reconciled", "compensated"] ∧ target ≠ "released" := by
  simp only [ Transition.admit, decide_eq_true_eq] at admitted
  simp only [List.mem_cons, List.not_mem_nil, or_false] at past
  rcases past with rfl | rfl | rfl | rfl | rfl <;> simp [Transition.allowed] at admitted
  all_goals rcases admitted with rfl | rfl <;> decide

/-- As long as the agent is there. -/
def Memory.applied (agent : Option State) (digest : String) : Prop :=
  ∀ state, agent = some state → ∃ record, state.records digest = some record ∧ pastRelease record

/-- A call leaves a record that is past release where it is, or moves it on. -/
theorem handle_pastRelease {state after : State} {call : Call} {answer : Answer} {digest : String} {record : Record}
    (found : state.records digest = some record) (past : pastRelease record)
    (handled : PreparedEffectStore.Memory.handle state call = some (answer, after)) :
    ∃ record, after.records digest = some record ∧ pastRelease record := by
  have put : ∀ other written, (other = digest → pastRelease written) →
      ∃ record, (state.putRecord other written).records digest = some record ∧ pastRelease record := by
    intro other written moved
    by_cases same : digest = other
    · exact ⟨written, by simp [State.putRecord, same], moved same.symm⟩
    · exact ⟨record, by simp [State.putRecord, Function.update_of_ne same, found], past⟩
  cases call with
  | put record' =>
    simp only [Memory.handle, Memory.put, Option.some.injEq] at handled
    split at handled
    case isTrue =>
      cases handled
      exact ⟨record, found, past⟩
    case isFalse fresh =>
      cases handled
      refine put _ _ fun same => ?_
      rw [same, found] at fresh
      exact absurd rfl fresh
  | fetch id =>
    cases handled
    exact ⟨record, found, past⟩
  | transition other source target =>
    simp only [Memory.handle, Memory.transition] at handled
    cases held : state.records other with
    | none =>
      rw [held] at handled
      cases handled
      exact ⟨record, found, past⟩
    | some current =>
      rw [held] at handled
      dsimp only at handled
      split at handled
      case h_1 => cases handled
      case h_2 now stated =>
        split at handled
        case isTrue moves =>
          cases handled
          refine put _ _ fun same => ?_
          rw [same, found] at held
          cases held
          obtain ⟨source', among, known⟩ := past
          rw [stated] at known
          cases known
          have step := moves.1
          simp only [Term.atom.injEq] at step
          subst step
          exact ⟨target, (pastRelease_step among moves.2).1, rfl⟩
        case isFalse =>
          cases handled
          exact ⟨record, found, past⟩
  | claimRequest id owner =>
    simp only [Memory.handle, Memory.claim, Option.some.injEq] at handled
    split at handled
    · cases handled
      exact ⟨record, found, past⟩
    · split at handled <;> cases handled <;> exact ⟨record, found, past⟩
  | claimEffect id owner =>
    simp only [Memory.handle, Memory.claim, Option.some.injEq] at handled
    split at handled
    · cases handled
      exact ⟨record, found, past⟩
    · split at handled <;> cases handled <;> exact ⟨record, found, past⟩
  | complete other outcome =>
    simp only [Memory.handle, Memory.complete, Option.some.injEq] at handled
    split at handled
    case h_1 current held =>
      split at handled
      case isTrue =>
        cases handled
        refine put _ _ fun same => ?_
        rw [same, found] at held
        cases held
        exact past
      case isFalse =>
        cases handled
        exact ⟨record, found, past⟩
    case h_2 =>
      cases handled
      exact ⟨record, found, past⟩

theorem serve_ok {agent : Option State} {call : Call}
    (accepted : (PreparedEffectStore.Memory.serve agent call).1 = .ok) :
    ∃ state after, agent = some state ∧ PreparedEffectStore.Memory.handle state call = some (.ok, after) ∧
      (PreparedEffectStore.Memory.serve agent call).2 = some after := by
  cases agent with
  | none => cases accepted
  | some state =>
    cases handled : PreparedEffectStore.Memory.handle state call with
    | none => simp [PreparedEffectStore.Memory.serve, handled] at accepted
    | some result =>
      obtain ⟨answer, after⟩ := result
      simp only [PreparedEffectStore.Memory.serve, Option.bind_some, handled] at accepted
      subst accepted
      exact ⟨state, after, rfl, handled, by simp only [PreparedEffectStore.Memory.serve, Option.bind_some, handled]⟩

theorem transition_ok {state after : State} {digest source target : String}
    (moved : PreparedEffectStore.Memory.transition state digest source target = some (.ok, after)) :
    ∃ record, state.records digest = some record ∧ record.state = some (.atom source) ∧
      Transition.admit source target = true ∧
      after = state.putRecord digest { record with state := some (.atom target) } := by
  unfold PreparedEffectStore.Memory.transition at moved
  split at moved
  case h_1 => cases moved
  case h_2 record found =>
    split at moved
    case h_1 => cases moved
    case h_2 current stated =>
      split at moved
      case isTrue admitted =>
        cases moved
        exact ⟨record, found, stated.trans (congrArg some admitted.1), admitted.2, rfl⟩
      case isFalse => cases moved

/-- The in-memory store. -/
def memory : PreparedStore (Option State) where
  serve := PreparedEffectStore.Memory.serve
  applied := Memory.applied
  enters {agent digest} accepted state now := by
    obtain ⟨before, after, -, handled, left⟩ := serve_ok accepted
    rw [left] at now
    cases now
    obtain ⟨record, -, -, -, rfl⟩ := transition_ok handled
    exact ⟨_, by simp [State.putRecord]; rfl, "applying", by decide, rfl⟩
  keeps {agent digest} call applied state now := by
    cases agent with
    | none => cases now
    | some before =>
      obtain ⟨record, found, past⟩ := applied before rfl
      cases handled : PreparedEffectStore.Memory.handle before call with
      | none => simp [PreparedEffectStore.Memory.serve, handled] at now
      | some result =>
        simp only [PreparedEffectStore.Memory.serve, Option.bind_some, handled, Option.some.injEq] at now
        subst now
        exact handle_pastRelease found past handled
  refuses {agent digest} source applied accepted := by
    obtain ⟨before, after, rfl, handled, -⟩ := serve_ok accepted
    obtain ⟨record, found, past⟩ := applied before rfl
    obtain ⟨current, held, stated, admitted, -⟩ := transition_ok handled
    rw [found] at held
    cases held
    obtain ⟨state, among, known⟩ := past
    rw [stated] at known
    cases known
    exact (pastRelease_step among admitted).2 rfl

end PreparedStore

end AshA2A.ConsequenceKernel
