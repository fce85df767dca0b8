import Mathlib.Data.List.Infix

/-! Loops that take something from the front of a list at every turn. Nothing here names a particular
system. -/

namespace Scan

variable {α σ ρ : Type}

/-- What one turn does: it stops with a result, it raises, or it goes on with what is left. -/
inductive Turn (α σ ρ : Type) where
  | stop (result : ρ)
  | raise
  | next (rest : List α) (state : σ)

namespace Turn

/-- The same turn with another state and another result. -/
def map {σ' ρ' : Type} (state : σ → σ') (result : ρ → ρ') : Turn α σ ρ → Turn α σ' ρ'
  | .stop value => .stop (result value)
  | .raise => .raise
  | .next rest after => .next rest (state after)

end Turn

/-- A turn that goes on has taken something. -/
def Consuming (turn : List α → σ → Turn α σ ρ) : Prop :=
  ∀ ⦃items state rest after⦄, turn items state = .next rest after → rest.length < items.length

/-- A loop with the number of turns it may take. -/
def loop (turn : List α → σ → Turn α σ ρ) : Nat → List α → σ → Option ρ
  | 0, _, _ => none
  | turns + 1, items, state =>
    match turn items state with
    | .stop result => some result
    | .raise => none
    | .next rest after => loop turn turns rest after

/-- The loop; it has no result where a turn raises. -/
def run (turn : List α → σ → Turn α σ ρ) (items : List α) (state : σ) : Option ρ :=
  loop turn (items.length + 1) items state

/-- The turns that lead from one place to another. -/
inductive Steps (turn : List α → σ → Turn α σ ρ) : List α → σ → List α → σ → Prop
  | refl {items state} : Steps turn items state items state
  | step {items state rest after last final} : turn items state = .next rest after →
      Steps turn rest after last final → Steps turn items state last final

section Run
variable {turn : List α → σ → Turn α σ ρ} {items rest last : List α} {state after final : σ} {result : Option ρ}
  {value : ρ} {turns more : Nat}

theorem loop_enough (consuming : Consuming turn) (enough : items.length < turns) (plenty : items.length < more) :
    loop turn turns items state = loop turn more items state := by
  induction turns generalizing items state more with
  | zero => omega
  | succ turns ih =>
    obtain ⟨more, rfl⟩ : ∃ fewer, more = fewer + 1 := ⟨more - 1, by omega⟩
    simp only [loop]
    split
    case h_1 => rfl
    case h_2 => rfl
    case h_3 rest after taken =>
      have shorter := consuming taken
      exact ih (by omega) (by omega)

theorem run_stop (stopped : turn items state = .stop value) : run turn items state = some value := by
  simp only [run, loop, stopped]

theorem run_raise (raised : turn items state = .raise) : run turn items state = none := by
  simp only [run, loop, raised]

theorem run_next (consuming : Consuming turn) (taken : turn items state = .next rest after) :
    run turn items state = run turn rest after := by
  have shorter := consuming taken
  rw [run, loop]
  simp only [taken]
  exact loop_enough consuming shorter (by omega)

theorem Steps.run (consuming : Consuming turn) (steps : Steps turn items state last final) :
    run turn items state = run turn last final := by
  induction steps with
  | refl => rfl
  | step taken _ ih => exact (run_next consuming taken).trans ih

theorem Steps.trans (first : Steps turn items state rest after) (second : Steps turn rest after last final) :
    Steps turn items state last final := by
  induction first with
  | refl => exact second
  | step taken _ ih => exact .step taken (ih second)

/-- What a run ended with, its last turn gave. -/
theorem run_steps (ran : run turn items state = some value) :
    ∃ last final, Steps turn items state last final ∧ turn last final = .stop value := by
  suffices ends : ∀ turns items state, loop turn turns items state = some value →
      ∃ last final, Steps turn items state last final ∧ turn last final = .stop value from ends _ _ _ ran
  intro turns
  induction turns with
  | zero => intro items state ran; cases ran
  | succ turns ih =>
    intro items state ran
    rw [loop] at ran
    split at ran
    case h_1 result stopped =>
      cases ran
      exact ⟨items, state, .refl, stopped⟩
    case h_2 => cases ran
    case h_3 rest after taken =>
      obtain ⟨last, final, steps, stopped⟩ := ih rest after ran
      exact ⟨last, final, .step taken steps, stopped⟩

/-- Two loops whose turns are the same up to their states, as long as `kept` holds of these. -/
theorem run_map {σ' ρ' : Type} {other : List α → σ' → Turn α σ' ρ'} {kept : σ → Prop} {onState : σ → σ'} {onResult : ρ → ρ'}
    (same : ∀ items state, kept state → other items (onState state) = (turn items state).map onState onResult)
    (stays : ∀ {items state rest after}, kept state → turn items state = .next rest after → kept after)
    (start : kept state) : run other items (onState state) = (run turn items state).map onResult := by
  suffices loops : ∀ turns items state, kept state →
      loop other turns items (onState state) = (loop turn turns items state).map onResult from loops _ _ _ start
  intro turns
  induction turns with
  | zero => intro items state start; rfl
  | succ turns ih =>
    intro items state start
    rw [loop, loop, same items state start]
    cases taken : turn items state with
    | stop value => rfl
    | raise => rfl
    | next rest after => exact ih rest after (stays start taken)

end Run

/-- A turn that goes on does the same when more follows. -/
def Extends (turn : List α → σ → Turn α σ ρ) : Prop :=
  ∀ ⦃items state rest after⦄, turn items state = .next rest after →
    ∀ more, turn (items ++ more) state = .next (rest ++ more) after

theorem Steps.append {turn : List α → σ → Turn α σ ρ} {items last : List α} {state final : σ}
    (extends_ : Extends turn) (steps : Steps turn items state last final) (more : List α) :
    Steps turn (items ++ more) state (last ++ more) final := by
  induction steps with
  | refl => exact .refl
  | step taken _ ih => exact .step (extends_ taken more) ih

/-! ## Runs of items -/

section Runs
variable {keep : α → Bool} {items more : List α} {item : α}

/-- An item that is not kept ends the run. -/
theorem takeWhile_stop (outside : keep item = false) :
    (items ++ item :: more).takeWhile keep = items.takeWhile keep := by
  rw [List.takeWhile_append]
  split
  case isTrue whole => rw [List.takeWhile_cons_of_neg (by simp [outside]), List.append_nil,
    (List.takeWhile_prefix keep).eq_of_length whole]
  case isFalse => rfl

theorem drop_taken {taken : List α} (start : taken <+: items) :
    (items ++ more).drop taken.length = items.drop taken.length ++ more :=
  List.drop_append_of_le_length start.length_le

end Runs

/-- What is left behind the first place where the words stand. -/
def behind [DecidableEq α] (words : List α) : List α → Option (List α)
  | [] => none
  | item :: items =>
    if words <+: item :: items then some ((item :: items).drop words.length) else behind words items

section Behind
variable [DecidableEq α] {words items rest : List α}

theorem behind_shorter (nonempty : words ≠ []) (found : behind words items = some rest) :
    rest.length < items.length := by
  induction items with
  | nil => cases found
  | cons item items ih =>
    rw [behind] at found
    split at found
    · cases found
      have positive := List.length_pos_iff.mpr nonempty
      simp only [List.length_drop, List.length_cons]
      omega
    · exact Nat.lt_succ_of_lt (ih found)

theorem behind_fits (found : behind words items = some rest) : words.length ≤ items.length := by
  induction items with
  | nil => cases found
  | cons item items ih =>
    rw [behind] at found
    split at found
    case isTrue here => exact here.length_le
    case isFalse => exact Nat.le_succ_of_le (ih found)

theorem behind_append (found : behind words items = some rest) (more : List α) :
    behind words (items ++ more) = some (rest ++ more) := by
  induction items with
  | nil => cases found
  | cons item items ih =>
    rw [behind] at found
    rw [List.cons_append, behind, ← List.cons_append]
    split at found
    case isTrue here =>
      rw [if_pos (here.trans (List.prefix_append _ more))]
      cases found
      rw [drop_taken here]
    case isFalse away =>
      have fits := behind_fits found
      rw [if_neg fun here => away ?_]
      · exact ih found
      · exact List.prefix_of_prefix_length_le here (List.prefix_append _ more) (Nat.le_succ_of_le fits)

end Behind

end Scan
