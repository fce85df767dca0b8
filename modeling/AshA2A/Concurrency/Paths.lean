import AshA2A.Concurrency.Program
import Mathlib.Data.List.Basic

/-! The paths of one program, whatever it is answered. Some requests are seen, the others
leave no trace in the history a path is judged by. -/

namespace Concurrency

variable {Op : Type} {Reply : Op → Type} {α β : Type}

/-- One request and the reply it got. -/
structure Exchange (Op : Type) (Reply : Op → Type) where
  op : Op
  reply : Reply op

namespace Program

/-- The program has had these exchanges, newest first, and goes on with the last argument. -/
inductive Takes (program : Program Op Reply α) :
    List (Exchange Op Reply) → Program Op Reply α → Prop where
  | start : Takes program [] program
  | step {history : List (Exchange Op Reply)} {op : Op} {next : Reply op → Program Op Reply α}
      (takes : Takes program history (.request op next)) (reply : Reply op) :
      Takes program (⟨op, reply⟩ :: history) (next reply)

/-- Along every path, each history that ends in a seen exchange satisfies the invariant,
and the result satisfies the postcondition. -/
def Along (seen : Op → Bool) (invariant : List (Exchange Op Reply) → Prop)
    (post : α → List (Exchange Op Reply) → Prop) :
    Program Op Reply α → List (Exchange Op Reply) → Prop
  | .pure value, history => post value history
  | .request op next, history => ∀ reply,
    (seen op = true → invariant (⟨op, reply⟩ :: history) ∧
      (next reply).Along seen invariant post (⟨op, reply⟩ :: history)) ∧
    (seen op = false → (next reply).Along seen invariant post history)

variable {seen : Op → Bool} {invariant : List (Exchange Op Reply) → Prop}
  {post : α → List (Exchange Op Reply) → Prop} {history : List (Exchange Op Reply)}

theorem Along.weaken {program : Program Op Reply α} {other : α → List (Exchange Op Reply) → Prop}
    (along : program.Along seen invariant post history)
    (implies : ∀ value history, post value history → other value history) :
    program.Along seen invariant other history := by
  induction program generalizing history with
  | pure value => exact implies _ _ along
  | request op next ih =>
    intro reply
    exact ⟨fun visible => ((along reply).1 visible).imp_right (ih reply),
      fun hidden => ih reply ((along reply).2 hidden)⟩

theorem Along.bind {program : Program Op Reply α} {next : α → Program Op Reply β}
    {final : β → List (Exchange Op Reply) → Prop}
    (along : program.Along seen invariant post history)
    (rest : ∀ value history, post value history → (next value).Along seen invariant final history) :
    (program >>= next).Along seen invariant final history := by
  induction program generalizing history with
  | pure value => exact rest _ _ along
  | request op continuation ih =>
    intro reply
    exact ⟨fun visible => ((along reply).1 visible).imp_right (ih reply),
      fun hidden => ih reply ((along reply).2 hidden)⟩

/-- A program without seen requests leaves the history as it is. -/
theorem Uses.along {program : Program Op Reply α} (uses : program.Uses fun op => seen op = false) :
    program.Along seen invariant (fun _ after => after = history) history := by
  induction program with
  | pure value => rfl
  | request op next ih =>
    intro reply
    refine ⟨fun visible => ?_, fun _ => ih reply (uses.2 reply)⟩
    rw [uses.1] at visible
    cases visible

theorem Uses.along_bind {program : Program Op Reply α} {next : α → Program Op Reply β}
    {final : β → List (Exchange Op Reply) → Prop}
    (uses : program.Uses fun op => seen op = false)
    (rest : ∀ value, (next value).Along seen invariant final history) :
    (program >>= next).Along seen invariant final history := by
  apply uses.along.bind
  rintro value _ rfl
  exact rest value

theorem along_ask {op : Op} {next : Reply op → Program Op Reply α} (visible : seen op = true)
    (step : ∀ reply, invariant (⟨op, reply⟩ :: history) ∧
      (next reply).Along seen invariant post (⟨op, reply⟩ :: history)) :
    (ask op >>= next).Along seen invariant post history := by
  intro reply
  refine ⟨fun _ => step reply, fun hidden => ?_⟩
  rw [visible] at hidden
  cases hidden

theorem Along.rest {program final : Program Op Reply α} {taken : List (Exchange Op Reply)}
    (along : program.Along seen invariant post []) (start : invariant [])
    (takes : program.Takes taken final) :
    invariant (taken.filter fun exchange => seen exchange.op) ∧
      final.Along seen invariant post (taken.filter fun exchange => seen exchange.op) := by
  induction takes with
  | start => exact ⟨start, along⟩
  | @step _ op _ _ reply ih =>
    cases visible : seen op with
    | true =>
      rw [List.filter_cons_of_pos (by exact visible)]
      exact (ih.2 reply).1 visible
    | false =>
      rw [List.filter_cons_of_neg (by simp [visible])]
      exact ⟨ih.1, (ih.2 reply).2 visible⟩

/-- The path rule: what holds along a program holds of every path it takes. -/
theorem Along.takes {program final : Program Op Reply α} {taken : List (Exchange Op Reply)}
    (along : program.Along seen invariant post []) (start : invariant [])
    (takes : program.Takes taken final) :
    invariant (taken.filter fun exchange => seen exchange.op) :=
  (along.rest start takes).1

end Program

namespace Machine

variable {Pid Choice World : Type} (machine : Machine Pid Op Reply Choice World)

/-- One process on its own: nobody else is served while these choices last. -/
def serve (pid : Pid) : List Choice → Program Op Reply α → World → List (Exchange Op Reply) →
    Option (Program Op Reply α × World × List (Exchange Op Reply))
  | [], program, world, history => some (program, world, history)
  | _ :: _, .pure _, _, _ => none
  | choice :: choices, .request op next, world, history =>
    (machine.exec pid op choice world).bind fun (reply, world) =>
      serve pid choices (next reply) world (⟨op, reply⟩ :: history)

variable {machine}

theorem serve_takes {pid : Pid} {choices : List Choice} {start program final : Program Op Reply α}
    {world last : World} {history taken : List (Exchange Op Reply)}
    (takes : start.Takes history program)
    (served : machine.serve pid choices program world history = some (final, last, taken)) :
    start.Takes taken final := by
  induction choices generalizing program world history with
  | nil => cases served; exact takes
  | cons choice choices ih =>
    cases program with
    | pure value => cases served
    | request op next =>
      obtain ⟨⟨reply, after⟩, _, rest⟩ := Option.bind_eq_some_iff.mp served
      exact ih (takes.step reply) rest

end Machine

end Concurrency

/-! A process that takes one event at a time: what holds at every step of its run, and what
holds after it. -/

namespace Concurrency
universe u v

variable {State : Type u} {Event : Type v} {apply : State → Event → State}

/-- At every event of the run, in the state the event meets. -/
def Throughout (apply : State → Event → State) (holds : State → Event → Prop) : State → List Event → Prop
  | _, [] => True
  | state, event :: events => holds state event ∧ Throughout apply holds (apply state event) events

namespace Throughout
variable {guard holds : State → Event → Prop} {invariant : State → Prop}

theorem trivial (always : ∀ state event, holds state event) :
    ∀ (state : State) (events : List Event), Throughout apply holds state events
  | _, [] => True.intro
  | state, event :: events => ⟨always state event, trivial always (apply state event) events⟩

theorem append {state : State} {first second : List Event} :
    Throughout apply holds state (first ++ second) ↔
      Throughout apply holds state first ∧ Throughout apply holds (first.foldl apply state) second := by
  induction first generalizing state with
  | nil => simp [Throughout]
  | cons event events hypothesis =>
    rw [List.cons_append, List.foldl_cons, Throughout, Throughout, hypothesis, and_assoc]

/-- The step rule: an invariant that guarded events keep holds after the run. -/
theorem invariant_foldl {state : State} {events : List Event} (guarded : Throughout apply guard state events)
    (start : invariant state)
    (kept : ∀ state event, invariant state → guard state event → invariant (apply state event)) :
    invariant (events.foldl apply state) := by
  induction events generalizing state with
  | nil => exact start
  | cons event events hypothesis =>
    obtain ⟨now, later⟩ := guarded
    exact hypothesis later (kept state event start now)

/-- The run rule: what the invariant and the guard give at one event, they give throughout. -/
theorem of_invariant {state : State} {events : List Event} (guarded : Throughout apply guard state events)
    (start : invariant state)
    (kept : ∀ state event, invariant state → guard state event → invariant (apply state event))
    (given : ∀ state event, invariant state → guard state event → holds state event) :
    Throughout apply holds state events := by
  induction events generalizing state with
  | nil => exact True.intro
  | cons event events hypothesis =>
    obtain ⟨now, later⟩ := guarded
    exact ⟨given state event start now, hypothesis later (kept state event start now)⟩

end Throughout
end Concurrency
