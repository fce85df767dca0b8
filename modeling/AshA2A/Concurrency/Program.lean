import Mathlib.Logic.Function.Basic

/-! Sequential code cut at its atomic requests, and the interleavings of any family
of such processes over one shared world. Nothing here names a particular system. -/

namespace Concurrency

/-- The code of one process. Between two requests it computes on its own, so every
interleaving of processes is an interleaving of their requests. -/
inductive Program (Op : Type) (Reply : Op → Type) (α : Type) where
  | pure (value : α)
  | request (op : Op) (next : Reply op → Program Op Reply α)

variable {Op : Type} {Reply : Op → Type} {α β γ : Type}

namespace Program

def bind : Program Op Reply α → (α → Program Op Reply β) → Program Op Reply β
  | .pure value, next => next value
  | .request op rest, next => .request op fun reply => (rest reply).bind next

instance : Monad (Program Op Reply) where
  pure := Program.pure
  bind := Program.bind

/-- Perform one request and return its reply. -/
def ask (op : Op) : Program Op Reply (Reply op) := .request op .pure

@[simp] theorem pure_bind (value : α) (next : α → Program Op Reply β) :
    (Pure.pure value >>= next : Program Op Reply β) = next value := rfl

@[simp] theorem value_bind (value : α) (next : α → Program Op Reply β) :
    ((.pure value : Program Op Reply α) >>= next) = next value := rfl

@[simp] theorem request_bind (op : Op) (rest : Reply op → Program Op Reply α)
    (next : α → Program Op Reply β) :
    (.request op rest >>= next) = .request op fun reply => rest reply >>= next := rfl

@[simp] theorem ask_bind (op : Op) (next : Reply op → Program Op Reply β) :
    (ask op >>= next) = .request op next := rfl

@[simp] theorem bind_pure (program : Program Op Reply α) :
    (program >>= fun value => (Pure.pure value : Program Op Reply α)) = program := by
  induction program with
  | pure value => rfl
  | request op next ih =>
    rw [request_bind]
    exact congrArg (Program.request op) (funext ih)

@[simp] theorem bind_assoc (program : Program Op Reply α) (first : α → Program Op Reply β)
    (last : β → Program Op Reply γ) :
    (program >>= first) >>= last = program >>= fun value => first value >>= last := by
  induction program with
  | pure value => rfl
  | request op next ih =>
    simp only [request_bind]
    exact congrArg (Program.request op) (funext ih)

/-- Every request that some path of the program makes is one of these. -/
def Uses (allowed : Op → Prop) : Program Op Reply α → Prop
  | .pure _ => True
  | .request op next => allowed op ∧ ∀ reply, (next reply).Uses allowed

variable {allowed : Op → Prop}

@[simp] theorem uses_pure (value : α) : (Pure.pure value : Program Op Reply α).Uses allowed := trivial

theorem uses_ask {op : Op} (permitted : allowed op) :
    (ask op : Program Op Reply (Reply op)).Uses allowed := ⟨permitted, fun _ => trivial⟩

theorem Uses.weaken {program : Program Op Reply α} {wider : Op → Prop} (uses : program.Uses allowed)
    (implies : ∀ op, allowed op → wider op) : program.Uses wider := by
  induction program with
  | pure value => trivial
  | request op next ih => exact ⟨implies op uses.1, fun reply => ih reply (uses.2 reply)⟩

theorem Uses.bind {program : Program Op Reply α} {next : α → Program Op Reply β}
    (uses : program.Uses allowed) (rest : ∀ value, (next value).Uses allowed) :
    (program >>= next).Uses allowed := by
  induction program with
  | pure value => exact rest value
  | request op continuation ih => exact ⟨uses.1, fun reply => ih reply (uses.2 reply)⟩

end Program

/-- What the shared world can do with a request. A choice stands for everything the
requesting process does not decide: an answer of the outside, a fault, the time. No
result means that the request cannot be served now. -/
structure Machine (Pid Op : Type) (Reply : Op → Type) (Choice World : Type) where
  exec : Pid → (op : Op) → Choice → World → Option (Reply op × World)

/-- One served request. -/
structure Event (Pid Op : Type) (Reply : Op → Type) where
  pid : Pid
  op : Op
  reply : Reply op

/-- The world together with everything that happened in it, newest first. -/
structure Shared (Pid Op : Type) (Reply : Op → Type) (World : Type) where
  world : World
  trace : List (Event Pid Op Reply)

structure Config (Pid Op : Type) (Reply : Op → Type) (World α : Type) where
  shared : Shared Pid Op Reply World
  procs : Pid → Program Op Reply α

variable {Pid Choice World : Type}

def Shared.after (shared : Shared Pid Op Reply World) (pid : Pid) (op : Op) (reply : Reply op)
    (world : World) : Shared Pid Op Reply World :=
  ⟨world, ⟨pid, op, reply⟩ :: shared.trace⟩

@[simp] theorem Shared.after_world (shared : Shared Pid Op Reply World) (pid : Pid) (op : Op)
    (reply : Reply op) (world : World) : (shared.after pid op reply world).world = world := rfl

@[simp] theorem Shared.after_trace (shared : Shared Pid Op Reply World) (pid : Pid) (op : Op)
    (reply : Reply op) (world : World) :
    (shared.after pid op reply world).trace = ⟨pid, op, reply⟩ :: shared.trace := rfl

namespace Machine

variable [DecidableEq Pid] (machine : Machine Pid Op Reply Choice World)

/-- One process has its next request served. A process that is never scheduled again
has crashed or stalled: it takes no step and nothing else notices. -/
def step (pid : Pid) (choice : Choice) (config : Config Pid Op Reply World α) :
    Option (Config Pid Op Reply World α) :=
  match config.procs pid with
  | .pure _ => none
  | .request op next =>
    (machine.exec pid op choice config.shared.world).map fun (reply, world) =>
      ⟨config.shared.after pid op reply world, Function.update config.procs pid (next reply)⟩

def run : List (Pid × Choice) → Config Pid Op Reply World α → Option (Config Pid Op Reply World α)
  | [], config => some config
  | (pid, choice) :: rest, config => (machine.step pid choice config).bind (run rest)

/-- The configurations that runs reach in which every served request was allowed in the
state before it. -/
inductive Reaches (allowed : Pid → Op → Choice → Shared Pid Op Reply World → Prop)
    (start : Config Pid Op Reply World α) : Config Pid Op Reply World α → Prop where
  | start : Reaches allowed start start
  | step {before : Config Pid Op Reply World α} {pid : Pid} {op : Op}
      {next : Reply op → Program Op Reply α} {choice : Choice} {reply : Reply op} {world : World}
      (reached : Reaches allowed start before)
      (asked : before.procs pid = .request op next)
      (permitted : allowed pid op choice before.shared)
      (served : machine.exec pid op choice before.shared.world = some (reply, world)) :
      Reaches allowed start
        ⟨before.shared.after pid op reply world, Function.update before.procs pid (next reply)⟩

/-- Every configuration that some run reaches. -/
abbrev Reachable (start : Config Pid Op Reply World α) : Config Pid Op Reply World α → Prop :=
  machine.Reaches (fun _ _ _ _ => True) start

variable {machine}

theorem Reaches.weaken {allowed wider : Pid → Op → Choice → Shared Pid Op Reply World → Prop}
    (implies : ∀ pid op choice shared, allowed pid op choice shared → wider pid op choice shared)
    {start final : Config Pid Op Reply World α} (reached : machine.Reaches allowed start final) :
    machine.Reaches wider start final := by
  induction reached with
  | start => exact .start
  | step _ asked permitted served ih => exact .step ih asked (implies _ _ _ _ permitted) served

theorem reachable_of_step {start before after : Config Pid Op Reply World α} {pid : Pid}
    {choice : Choice} (reached : machine.Reachable start before)
    (stepped : machine.step pid choice before = some after) : machine.Reachable start after := by
  unfold step at stepped
  split at stepped
  next => cases stepped
  next op next asked =>
    obtain ⟨⟨reply, world⟩, served, rfl⟩ := Option.map_eq_some_iff.mp stepped
    exact .step reached asked trivial served

/-- A schedule that executes is a run: counterexamples are given as schedules. -/
theorem reachable_of_run {start before after : Config Pid Op Reply World α}
    {schedule : List (Pid × Choice)} (reached : machine.Reachable start before)
    (ran : machine.run schedule before = some after) : machine.Reachable start after := by
  induction schedule generalizing before with
  | nil => cases ran; exact reached
  | cons move rest ih =>
    obtain ⟨middle, stepped, rest⟩ := Option.bind_eq_some_iff.mp ran
    exact ih (reachable_of_step reached stepped) rest

end Machine

end Concurrency
