import AshA2A.Concurrency.Program

/-! A process that handles one call after another, keeps its state in memory and can stop
between any two of its requests. What it had in memory is lost then, and of the world only
what survives such a stop is left. Nothing here names a particular system. -/

namespace Concurrency

variable {Op : Type} {Reply : Op → Type} {Choice World α β : Type}

namespace Machine

/-- The program on its own, up to its end or to a point where it stops for good. -/
inductive Runs (machine : Machine Unit Op Reply Choice World) (allowed : Op → Choice → World → Prop) :
    Program Op Reply α → World → Option α → World → Prop where
  | stopped (program : Program Op Reply α) (world : World) : Runs machine allowed program world none world
  | returned (value : α) (world : World) : Runs machine allowed (.pure value) world (some value) world
  | served {op : Op} {next : Reply op → Program Op Reply α} {choice : Choice} {reply : Reply op}
      {world middle last : World} {result : Option α} (permitted : allowed op choice world)
      (served : machine.exec () op choice world = some (reply, middle))
      (rest : Runs machine allowed (next reply) middle result last) :
      Runs machine allowed (.request op next) world result last

/-- One condition holds wherever the program can be stopped, another one at its end. -/
def Upholds (machine : Machine Unit Op Reply Choice World) (allowed : Op → Choice → World → Prop)
    (always : World → Prop) (post : α → World → Prop) : Program Op Reply α → World → Prop
  | .pure value, world => always world ∧ post value world
  | .request op next, world => always world ∧ ∀ choice reply after, allowed op choice world →
      machine.exec () op choice world = some (reply, after) →
      machine.Upholds allowed always post (next reply) after

variable {machine : Machine Unit Op Reply Choice World} {allowed : Op → Choice → World → Prop}
  {always : World → Prop} {post : α → World → Prop} {program : Program Op Reply α} {world : World}

namespace Upholds

theorem now (upholds : machine.Upholds allowed always post program world) : always world := by
  cases program with
  | pure value => exact upholds.1
  | request op next => exact upholds.1

theorem runs (upholds : machine.Upholds allowed always post program world) {result : Option α}
    {last : World} (ran : machine.Runs allowed program world result last) :
    always last ∧ ∀ value, result = some value → post value last := by
  induction ran with
  | stopped program world => exact ⟨upholds.now, nofun⟩
  | returned value world => exact ⟨upholds.1, fun _ same => Option.some.inj same ▸ upholds.2⟩
  | served permitted served _ ih => exact ih (upholds.2 _ _ _ permitted served)

theorem pure {value : α} (kept : always world) (holds : post value world) :
    machine.Upholds allowed always post (Pure.pure value : Program Op Reply α) world := ⟨kept, holds⟩

theorem weaken {wider : World → Prop} {other : α → World → Prop}
    (upholds : machine.Upholds allowed always post program world) (widens : ∀ world, always world → wider world)
    (implies : ∀ value world, always world → post value world → other value world) :
    machine.Upholds allowed wider other program world := by
  induction program generalizing world with
  | pure value => exact ⟨widens _ upholds.1, implies _ _ upholds.1 upholds.2⟩
  | request op next ih =>
    exact ⟨widens _ upholds.1, fun choice reply after permitted served =>
      ih reply (upholds.2 choice reply after permitted served)⟩

theorem bind {next : α → Program Op Reply β} {final : β → World → Prop}
    (upholds : machine.Upholds allowed always post program world)
    (rest : ∀ value world, always world → post value world →
      machine.Upholds allowed always final (next value) world) :
    machine.Upholds allowed always final (program >>= next) world := by
  induction program generalizing world with
  | pure value => exact rest value world upholds.1 upholds.2
  | request op continuation ih =>
    exact ⟨upholds.1, fun choice reply after permitted served =>
      ih reply (upholds.2 choice reply after permitted served)⟩

/-- One request, then the rest of the program. -/
theorem ask {op : Op} {next : Reply op → Program Op Reply β} {final : β → World → Prop}
    (kept : always world)
    (serve : ∀ choice reply after, allowed op choice world →
      machine.exec () op choice world = some (reply, after) →
      machine.Upholds allowed always final (next reply) after) :
    machine.Upholds allowed always final (Program.ask op >>= next) world := ⟨kept, serve⟩

/-- A program whose requests leave the world as it is. -/
theorem still {quiet : Op → Prop} (uses : program.Uses quiet)
    (unchanged : ∀ op choice reply world after, quiet op →
      machine.exec () op choice world = some (reply, after) → after = world)
    (kept : always world) :
    machine.Upholds allowed always (fun _ last => last = world) program world := by
  induction program with
  | pure value => exact ⟨kept, rfl⟩
  | request op next ih =>
    refine ⟨kept, fun choice reply after _ served => ?_⟩
    obtain rfl := unchanged op choice reply _ _ uses.1 served
    exact ih reply (uses.2 reply)

end Upholds

/-- As `Upholds`, and the program is never left without an answer as long as it is live. -/
def Proceeds (machine : Machine Unit Op Reply Choice World) (allowed : Op → Choice → World → Prop) (live : Prop)
    (always : World → Prop) (post : α → World → Prop) : Program Op Reply α → World → Prop
  | .pure value, world => always world ∧ post value world
  | .request op next, world => always world ∧
      (live → ∃ choice reply after, allowed op choice world ∧
        machine.exec () op choice world = some (reply, after)) ∧
      ∀ choice reply after, allowed op choice world → machine.exec () op choice world = some (reply, after) →
        machine.Proceeds allowed live always post (next reply) after

namespace Proceeds

variable {live : Prop}

theorem upholds (proceeds : machine.Proceeds allowed live always post program world) :
    machine.Upholds allowed always post program world := by
  induction program generalizing world with
  | pure value => exact proceeds
  | request op next ih =>
    exact ⟨proceeds.1, fun choice reply after permitted served =>
      ih reply (proceeds.2.2 choice reply after permitted served)⟩

/-- Whatever it meets, the program comes to its end. -/
theorem ends (proceeds : machine.Proceeds allowed live always post program world) (alive : live) :
    ∃ value last, machine.Runs allowed program world (some value) last ∧ post value last := by
  induction program generalizing world with
  | pure value => exact ⟨value, world, .returned value world, proceeds.2⟩
  | request op next ih =>
    obtain ⟨choice, reply, after, permitted, served⟩ := proceeds.2.1 alive
    obtain ⟨value, last, ran, holds⟩ := ih reply (proceeds.2.2 choice reply after permitted served)
    exact ⟨value, last, .served permitted served ran, holds⟩

theorem pure {value : α} (kept : always world) (holds : post value world) :
    machine.Proceeds allowed live always post (Pure.pure value : Program Op Reply α) world := ⟨kept, holds⟩

theorem weaken {wider : World → Prop} {other : α → World → Prop}
    (proceeds : machine.Proceeds allowed live always post program world)
    (widens : ∀ world, always world → wider world)
    (implies : ∀ value world, always world → post value world → other value world) :
    machine.Proceeds allowed live wider other program world := by
  induction program generalizing world with
  | pure value => exact ⟨widens _ proceeds.1, implies _ _ proceeds.1 proceeds.2⟩
  | request op next ih =>
    exact ⟨widens _ proceeds.1, proceeds.2.1, fun choice reply after permitted served =>
      ih reply (proceeds.2.2 choice reply after permitted served)⟩

theorem bind {next : α → Program Op Reply β} {final : β → World → Prop}
    (proceeds : machine.Proceeds allowed live always post program world)
    (rest : ∀ value world, always world → post value world →
      machine.Proceeds allowed live always final (next value) world) :
    machine.Proceeds allowed live always final (program >>= next) world := by
  induction program generalizing world with
  | pure value => exact rest value world proceeds.1 proceeds.2
  | request op continuation ih =>
    exact ⟨proceeds.1, proceeds.2.1, fun choice reply after permitted served =>
      ih reply (proceeds.2.2 choice reply after permitted served)⟩

theorem ask {op : Op} {next : Reply op → Program Op Reply β} {final : β → World → Prop} (kept : always world)
    (answered : live → ∃ choice reply after, allowed op choice world ∧
      machine.exec () op choice world = some (reply, after))
    (serve : ∀ choice reply after, allowed op choice world →
      machine.exec () op choice world = some (reply, after) →
      machine.Proceeds allowed live always final (next reply) after) :
    machine.Proceeds allowed live always final (Program.ask op >>= next) world := ⟨kept, answered, serve⟩

end Proceeds

/-- The program with its requests answered by these choices; it stops where they end. -/
def play (machine : Machine Unit Op Reply Choice World) :
    List Choice → Program Op Reply α → World → Option (Option α × World)
  | [], .pure value, world => some (some value, world)
  | [], .request _ _, world => some (none, world)
  | _ :: _, .pure _, _ => none
  | choice :: rest, .request op next, world =>
    (machine.exec () op choice world).bind fun (reply, after) => play machine rest (next reply) after

@[simp] theorem play_pure (value : α) :
    machine.play [] (Pure.pure value : Program Op Reply α) world = some (some value, world) := rfl

/-- Every request of the play is of those allowed. -/
def Permits (machine : Machine Unit Op Reply Choice World) (allowed : Op → Choice → World → Prop) :
    List Choice → Program Op Reply α → World → Prop
  | [], _, _ => True
  | _ :: _, .pure _, _ => True
  | choice :: rest, .request op next, world => allowed op choice world ∧
    match machine.exec () op choice world with
    | none => True
    | some (reply, after) => machine.Permits allowed rest (next reply) after

theorem runs_of_permits {choices : List Choice} {result : Option α} {last : World}
    (permits : machine.Permits allowed choices program world)
    (played : machine.play choices program world = some (result, last)) :
    machine.Runs allowed program world result last := by
  induction choices generalizing program world with
  | nil =>
    cases program with
    | pure value => cases played; exact .returned value _
    | request op next => cases played; exact .stopped _ _
  | cons choice rest ih =>
    cases program with
    | pure value => cases played
    | request op next =>
      obtain ⟨⟨reply, after⟩, served, played⟩ := Option.bind_eq_some_iff.mp played
      obtain ⟨permitted, permits⟩ := permits
      rw [served] at permits
      exact .served permitted served (ih permits played)

theorem runs_of_served {choices : List Choice} {result : Option α} {last : World}
    (permitted : ∀ choice ∈ choices, ∀ op world reply after,
      machine.exec () op choice world = some (reply, after) → allowed op choice world)
    (played : machine.play choices program world = some (result, last)) :
    machine.Runs allowed program world result last := by
  induction choices generalizing program world with
  | nil =>
    cases program with
    | pure value => cases played; exact .returned value _
    | request op next => cases played; exact .stopped _ _
  | cons choice rest ih =>
    cases program with
    | pure value => cases played
    | request op next =>
      obtain ⟨⟨reply, after⟩, served, played⟩ := Option.bind_eq_some_iff.mp played
      obtain ⟨first, others⟩ := List.forall_mem_cons.mp permitted
      exact .served (first op world reply after served) served (ih others played)

theorem runs_of_play {choices : List Choice} {result : Option α} {last : World}
    (permitted : ∀ choice ∈ choices, ∀ op world, allowed op choice world)
    (played : machine.play choices program world = some (result, last)) :
    machine.Runs allowed program world result last :=
  runs_of_served (fun choice member op world _ _ _ => permitted choice member op world) played

theorem Runs.widen {wider : Op → Choice → World → Prop} {result : Option α} {last : World}
    (widens : ∀ op choice world, allowed op choice world → wider op choice world)
    (ran : machine.Runs allowed program world result last) : machine.Runs wider program world result last := by
  induction ran with
  | stopped program world => exact .stopped program world
  | returned value world => exact .returned value world
  | served permitted served _ ih => exact .served (widens _ _ _ permitted) served ih

end Machine

/-! ## Servers -/

/-- Without a state the server has answered and ends. -/
structure Server (machine : Machine Unit Op Reply Choice World) (State Call Answer : Type) where
  boot : Program Op Reply (Option State)
  handle : Call → State → Program Op Reply (Answer × Option State)
  /-- What may be left of the world when the server and everything around it stops. -/
  survives : World → World → Prop

namespace Server

/-- The answers given so far stand with their calls, newest first. -/
structure Config (World State Call Answer : Type) where
  world : World
  state : Option State := none
  answered : List (Call × Answer) := []

variable {machine : Machine Unit Op Reply Choice World} {State Call Answer : Type}
  (server : Server machine State Call Answer) (allowed : Op → Choice → World → Prop)

/-- One step of a run in which only some calls are made. -/
inductive Step (made : Call → Prop) : Config World State Call Answer → Config World State Call Answer → Prop where
  | started {world last : World} {state : Option State} {answered : List (Call × Answer)}
      (ran : machine.Runs allowed server.boot world (some state) last) :
      Step made ⟨world, none, answered⟩ ⟨last, state, answered⟩
  | bootStopped {world middle left : World} {answered : List (Call × Answer)}
      (ran : machine.Runs allowed server.boot world none middle) (survives : server.survives middle left) :
      Step made ⟨world, none, answered⟩ ⟨left, none, answered⟩
  | handled {world last : World} {state : State} {next : Option State} {call : Call} {answer : Answer}
      {answered : List (Call × Answer)} (asked : made call)
      (ran : machine.Runs allowed (server.handle call state) world (some (answer, next)) last) :
      Step made ⟨world, some state, answered⟩ ⟨last, next, (call, answer) :: answered⟩
  | callStopped {world middle left : World} {state : State} {call : Call} {answered : List (Call × Answer)}
      (asked : made call) (ran : machine.Runs allowed (server.handle call state) world none middle)
      (survives : server.survives middle left) :
      Step made ⟨world, some state, answered⟩ ⟨left, none, answered⟩
  | stopped {world left : World} {state : Option State} {answered : List (Call × Answer)}
      (survives : server.survives world left) :
      Step made ⟨world, state, answered⟩ ⟨left, none, answered⟩

/-- The configurations that runs reach whose every request and call was of these. -/
inductive Reaches (made : Call → Prop) (start : Config World State Call Answer) :
    Config World State Call Answer → Prop where
  | start : Reaches made start start
  | step {before after : Config World State Call Answer} (reached : Reaches made start before)
      (stepped : server.Step allowed made before after) : Reaches made start after

/-- Every configuration that some run reaches. -/
abbrev Reachable (start : Config World State Call Answer) : Config World State Call Answer → Prop :=
  server.Reaches (fun _ _ _ => True) (fun _ => True) start

variable {server allowed} {made : Call → Prop} {start final : Config World State Call Answer}

theorem Reaches.widen {wider : Op → Choice → World → Prop}
    (widens : ∀ op choice world, allowed op choice world → wider op choice world)
    (reached : server.Reaches allowed made start final) : server.Reaches wider made start final := by
  induction reached with
  | start => exact .start
  | step _ stepped ih =>
    refine .step ih ?_
    cases stepped with
    | started ran => exact .started (ran.widen widens)
    | bootStopped ran survives => exact .bootStopped (ran.widen widens) survives
    | handled asked ran => exact .handled asked (ran.widen widens)
    | callStopped asked ran survives => exact .callStopped asked (ran.widen widens) survives
    | stopped survives => exact .stopped survives

/-- The run rule: what booting, every call and every stop keep holds throughout. -/
theorem Reaches.invariant (holds : Option State → World → List (Call × Answer) → Prop)
    (boots : ∀ world answered, holds none world answered →
      machine.Upholds allowed (fun middle => ∀ left, server.survives middle left → holds none left answered)
        (fun state last => holds state last answered) server.boot world)
    (handles : ∀ call state world answered, made call → holds (some state) world answered →
      machine.Upholds allowed (fun middle => ∀ left, server.survives middle left → holds none left answered)
        (fun result last => holds result.2 last ((call, result.1) :: answered)) (server.handle call state) world)
    (stops : ∀ state world left answered, holds state world answered → server.survives world left →
      holds none left answered)
    (initially : holds start.state start.world start.answered)
    (reached : server.Reaches allowed made start final) : holds final.state final.world final.answered := by
  induction reached with
  | start => exact initially
  | step _ stepped ih =>
    cases stepped with
    | started ran => exact ((boots _ _ ih).runs ran).2 _ rfl
    | bootStopped ran survives => exact ((boots _ _ ih).runs ran).1 _ survives
    | handled asked ran => exact ((handles _ _ _ _ asked ih).runs ran).2 _ rfl
    | callStopped asked ran survives => exact ((handles _ _ _ _ asked ih).runs ran).1 _ survives
    | stopped survives => exact stops _ _ _ _ ih survives

end Server

end Concurrency
