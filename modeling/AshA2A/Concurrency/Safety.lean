import AshA2A.Concurrency.Program

/-! Assertions for interleaved processes. A discipline fixes what holds of the shared
world between requests and what justifies each request; every process is then verified
on its own, against any other processes that keep to the discipline. -/

namespace Concurrency

variable {Pid Op : Type} {Reply : Op → Type} {Choice World Ghost α β : Type}

/-- The ghost state is the proof's own: each justified request may move it. That justified
requests keep the discipline valid is part of being one. -/
structure Discipline (machine : Machine Pid Op Reply Choice World) (Ghost : Type) where
  allowed : Pid → Op → Choice → Shared Pid Op Reply World → Prop
  valid : Shared Pid Op Reply World → Ghost → Prop
  justified : Pid → (op : Op) → Reply op → Shared Pid Op Reply World → Ghost → Ghost → Prop
  keeps : ∀ {pid op choice reply shared world before after}, valid shared before →
    allowed pid op choice shared → justified pid op reply shared before after →
    machine.exec pid op choice shared.world = some (reply, world) →
    valid (shared.after pid op reply world) after

namespace Discipline

variable {machine : Machine Pid Op Reply Choice World} (discipline : Discipline machine Ghost)

/-- What one request of `pid` may do to the others. -/
inductive Moves (pid : Pid) (shared : Shared Pid Op Reply World) (before : Ghost) :
    Shared Pid Op Reply World → Ghost → Prop where
  | served {op : Op} {choice : Choice} {reply : Reply op} {world : World} {after : Ghost}
      (valid : discipline.valid shared before)
      (permitted : discipline.allowed pid op choice shared)
      (justified : discipline.justified pid op reply shared before after)
      (served : machine.exec pid op choice shared.world = some (reply, world)) :
      Moves pid shared before (shared.after pid op reply world) after

/-- No request of another process can falsify the assertion. -/
def Stable (pid : Pid) (assertion : Shared Pid Op Reply World → Ghost → Prop) : Prop :=
  ∀ ⦃other shared before after final⦄, other ≠ pid →
    discipline.Moves other shared before after final → assertion shared before → assertion after final

/-- From here on, whatever the other processes do, each request of this program is justified
when it is served, and its result satisfies the postcondition. -/
def Safe (pid : Pid) (post : α → Shared Pid Op Reply World → Ghost → Prop) :
    Program Op Reply α → Shared Pid Op Reply World → Ghost → Prop
  | .pure value, shared, ghost =>
    ∃ assertion, discipline.Stable pid assertion ∧ assertion shared ghost ∧
      ∀ shared ghost, discipline.valid shared ghost → assertion shared ghost → post value shared ghost
  | .request op next, shared, ghost =>
    ∃ assertion, discipline.Stable pid assertion ∧ assertion shared ghost ∧
      ∀ shared before, discipline.valid shared before → assertion shared before →
        ∀ choice reply world, discipline.allowed pid op choice shared →
          machine.exec pid op choice shared.world = some (reply, world) →
          ∃ after, discipline.justified pid op reply shared before after ∧
            Safe pid post (next reply) (shared.after pid op reply world) after

/-- No justified request at all can falsify the assertion. -/
def Lasting (assertion : Shared Pid Op Reply World → Ghost → Prop) : Prop :=
  ∀ ⦃pid shared before after final⦄,
    discipline.Moves pid shared before after final → assertion shared before → assertion after final

variable {discipline} {pid : Pid} {post : α → Shared Pid Op Reply World → Ghost → Prop}
  {shared : Shared Pid Op Reply World} {ghost : Ghost}

theorem Lasting.stable {assertion : Shared Pid Op Reply World → Ghost → Prop}
    (lasting : discipline.Lasting assertion) : discipline.Stable pid assertion :=
  fun _ _ _ _ _ _ moves holds => lasting moves holds

theorem Lasting.and {first second : Shared Pid Op Reply World → Ghost → Prop}
    (left : discipline.Lasting first) (right : discipline.Lasting second) :
    discipline.Lasting fun shared ghost => first shared ghost ∧ second shared ghost :=
  fun _ _ _ _ _ moves ⟨one, two⟩ => ⟨left moves one, right moves two⟩

theorem Stable.and {first second : Shared Pid Op Reply World → Ghost → Prop}
    (left : discipline.Stable pid first) (right : discipline.Stable pid second) :
    discipline.Stable pid fun shared ghost => first shared ghost ∧ second shared ghost :=
  fun _ _ _ _ _ other moves ⟨one, two⟩ => ⟨left other moves one, right other moves two⟩

theorem Stable.forall {ι : Sort*} {family : ι → Shared Pid Op Reply World → Ghost → Prop}
    (each : ∀ index, discipline.Stable pid (family index)) :
    discipline.Stable pid fun shared ghost => ∀ index, family index shared ghost :=
  fun _ _ _ _ _ other moves holds index => each index other moves (holds index)

theorem Stable.true : discipline.Stable pid fun _ _ => True := fun _ _ _ _ _ _ _ _ => trivial

/-- Facts about what has happened survive everything that happens later. -/
theorem Stable.happened (event : Event Pid Op Reply) :
    discipline.Stable pid fun shared _ => event ∈ shared.trace := by
  intro other shared before after final _ moves member
  cases moves
  exact List.mem_cons_of_mem _ member

theorem Safe.interfere {program : Program Op Reply α} {other : Pid}
    {after : Shared Pid Op Reply World} {final : Ghost}
    (safe : discipline.Safe pid post program shared ghost) (different : other ≠ pid)
    (moves : discipline.Moves other shared ghost after final) :
    discipline.Safe pid post program after final := by
  cases program with
  | pure value =>
    obtain ⟨assertion, stable, holds, done⟩ := safe
    exact ⟨assertion, stable, stable different moves holds, done⟩
  | request op next =>
    obtain ⟨assertion, stable, holds, serve⟩ := safe
    exact ⟨assertion, stable, stable different moves holds, serve⟩

theorem Safe.pure {value : α} (assertion : Shared Pid Op Reply World → Ghost → Prop)
    (stable : discipline.Stable pid assertion) (holds : assertion shared ghost)
    (done : ∀ shared ghost, discipline.valid shared ghost → assertion shared ghost →
      post value shared ghost) :
    discipline.Safe pid post (.pure value) shared ghost := ⟨assertion, stable, holds, done⟩

theorem Safe.request {op : Op} {next : Reply op → Program Op Reply α}
    (assertion : Shared Pid Op Reply World → Ghost → Prop)
    (stable : discipline.Stable pid assertion) (holds : assertion shared ghost)
    (serve : ∀ shared before, discipline.valid shared before → assertion shared before →
      ∀ choice reply world, discipline.allowed pid op choice shared →
        machine.exec pid op choice shared.world = some (reply, world) →
        ∃ after, discipline.justified pid op reply shared before after ∧
          discipline.Safe pid post (next reply) (shared.after pid op reply world) after) :
    discipline.Safe pid post (.request op next) shared ghost := ⟨assertion, stable, holds, serve⟩

theorem Safe.weaken {program : Program Op Reply α}
    {other : α → Shared Pid Op Reply World → Ghost → Prop}
    (safe : discipline.Safe pid post program shared ghost)
    (implies : ∀ value shared ghost, discipline.valid shared ghost → post value shared ghost →
      other value shared ghost) :
    discipline.Safe pid other program shared ghost := by
  induction program generalizing shared ghost with
  | pure value =>
    obtain ⟨assertion, stable, holds, done⟩ := safe
    exact ⟨assertion, stable, holds, fun shared ghost valid held =>
      implies value shared ghost valid (done shared ghost valid held)⟩
  | request op next ih =>
    obtain ⟨assertion, stable, holds, serve⟩ := safe
    refine ⟨assertion, stable, holds, ?_⟩
    intro shared before valid held choice reply world permitted served
    obtain ⟨after, justified, rest⟩ := serve shared before valid held choice reply world permitted served
    exact ⟨after, justified, ih reply rest⟩

/-- Sequencing: the second program starts in any state the first one may leave. -/
theorem Safe.bind {program : Program Op Reply α} {next : α → Program Op Reply β}
    {final : β → Shared Pid Op Reply World → Ghost → Prop}
    (valid : discipline.valid shared ghost)
    (safe : discipline.Safe pid post program shared ghost)
    (rest : ∀ value shared ghost, discipline.valid shared ghost → post value shared ghost →
      discipline.Safe pid final (next value) shared ghost) :
    discipline.Safe pid final (program >>= next) shared ghost := by
  induction program generalizing shared ghost with
  | pure value =>
    obtain ⟨assertion, _, holds, done⟩ := safe
    exact rest value shared ghost valid (done shared ghost valid holds)
  | request op continuation ih =>
    obtain ⟨assertion, stable, holds, serve⟩ := safe
    refine ⟨assertion, stable, holds, ?_⟩
    intro shared before valid held choice reply world permitted served
    obtain ⟨after, justified, remaining⟩ :=
      serve shared before valid held choice reply world permitted served
    exact ⟨after, justified, ih reply (discipline.keeps valid permitted justified served) remaining⟩

/-- One request on its own. -/
theorem Safe.ask {op : Op} {reply : Reply op → Shared Pid Op Reply World → Ghost → Prop}
    (assertion : Shared Pid Op Reply World → Ghost → Prop)
    (stable : discipline.Stable pid assertion) (holds : assertion shared ghost)
    (kept : ∀ answer, discipline.Stable pid (reply answer))
    (serve : ∀ shared before, discipline.valid shared before → assertion shared before →
      ∀ choice answer world, discipline.allowed pid op choice shared →
        machine.exec pid op choice shared.world = some (answer, world) →
        ∃ after, discipline.justified pid op answer shared before after ∧
          reply answer (shared.after pid op answer world) after) :
    discipline.Safe pid reply (Program.ask op) shared ghost := by
  refine .request assertion stable holds ?_
  intro shared before valid held choice answer world permitted served
  obtain ⟨after, justified, holds⟩ := serve shared before valid held choice answer world permitted served
  exact ⟨after, justified, .pure _ (kept answer) holds fun _ _ _ holds => holds⟩

/-- The frame rule: what lasts holds throughout. -/
theorem Safe.frame {program : Program Op Reply α} {frame : Shared Pid Op Reply World → Ghost → Prop}
    (lasting : discipline.Lasting frame) (framed : frame shared ghost)
    (safe : discipline.Safe pid post program shared ghost) :
    discipline.Safe pid (fun value shared ghost => post value shared ghost ∧ frame shared ghost)
      program shared ghost := by
  induction program generalizing shared ghost with
  | pure value =>
    obtain ⟨assertion, stable, holds, done⟩ := safe
    exact ⟨_, stable.and lasting.stable, ⟨holds, framed⟩, fun shared ghost valid held =>
      ⟨done shared ghost valid held.1, held.2⟩⟩
  | request op next ih =>
    obtain ⟨assertion, stable, holds, serve⟩ := safe
    refine ⟨_, stable.and lasting.stable, ⟨holds, framed⟩, ?_⟩
    intro shared before valid ⟨held, framed⟩ choice reply world permitted served
    obtain ⟨after, justified, rest⟩ := serve shared before valid held choice reply world permitted served
    exact ⟨after, justified, ih reply (lasting (.served valid permitted justified served) framed) rest⟩

/-- Only a request of `pid` that moves the ghost state can falsify the assertion. -/
def Framed (discipline : Discipline machine Ghost) (pid : Pid)
    (assertion : Shared Pid Op Reply World → Ghost → Prop) : Prop :=
  ∀ ⦃other shared before after final⦄, discipline.Moves other shared before after final →
    (other = pid → final = before) → assertion shared before → assertion after final

theorem Framed.stable {assertion : Shared Pid Op Reply World → Ghost → Prop}
    (framed : discipline.Framed pid assertion) : discipline.Stable pid assertion :=
  fun _ _ _ _ _ different moves holds => framed moves (fun same => absurd same different) holds

theorem Framed.and {first second : Shared Pid Op Reply World → Ghost → Prop}
    (left : discipline.Framed pid first) (right : discipline.Framed pid second) :
    discipline.Framed pid fun shared ghost => first shared ghost ∧ second shared ghost :=
  fun _ _ _ _ _ moves own ⟨one, two⟩ => ⟨left moves own one, right moves own two⟩

theorem Lasting.framed {assertion : Shared Pid Op Reply World → Ghost → Prop}
    (lasting : discipline.Lasting assertion) : discipline.Framed pid assertion :=
  fun _ _ _ _ _ moves _ holds => lasting moves holds

theorem Framed.const {fact : Prop} : discipline.Framed pid fun _ _ => fact :=
  fun _ _ _ _ _ _ _ holds => holds

/-- One request that leaves the ghost state as it is. -/
theorem Safe.askFramed {op : Op} {frame : Shared Pid Op Reply World → Ghost → Prop}
    {fact : Reply op → Shared Pid Op Reply World → Ghost → Prop}
    (framed : discipline.Framed pid frame) (facts : ∀ answer, discipline.Framed pid (fact answer))
    (holds : frame shared ghost)
    (serve : ∀ shared ghost, discipline.valid shared ghost → frame shared ghost →
      ∀ choice answer world, discipline.allowed pid op choice shared →
        machine.exec pid op choice shared.world = some (answer, world) →
        discipline.justified pid op answer shared ghost ghost ∧
          fact answer (shared.after pid op answer world) ghost) :
    discipline.Safe pid (fun answer shared ghost => frame shared ghost ∧ fact answer shared ghost)
      (Program.ask op) shared ghost := by
  refine .ask frame framed.stable holds (fun answer => (framed.and (facts answer)).stable) ?_
  intro shared before valid held choice answer world permitted served
  obtain ⟨justified, established⟩ := serve shared before valid held choice answer world permitted served
  exact ⟨before, justified,
    framed (.served valid permitted justified served) (fun _ => rfl) held, established⟩

/-- A program all of whose requests are justified whatever the state. -/
theorem Safe.quiet {program : Program Op Reply α} {frame : Shared Pid Op Reply World → Ghost → Prop}
    {quiet : Op → Prop} (uses : program.Uses quiet)
    (justified : ∀ op reply shared ghost, quiet op → discipline.justified pid op reply shared ghost ghost)
    (framed : discipline.Framed pid frame) (holds : frame shared ghost) :
    discipline.Safe pid (fun _ => frame) program shared ghost := by
  induction program generalizing shared ghost with
  | pure value => exact .pure frame framed.stable holds fun _ _ _ holds => holds
  | request op next ih =>
    refine .request frame framed.stable holds ?_
    intro shared before valid held choice reply world permitted served
    have step := justified op reply shared before uses.1
    exact ⟨before, step, ih reply (uses.2 reply)
      (framed (.served valid permitted step served) (fun _ => rfl) held)⟩

/-- A configuration all of whose processes are verified. -/
structure Verified (discipline : Discipline machine Ghost)
    (post : Pid → α → Shared Pid Op Reply World → Ghost → Prop)
    (config : Config Pid Op Reply World α) (ghost : Ghost) : Prop where
  valid : discipline.valid config.shared ghost
  safe : ∀ pid, discipline.Safe pid (post pid) (config.procs pid) config.shared ghost

variable [DecidableEq Pid]

theorem Verified.step {posts : Pid → α → Shared Pid Op Reply World → Ghost → Prop}
    {config : Config Pid Op Reply World α} (verified : discipline.Verified posts config ghost)
    {op : Op} {next : Reply op → Program Op Reply α} {choice : Choice} {reply : Reply op}
    {world : World} (asked : config.procs pid = .request op next)
    (permitted : discipline.allowed pid op choice config.shared)
    (served : machine.exec pid op choice config.shared.world = some (reply, world)) :
    ∃ after, discipline.justified pid op reply config.shared ghost after ∧
      discipline.Verified posts
        ⟨config.shared.after pid op reply world, Function.update config.procs pid (next reply)⟩ after := by
  have own := verified.safe pid
  rw [asked] at own
  obtain ⟨assertion, stable, holds, serve⟩ := own
  obtain ⟨after, justified, rest⟩ :=
    serve _ _ verified.valid holds choice reply world permitted served
  refine ⟨after, justified, discipline.keeps verified.valid permitted justified served, ?_⟩
  intro other
  by_cases same : other = pid
  · subst same
    simpa using rest
  · simpa only [Function.update_of_ne same] using
      (verified.safe other).interfere (Ne.symm same) (.served verified.valid permitted justified served)

/-- The run rule: a verified configuration stays verified along every allowed run. -/
theorem Verified.reaches {posts : Pid → α → Shared Pid Op Reply World → Ghost → Prop}
    {start final : Config Pid Op Reply World α} (verified : discipline.Verified posts start ghost)
    (reached : machine.Reaches discipline.allowed start final) :
    ∃ ghost, discipline.Verified posts final ghost := by
  induction reached with
  | start => exact ⟨ghost, verified⟩
  | step _ asked permitted served ih =>
    obtain ⟨current, kept⟩ := ih
    obtain ⟨after, _, next⟩ := kept.step asked permitted served
    exact ⟨after, next⟩

end Discipline

/-- A discipline strengthened by a condition on the steps considered and by an invariant
that justified steps under this condition keep. -/
def Discipline.restrict {machine : Machine Pid Op Reply Choice World}
    (discipline : Discipline machine Ghost)
    (allowed : Pid → Op → Choice → Shared Pid Op Reply World → Prop)
    (invariant : Shared Pid Op Reply World → Ghost → Prop)
    (keeps : ∀ {pid op choice reply shared world before after}, discipline.valid shared before →
      invariant shared before → discipline.allowed pid op choice shared → allowed pid op choice shared →
      discipline.justified pid op reply shared before after →
      machine.exec pid op choice shared.world = some (reply, world) →
      discipline.valid (shared.after pid op reply world) after →
      invariant (shared.after pid op reply world) after) : Discipline machine Ghost where
  allowed pid op choice shared := discipline.allowed pid op choice shared ∧ allowed pid op choice shared
  valid shared ghost := discipline.valid shared ghost ∧ invariant shared ghost
  justified := discipline.justified
  keeps valid permitted justified served :=
    have kept := discipline.keeps valid.1 permitted.1 justified served
    ⟨kept, keeps valid.1 valid.2 permitted.1 permitted.2 justified served kept⟩

namespace Discipline

variable {machine : Machine Pid Op Reply Choice World} {discipline : Discipline machine Ghost}
  {condition : Pid → Op → Choice → Shared Pid Op Reply World → Prop}
  {invariant : Shared Pid Op Reply World → Ghost → Prop} {keeps}

theorem Moves.unrestrict {pid : Pid} {shared after : Shared Pid Op Reply World} {before final : Ghost}
    (moves : (discipline.restrict condition invariant keeps).Moves pid shared before after final) :
    discipline.Moves pid shared before after final := by
  cases moves with
  | served valid permitted justified served => exact .served valid.1 permitted.1 justified served

/-- What was verified without the condition holds under it. -/
theorem Safe.restrict {pid : Pid} {post : α → Shared Pid Op Reply World → Ghost → Prop}
    {program : Program Op Reply α} {shared : Shared Pid Op Reply World} {ghost : Ghost}
    (safe : discipline.Safe pid post program shared ghost) :
    (discipline.restrict condition invariant keeps).Safe pid post program shared ghost := by
  induction program generalizing shared ghost with
  | pure value =>
    obtain ⟨assertion, stable, holds, done⟩ := safe
    exact ⟨assertion, fun _ _ _ _ _ other moves => stable other moves.unrestrict, holds,
      fun shared ghost valid held => done shared ghost valid.1 held⟩
  | request op next ih =>
    obtain ⟨assertion, stable, holds, serve⟩ := safe
    refine ⟨assertion, fun _ _ _ _ _ other moves => stable other moves.unrestrict, holds, ?_⟩
    intro shared before valid held choice reply world permitted served
    obtain ⟨after, justified, rest⟩ :=
      serve shared before valid.1 held choice reply world permitted.1 served
    exact ⟨after, justified, ih reply rest⟩

theorem Verified.restrict {posts : Pid → α → Shared Pid Op Reply World → Ghost → Prop}
    {config : Config Pid Op Reply World α} {ghost : Ghost}
    (verified : discipline.Verified posts config ghost) (holds : invariant config.shared ghost) :
    (discipline.restrict condition invariant keeps).Verified posts config ghost :=
  ⟨⟨verified.valid, holds⟩, fun pid => (verified.safe pid).restrict⟩

end Discipline

end Concurrency

/-! A program that runs to its end with nobody else around. The policy says what each
request meets. -/

namespace Concurrency.Machine

variable {Pid Op Choice World : Type} {Reply : Op → Type} {α β : Type}
  (machine : Machine Pid Op Reply Choice World) (pid : Pid) (policy : Op → Choice)

/-- The result and the world it leaves, unless some request cannot be served. -/
def alone : Program Op Reply α → World → Option (α × World)
  | .pure value, world => some (value, world)
  | .request op next, world =>
    (machine.exec pid op (policy op) world).bind fun (reply, world) => alone (next reply) world

/-- The program comes to its end, and this holds there. -/
def Ends (program : Program Op Reply α) (world : World) (post : α → World → Prop) : Prop :=
  ∃ value last, machine.alone pid policy program world = some (value, last) ∧ post value last

variable {machine pid policy} {program : Program Op Reply α} {world : World}

@[simp] theorem alone_pure (value : α) :
    machine.alone pid policy (Pure.pure value : Program Op Reply α) world = some (value, world) := rfl

theorem alone_bind (next : α → Program Op Reply β) :
    machine.alone pid policy (program >>= next) world =
      (machine.alone pid policy program world).bind fun (value, last) =>
        machine.alone pid policy (next value) last := by
  induction program generalizing world with
  | pure value => rfl
  | request op continuation ih =>
    simp only [Program.request_bind, alone, Option.bind_assoc]
    exact congrArg _ (funext fun _ => ih _)

theorem Ends.pure {value : α} {post : α → World → Prop} (holds : post value world) :
    machine.Ends pid policy (Pure.pure value) world post := ⟨value, world, rfl, holds⟩

theorem Ends.ask {op : Op} {reply : Reply op} {after : World} {post : Reply op → World → Prop}
    (served : machine.exec pid op (policy op) world = some (reply, after)) (holds : post reply after) :
    machine.Ends pid policy (Program.ask op) world post :=
  ⟨reply, after, by simp [Program.ask, alone, served], holds⟩

theorem Ends.bind {next : α → Program Op Reply β} {post : α → World → Prop} {final : β → World → Prop}
    (ends : machine.Ends pid policy program world post)
    (rest : ∀ value last, post value last → machine.Ends pid policy (next value) last final) :
    machine.Ends pid policy (program >>= next) world final := by
  obtain ⟨value, last, ran, holds⟩ := ends
  obtain ⟨result, final, continued, done⟩ := rest value last holds
  exact ⟨result, final, by rw [alone_bind, ran]; exact continued, done⟩

theorem Ends.weaken {post other : α → World → Prop} (ends : machine.Ends pid policy program world post)
    (implies : ∀ value last, post value last → other value last) :
    machine.Ends pid policy program world other := by
  obtain ⟨value, last, ran, holds⟩ := ends
  exact ⟨value, last, ran, implies value last holds⟩

/-- There is one result only. -/
theorem Ends.elim {post : α → World → Prop} {value : α} {last : World}
    (ends : machine.Ends pid policy program world post)
    (ran : machine.alone pid policy program world = some (value, last)) : post value last := by
  obtain ⟨_, _, same, holds⟩ := ends
  obtain ⟨rfl, rfl⟩ := Prod.ext_iff.mp (Option.some.inj (ran.symm.trans same))
  exact holds

end Concurrency.Machine
