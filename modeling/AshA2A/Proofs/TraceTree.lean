import AshA2A.Trace.Recorder

/-! When the records of a task form a tree. -/

namespace AshA2A.Trace.Recorder

/-! ## Trees of records -/

/-- Each span is closed after what it holds, its parent is the innermost span that is open where it starts, and an event
belongs to that span as well. -/
inductive Nested : SpanKey → List Record → Prop where
  | nil {parent : SpanKey} : Nested parent []
  | event {parent : SpanKey} {name : String} {time : Instant} {attrs : Attrs} {rest : List Record} (later : Nested parent rest) :
      Nested parent (.event (some parent) name time attrs :: rest)
  | span {parent key : SpanKey} {name : String} {begun ended : Instant} {attrs closing : Attrs} {status : Status}
      {inner rest : List Record} (within : Nested key inner) (later : Nested parent rest) :
      Nested parent (.opened key name (some parent) begun attrs :: (inner ++ .closed key ended closing status :: rest))

def Record.opens : Record → Option SpanKey
  | .opened key .. => some key
  | _ => none

def Record.mono : Record → Nat
  | .opened _ _ _ time _ | .closed _ time _ _ | .event _ _ time _ => time.mono

def keys (records : List Record) : List SpanKey := records.filterMap Record.opens

/-- There is one root, and no span is opened twice. -/
structure Tree (records : List Record) : Prop where
  rooted : records = [] ∨ ∃ key name begun attrs inner ended closing status, Nested key inner ∧
    records = .opened key name none begun attrs :: (inner ++ [.closed key ended closing status])
  once : (keys records).Nodup

/-- The event at this count is in a message span of the task. -/
inductive Within (task : String) : Work → Nat → Prop where
  | message {attrs closing : Attrs} {inner rest : Work} {suffix : Suffix} {place : Nat} (less : place < inner.events.length + 2) :
      Within task (.span (.message (some task)) attrs inner suffix closing rest) place
  | inside {kind : Kind} {attrs ended : Attrs} {inner rest : Work} {suffix : Suffix} {place : Nat} (within : Within task inner place) :
      Within task (.span kind attrs inner suffix ended rest) (place + 1)
  | afterBoundary {name : String} {attrs : Attrs} {rest : Work} {place : Nat} (within : Within task rest place) :
      Within task (.boundary name attrs rest) (place + 1)
  | afterSpan {kind : Kind} {attrs ended : Attrs} {inner rest : Work} {suffix : Suffix} {place : Nat} (within : Within task rest place) :
      Within task (.span kind attrs inner suffix ended rest) (place + (inner.events.length + (closing kind suffix ended).length + 1))

/-- The records of every task form a tree, and all of them were written in its message span. -/
def Traced (clock : Nat → Int) (work : Work) : Prop :=
  ∀ task, Tree ((run clock 0 start work.events).table task) ∧
    ∀ record ∈ (run clock 0 start work.events).table task, Within task work record.mono

/-! ## Work that is traced -/

/-- No message is sent, and no exception unwinds an actuation. -/
inductive Calm : Work → Prop where
  | done : Calm .done
  | boundary {name : String} {attrs : Attrs} {rest : Work} (later : Calm rest) : Calm (.boundary name attrs rest)
  | dispatch {attrs ended : Attrs} {inner rest : Work} {suffix : Suffix} (within : Calm inner) (later : Calm rest) :
      Calm (.span .dispatch attrs inner suffix ended rest)
  | actuate {attrs ended : Attrs} {inner rest : Work} (within : Calm inner) (later : Calm rest) :
      Calm (.span .actuate attrs inner .stop ended rest)

/-- From the first message with a task on, all is calm work in message spans of tasks that were not seen before, or empty spans
of such that were. -/
inductive Quiet : List String → Work → List String → Prop where
  | done {seen : List String} : Quiet seen .done seen
  | boundary {name : String} {attrs : Attrs} {rest : Work} {after : List String} (later : Quiet [] rest after) :
      Quiet [] (.boundary name attrs rest) after
  | idle {kind : Kind} {attrs ended : Attrs} {inner rest : Work} {suffix : Suffix} {middle after : List String}
      (unbound : ∀ task, kind ≠ .message (some task)) (within : Quiet [] inner middle) (later : Quiet middle rest after) :
      Quiet [] (.span kind attrs inner suffix ended rest) after
  | turn {task : String} {attrs ended : Attrs} {inner rest : Work} {suffix : Suffix} {seen after : List String}
      (fresh : task ∉ seen ∨ inner = .done) (within : Calm inner) (later : Quiet (task :: seen) rest after) :
      Quiet seen (.span (.message (some task)) attrs inner suffix ended rest) after

/-! ## Calm work -/

section Calm
variable {clock : Nat → Int} {state next after : State} {task : String} {parent key : SpanKey} {first last : Nat}
  {records : List Record} {events more : List Telemetry}

theorem run_append (mono : Nat) (state : State) (events more : List Telemetry) :
    run clock mono state (events ++ more) = run clock (mono + events.length) (run clock mono state events) more := by
  induction events generalizing mono state with
  | nil => rfl
  | cons event events ih =>
    rw [List.cons_append, run, ih, run, List.length_cons, Nat.add_assoc, Nat.add_comm 1]

def writes (table : Table) (task : String) (records : List Record) : Table :=
  Function.update table task (table task ++ records)

theorem writes_append (table : Table) (task : String) (records more : List Record) :
    writes (writes table task records) task more = writes table task (records ++ more) := by
  simp [writes]

theorem writes_self {table : Table} (empty : table task = []) : writes table task records task = records := by
  simp [writes, empty]

theorem writes_other {table : Table} {other : String} (different : other ≠ task) :
    writes table task records other = table other := Function.update_of_ne different _ _

theorem writes_nil (table : Table) (task : String) : writes table task [] = table := by
  simp [writes]

/-- The number was given between the two states. -/
def Fresh (before after : Process) : SpanKey → Prop
  | .task => False
  | .dispatch number => before.dispatchN < number ∧ number ≤ after.dispatchN
  | .actuation number => before.actuationN < number ∧ number ≤ after.actuationN

structure Counts (before after : Process) : Prop where
  dispatches : before.dispatchN ≤ after.dispatchN
  actuations : before.actuationN ≤ after.actuationN

theorem Counts.trans {first second third : Process} (one : Counts first second) (two : Counts second third) : Counts first third :=
  ⟨Nat.le_trans one.dispatches two.dispatches, Nat.le_trans one.actuations two.actuations⟩

theorem Fresh.mono {before first second after : Process} (fresh : Fresh first second key) (one : Counts before first)
    (two : Counts second after) : Fresh before after key := by
  obtain ⟨_, _⟩ := one
  obtain ⟨_, _⟩ := two
  cases key with
  | task => exact fresh
  | dispatch number => exact ⟨by have := fresh.1; omega, by have := fresh.2; omega⟩
  | actuation number => exact ⟨by have := fresh.1; omega, by have := fresh.2; omega⟩

/-- Numbers that were given one after the other differ. -/
theorem Fresh.apart {before first second after : Process} {other : SpanKey} (one : Fresh before first key)
    (between : Counts first second) (two : Fresh second after other) : key ≠ other := by
  rintro rfl
  obtain ⟨_, _⟩ := between
  cases key with
  | task => exact one
  | dispatch number => have := one.2; have := two.1; omega
  | actuation number => have := one.2; have := two.1; omega

/-- The process is left as it was found, but for the numbers, and the task has got nested records of the meantime. -/
structure Keeps (task : String) (parent : SpanKey) (first last : Nat) (state after : State) (records : List Record) : Prop where
  stack : after.process.stack = state.process.stack
  bound : after.process.task = some task
  counts : Counts state.process after.process
  table : after.table = writes state.table task records
  nested : Nested parent records
  fresh : ∀ key ∈ keys records, Fresh state.process after.process key
  once : (keys records).Nodup
  order : first ≤ last
  during : ∀ record ∈ records, first ≤ record.mono ∧ record.mono < last

theorem Keeps.nil (bound : state.process.task = some task) : Keeps task parent first first state state [] where
  stack := rfl
  bound := bound
  counts := ⟨Nat.le_refl _, Nat.le_refl _⟩
  table := (writes_nil _ _).symm
  nested := .nil
  fresh _ member := absurd member List.not_mem_nil
  once := List.nodup_nil
  order := Nat.le_refl _
  during _ member := absurd member List.not_mem_nil

theorem Keeps.event {name : String} {sys : Int} {attrs : Attrs} (process : next.process = state.process)
    (table : next.table = writes state.table task [.event (some parent) name ⟨first, sys⟩ attrs])
    (keeps : Keeps task parent (first + 1) last next after records) :
    Keeps task parent first last state after (.event (some parent) name ⟨first, sys⟩ attrs :: records) where
  stack := keeps.stack.trans (congrArg Process.stack process)
  bound := keeps.bound
  counts := process ▸ keeps.counts
  table := by rw [keeps.table, table, writes_append, List.singleton_append]
  nested := .event keeps.nested
  fresh := process ▸ keeps.fresh
  once := keeps.once
  order := Nat.le_of_succ_le keeps.order
  during record member := by
    have order := keeps.order
    rcases List.mem_cons.mp member with rfl | later
    · exact ⟨Nat.le_refl _, order⟩
    · exact ⟨Nat.le_of_succ_le (keeps.during record later).1, (keeps.during record later).2⟩

theorem Counts.refl (process : Process) : Counts process process := ⟨Nat.le_refl _, Nat.le_refl _⟩

theorem keys_span {name : String} {begun ended : Instant} {attrs closing : Attrs} {status : Status} {within later : List Record} :
    keys (.opened key name (some parent) begun attrs :: (within ++ .closed key ended closing status :: later)) =
      key :: (keys within ++ keys later) := by
  show key :: List.filterMap Record.opens (within ++ _) = _
  rw [List.filterMap_append]
  rfl

section Closed
variable {ended closed : State} {stack : List Entry} {table : Table} (keeps : Keeps task parent first last closed after records)
  (closes : closed = ⟨{ ended.process with stack := stack }, table⟩)
include keeps closes

theorem Keeps.counts_of_closed : Counts ended.process after.process := by
  have later := keeps.counts
  rw [closes] at later
  exact ⟨later.dispatches, later.actuations⟩

theorem Keeps.fresh_of_closed (member : key ∈ keys records) : Fresh ended.process after.process key := by
  have later := keeps.fresh key member
  rw [closes] at later
  cases key <;> exact later

end Closed

theorem Keeps.span {state begun ended closed after : State} {middle : Nat} {within later : List Record} {name : String}
    {sys tick : Int} {attrs closing : Attrs} {status : Status}
    (stack : begun.process.stack = ⟨key, some task, false⟩ :: state.process.stack) (counts : Counts state.process begun.process)
    (fresh : Fresh state.process begun.process key)
    (opened : begun.table = writes state.table task [.opened key name (some parent) ⟨first, sys⟩ attrs])
    (inner : Keeps task key (first + 1) middle begun ended within)
    (closes : closed = ⟨{ ended.process with stack := state.process.stack },
      writes ended.table task [.closed key ⟨middle, tick⟩ closing status]⟩)
    (rest : Keeps task parent (middle + 1) last closed after later) :
    Keeps task parent first last state after
      (.opened key name (some parent) ⟨first, sys⟩ attrs :: (within ++ .closed key ⟨middle, tick⟩ closing status :: later)) where
  stack := by rw [rest.stack, closes]
  bound := rest.bound
  counts := (counts.trans inner.counts).trans (rest.counts_of_closed closes)
  table := by
    rw [rest.table, closes, inner.table, opened]
    simp only [writes_append, List.append_assoc, List.cons_append, List.nil_append]
  nested := .span inner.nested rest.nested
  fresh other member := by
    have further := rest.counts_of_closed closes
    rw [keys_span, List.mem_cons, List.mem_append] at member
    rcases member with rfl | within | later
    · exact fresh.mono (.refl _) (inner.counts.trans further)
    · exact (inner.fresh other within).mono counts further
    · exact (rest.fresh_of_closed closes later).mono (counts.trans inner.counts) (.refl _)
  once := by
    have further := rest.counts_of_closed closes
    rw [keys_span]
    refine List.nodup_cons.mpr ⟨fun again => ?_, List.nodup_append.mpr ⟨inner.once, rest.once, fun one within other later => ?_⟩⟩
    · rcases List.mem_append.mp again with within | later
      · exact fresh.apart (.refl _) (inner.fresh key within) rfl
      · exact fresh.apart inner.counts (rest.fresh_of_closed closes later) rfl
    · exact (inner.fresh one within).apart (.refl _) (rest.fresh_of_closed closes later)
  order := by
    have one := inner.order
    have two := rest.order
    omega
  during record member := by
    have one := inner.order
    have two := rest.order
    rcases List.mem_cons.mp member with rfl | member
    · exact ⟨Nat.le_refl _, by show first < last; omega⟩
    rcases List.mem_append.mp member with member | member
    · have := inner.during record member
      omega
    rcases List.mem_cons.mp member with rfl | member
    · exact ⟨by show first ≤ middle; omega, by show middle < last; omega⟩
    · have := rest.during record member
      omega

/-! ### What a handler does in a process with an open span -/

section Handlers
variable {top : Entry} {rest : List Entry} {now : Instant} {attrs : Attrs} {number : Nat} {suffix : Suffix}

theorem boundary_eq {name : String} (bound : state.process.task = some task) (stack : state.process.stack = top :: rest) :
    boundary now name attrs state = ⟨state.process, writes state.table task [.event (some top.key) name now attrs]⟩ := by
  simp only [boundary, State.boundTask, bound, State.innermostSpanKey, stack]
  rfl

theorem dispatchStart_eq (bound : state.process.task = some task) (stack : state.process.stack = top :: rest) :
    dispatchStart now attrs state =
      ⟨{ state.process with
          stack := ⟨.dispatch (state.process.dispatchN + 1), some task, false⟩ :: state.process.stack
          dispatchN := state.process.dispatchN + 1 },
        writes state.table task [.opened (.dispatch (state.process.dispatchN + 1)) "a2a.dispatch" (some top.key) now attrs]⟩ := by
  simp only [dispatchStart, State.boundTask, bound, State.innermostSpanKey, stack, entry]
  rfl

theorem actuateStart_eq (bound : state.process.task = some task) (stack : state.process.stack = top :: rest) :
    actuateStart now attrs state =
      ⟨{ state.process with
          stack := ⟨.actuation (state.process.actuationN + 1), some task, false⟩ :: state.process.stack
          actuationN := state.process.actuationN + 1 },
        writes state.table task [.opened (.actuation (state.process.actuationN + 1)) "a2a.actuation" (some top.key) now attrs]⟩ := by
  simp only [actuateStart, State.boundTask, bound, State.innermostSpanKey, stack, entry]
  rfl

theorem dispatchEnd_eq (stack : state.process.stack = ⟨.dispatch number, some task, false⟩ :: rest) :
    dispatchEnd now suffix attrs state = ⟨{ state.process with stack := rest },
      writes state.table task [.closed (.dispatch number) now attrs (status suffix)]⟩ := by
  simp only [dispatchEnd, State.pop, stack]
  rfl

theorem actuateStop_eq (stack : state.process.stack = ⟨.actuation number, some task, false⟩ :: rest) :
    actuateStop now attrs state = ⟨{ state.process with stack := rest },
      writes state.table task [.closed (.actuation number) now attrs .ok]⟩ := by
  simp only [actuateStop, State.pop, stack]
  rfl

end Handlers

/-- What a span needs so that it is recorded whole. -/
structure Spans (task : String) (parent key : SpanKey) (name : String) (status : Status) (kind : Kind) (attrs ended : Attrs)
    (suffix : Suffix) (now : Instant) (state begun : State) : Prop where
  starts : handleEvent now state (opening kind attrs) = begun
  stack : begun.process.stack = ⟨key, some task, false⟩ :: state.process.stack
  bound : begun.process.task = some task
  counts : Counts state.process begun.process
  fresh : Fresh state.process begun.process key
  opened : begun.table = writes state.table task [.opened key name (some parent) now attrs]
  ends : ∃ event, closing kind suffix ended = [event] ∧ ∀ (later : Instant) (state' : State),
    state'.process.stack = ⟨key, some task, false⟩ :: state.process.stack → handleEvent later state' event =
      ⟨{ state'.process with stack := state.process.stack }, writes state'.table task [.closed key later ended status]⟩

/-- Work inside a process in such a state is recorded under the span that is open. -/
def Recorded (clock : Nat → Int) (task : String) (work : Work) : Prop :=
  ∀ (mono : Nat) (state : State) (top : Entry) (rest : List Entry), state.process.task = some task →
    state.process.stack = top :: rest →
    ∃ records, Keeps task top.key mono (mono + work.events.length) state (run clock mono state work.events) records

theorem Spans.recorded {name : String} {status : Status} {kind : Kind} {attrs ended : Attrs} {suffix : Suffix} {mono : Nat}
    {begun : State} {top : Entry} {below : List Entry} {inner rest : Work}
    (spans : Spans task top.key key name status kind attrs ended suffix ⟨mono, clock mono⟩ state begun)
    (stack : state.process.stack = top :: below) (within : Recorded clock task inner) (later : Recorded clock task rest) :
    ∃ records, Keeps task top.key mono (mono + (Work.span kind attrs inner suffix ended rest).events.length) state
      (run clock mono state (Work.span kind attrs inner suffix ended rest).events) records := by
  obtain ⟨innerRecords, innerKeeps⟩ := within (mono + 1) begun _ _ spans.bound spans.stack
  obtain ⟨event, closing_eq, ends⟩ := spans.ends
  generalize finish : run clock (mono + 1) begun inner.events = finished at innerKeeps
  have closes := ends ⟨mono + 1 + inner.events.length, clock (mono + 1 + inner.events.length)⟩ finished
    (innerKeeps.stack.trans spans.stack)
  obtain ⟨laterRecords, laterKeeps⟩ := later (mono + 1 + inner.events.length + 1)
    (handleEvent ⟨mono + 1 + inner.events.length, clock (mono + 1 + inner.events.length)⟩ finished event) top below
    (by rw [closes]; exact innerKeeps.bound) (by rw [closes]; exact stack)
  have steps : run clock mono state (Work.span kind attrs inner suffix ended rest).events =
      run clock (mono + 1 + inner.events.length + 1) (handleEvent
        ⟨mono + 1 + inner.events.length, clock (mono + 1 + inner.events.length)⟩ finished event) rest.events := by
    rw [Work.events, run, spans.starts, run_append, finish, closing_eq, List.singleton_append, run]
  have length : mono + (Work.span kind attrs inner suffix ended rest).events.length =
      mono + 1 + inner.events.length + 1 + rest.events.length := by
    simp only [Work.events, closing_eq, List.length_cons, List.length_append, List.length_nil]
    omega
  rw [steps, length]
  exact ⟨_, .span spans.stack spans.counts spans.fresh spans.opened innerKeeps closes laterKeeps⟩

/-- Calm work inside an open span is recorded under it. -/
theorem calm_recorded {work : Work} (calm : Calm work) : Recorded clock task work := by
  induction calm with
  | done => exact fun mono state top rest bound stack => ⟨[], .nil bound⟩
  | @boundary name attrs work later ih =>
    intro mono state top rest bound stack
    have next : handleEvent ⟨mono, clock mono⟩ state (.boundary name attrs) = _ := boundary_eq bound stack
    obtain ⟨records, keeps⟩ := ih (mono + 1) (handleEvent ⟨mono, clock mono⟩ state (.boundary name attrs)) top rest
      (by rw [next]; exact bound) (by rw [next]; exact stack)
    have length : mono + (Work.boundary name attrs work).events.length = mono + 1 + work.events.length := by
      simp only [Work.events, List.length_cons]
      omega
    rw [length]
    exact ⟨_, .event (by rw [next]) (by rw [next]) keeps⟩
  | @dispatch attrs ended inner work suffix within later ih ihLater =>
    intro mono state top rest bound stack
    exact Spans.recorded ⟨dispatchStart_eq bound stack, rfl, bound, ⟨Nat.le_succ _, Nat.le_refl _⟩,
      ⟨Nat.lt_succ_self _, Nat.le_refl _⟩, rfl, _, rfl, fun now next top => dispatchEnd_eq top⟩ stack ih ihLater
  | @actuate attrs ended inner work within later ih ihLater =>
    intro mono state top rest bound stack
    exact Spans.recorded ⟨actuateStart_eq bound stack, rfl, bound, ⟨Nat.le_refl _, Nat.le_succ _⟩,
      ⟨Nat.lt_succ_self _, Nat.le_refl _⟩, rfl, _, rfl, fun now next top => actuateStop_eq top⟩ stack ih ihLater

end Calm

/-! ## Message spans -/

section Turns
variable {clock : Nat → Int} {state next : State} {task : String} {seen : List String} {now : Instant} {attrs : Attrs}

/-- No span is open in the process, and only the tasks it has seen have records. -/
structure Rests (seen : List String) (state : State) : Prop where
  stack : state.process.stack = []
  unbound : seen = [] → state.process.task = none
  known : ∀ task ∈ seen, state.taskSpanRecorded task = true
  unknown : ∀ task ∉ seen, state.table task = []

theorem messageStart_fresh (rests : Rests seen state) (fresh : task ∉ seen) : messageStart now (some task) attrs state =
    ⟨{ state.process with stack := [⟨.task, some task, false⟩], task := some task },
      writes state.table task [.opened .task "a2a.task" none now attrs]⟩ := by
  have recorded : state.taskSpanRecorded task = false := by
    rw [State.taskSpanRecorded, rests.unknown task fresh]
    rfl
  simp [messageStart, rests.stack, recorded, State.push, entry, State.boundTask, State.insert, writes]

theorem messageStart_seen (rests : Rests seen state) (known : task ∈ seen) : messageStart now (some task) attrs state =
    ⟨{ state.process with stack := [⟨.task, some task, true⟩], task := some task }, state.table⟩ := by
  simp [messageStart, rests.stack, rests.known task known, State.push, entry, State.boundTask]

theorem messageEnd_fresh {suffix : Suffix} (stack : state.process.stack = [⟨.task, some task, false⟩]) :
    messageEnd now suffix attrs state = ⟨{ state.process with stack := [] },
      writes state.table task [.closed .task now attrs (status suffix)]⟩ := by
  simp only [messageEnd, State.pop, stack]
  rfl

theorem taskSpanRecorded_of_table {other : State} (same : other.table task = state.table task) :
    other.taskSpanRecorded task = state.taskSpanRecorded task := by
  rw [State.taskSpanRecorded, State.taskSpanRecorded, same]

/-- What a message span does to a process that rests. -/
structure Turned (seen : List String) (task : String) (first size : Nat) (state next : State) : Prop where
  rests : Rests (task :: seen) next
  others : ∀ other, other ≠ task → next.table other = state.table other
  kept : task ∈ seen → next.table task = state.table task
  tree : task ∉ seen → Tree (next.table task) ∧
    ∀ record ∈ next.table task, first ≤ record.mono ∧ record.mono < first + (size + 2)

theorem rooted_tree {key : SpanKey} {name : String} {begun ended : Instant} {closing : Attrs} {status : Status}
    {records : List Record} (nested : Nested key records) (new : key ∉ keys records) (once : (keys records).Nodup) :
    Tree (.opened key name none begun attrs :: (records ++ [.closed key ended closing status])) where
  rooted := .inr ⟨_, _, _, _, _, _, _, _, nested, rfl⟩
  once := by
    have keys_eq : keys (.opened key name none begun attrs :: (records ++ [.closed key ended closing status])) =
        key :: keys records := by
      show key :: List.filterMap Record.opens (records ++ _) = _
      rw [List.filterMap_append]
      exact congrArg (key :: ·) (List.append_nil _)
    rw [keys_eq]
    exact List.nodup_cons.mpr ⟨new, once⟩

theorem fresh_turned {inner : Work} {suffix : Suffix} {closing : Attrs} (mono : Nat) (rests : Rests seen state)
    (fresh : task ∉ seen) (calm : Calm inner) : Turned seen task mono inner.events.length state
      (run clock mono state (.messageStart (some task) attrs :: (inner.events ++ [.messageEnd suffix closing]))) := by
  have begins : handleEvent ⟨mono, clock mono⟩ state (.messageStart (some task) attrs) = _ := messageStart_fresh rests fresh
  have recorded : Recorded clock task inner := calm_recorded calm
  obtain ⟨records, keeps⟩ := recorded (mono + 1) (handleEvent ⟨mono, clock mono⟩ state (.messageStart (some task) attrs))
    ⟨.task, some task, false⟩ [] (by rw [begins]) (by rw [begins])
  rw [run, run_append, run, run]
  generalize run clock (mono + 1) (handleEvent ⟨mono, clock mono⟩ state (.messageStart (some task) attrs)) inner.events =
    finished at keeps
  have stack : finished.process.stack = [⟨.task, some task, false⟩] := by rw [keeps.stack, begins]
  have ends : handleEvent ⟨mono + 1 + inner.events.length, clock (mono + 1 + inner.events.length)⟩ finished
      (.messageEnd suffix closing) = _ := messageEnd_fresh stack
  rw [ends]
  have table : writes finished.table task [.closed .task ⟨mono + 1 + inner.events.length, clock (mono + 1 + inner.events.length)⟩
      closing (status suffix)] = writes state.table task (.opened .task "a2a.task" none ⟨mono, clock mono⟩ attrs ::
        (records ++ [.closed .task ⟨mono + 1 + inner.events.length, clock (mono + 1 + inner.events.length)⟩ closing
          (status suffix)])) := by
    rw [keeps.table, begins, writes_append, writes_append, List.singleton_append]
  rw [table]
  have new : SpanKey.task ∉ keys records := fun again => keeps.fresh .task again
  refine ⟨⟨rfl, nofun, ?_, ?_⟩, fun other different => writes_other different, fun known => absurd known fresh,
    fun _ => ⟨?_, ?_⟩⟩
  · intro other member
    by_cases same : other = task
    · rw [same, State.taskSpanRecorded]
      dsimp only
      rw [writes_self (rests.unknown task fresh)]
      rfl
    · rw [taskSpanRecorded_of_table (writes_other same)]
      exact rests.known other ((List.mem_cons.mp member).resolve_left same)
  · intro other unseen
    obtain ⟨different, new⟩ := not_or.mp (List.mem_cons.not.mp unseen)
    exact (writes_other different).trans (rests.unknown other new)
  · dsimp only
    rw [writes_self (rests.unknown task fresh)]
    exact rooted_tree keeps.nested new keeps.once
  · dsimp only
    rw [writes_self (rests.unknown task fresh)]
    intro record member
    rcases List.mem_cons.mp member with rfl | member
    · exact ⟨Nat.le_refl _, by show mono < _; omega⟩
    rcases List.mem_append.mp member with member | member
    · have := keeps.during record member
      omega
    · rw [List.mem_singleton.mp member]
      exact ⟨by show mono ≤ mono + 1 + _; omega, by show mono + 1 + _ < _; omega⟩

/-- A task that was seen gets no record where nothing happens in its message span. -/
theorem seen_turned {suffix : Suffix} {closing : Attrs} (mono : Nat) (rests : Rests seen state) (known : task ∈ seen) :
    Turned seen task mono 0 state
      (run clock mono state (.messageStart (some task) attrs :: ([] ++ [.messageEnd suffix closing]))) := by
  have begins : handleEvent ⟨mono, clock mono⟩ state (.messageStart (some task) attrs) = _ := messageStart_seen rests known
  rw [run, begins]
  refine ⟨⟨rfl, nofun, ?_, ?_⟩, fun _ _ => rfl, fun _ => rfl, fun fresh => absurd known fresh⟩
  · intro other member
    rcases List.mem_cons.mp member with rfl | member
    · exact rests.known other known
    · exact rests.known other member
  · exact fun other unseen => rests.unknown other (not_or.mp (List.mem_cons.not.mp unseen)).2

/-! ## Whole runs -/

/-- What the run of a piece of work does to the records. -/
structure Leaves (seen after : List String) (work : Work) (first : Nat) (state next : State) : Prop where
  rests : Rests after next
  kept : ∀ task ∈ seen, next.table task = state.table task
  trees : ∀ task ∉ seen, Tree (next.table task) ∧
    ∀ record ∈ next.table task, ∃ place, Within task work place ∧ record.mono = first + place

theorem opening_idle {kind : Kind} (rests : Rests [] state) (unbound : ∀ task, kind ≠ .message (some task)) :
    handleEvent now state (opening kind attrs) = state := by
  have none := rests.unbound rfl
  cases kind with
  | message taskId =>
    cases taskId with
    | none => rfl
    | some task => exact absurd rfl (unbound task)
  | dispatch => simp [opening, handleEvent, dispatchStart, State.boundTask, none]
  | actuate => simp [opening, handleEvent, actuateStart, State.boundTask, none]

theorem closing_idle {kind : Kind} {suffix : Suffix} (mono : Nat) (stack : state.process.stack = []) :
    run clock mono state (closing kind suffix attrs) = state := by
  cases kind with
  | message taskId => simp [closing, run, handleEvent, messageEnd, State.pop, stack]
  | dispatch => simp [closing, run, handleEvent, dispatchEnd, State.pop, stack]
  | actuate => cases suffix <;> simp [closing, run, handleEvent, actuateStop, State.pop, stack]

/-- The records of a task, once its tree is there, are left alone. -/
theorem Leaves.later {middle after : List String} {rest whole : Work} {second first : Nat} {between : State}
    (inner : ∀ task ∉ seen, Tree (between.table task) ∧
      ∀ record ∈ between.table task, ∃ place, Within task whole place ∧ record.mono = first + place)
    (later : Leaves middle after rest second between next)
    (apart : ∀ task place, Within task rest place → ∃ other, Within task whole other ∧ second + place = first + other)
    {task : String} (unseen : task ∉ seen) : Tree (next.table task) ∧
      ∀ record ∈ next.table task, ∃ place, Within task whole place ∧ record.mono = first + place := by
  by_cases known : task ∈ middle
  · rw [later.kept task known]
    exact inner task unseen
  · obtain ⟨tree, times⟩ := later.trees task known
    refine ⟨tree, fun record member => ?_⟩
    obtain ⟨place, within, time⟩ := times record member
    obtain ⟨other, further, same⟩ := apart task place within
    exact ⟨other, further, time.trans same⟩

theorem quiet_leaves {work : Work} {after : List String} (quiet : Quiet seen work after) (mono : Nat) (state : State)
    (rests : Rests seen state) : Leaves seen after work mono state (run clock mono state work.events) := by
  induction quiet generalizing mono state with
  | done =>
    refine ⟨rests, fun _ _ => rfl, fun task unseen => ?_⟩
    show Tree (state.table task) ∧ _
    rw [Work.events, run, rests.unknown task unseen]
    exact ⟨⟨.inl rfl, List.nodup_nil⟩, fun record member => absurd member List.not_mem_nil⟩
  | @boundary name attrs rest after later ih =>
    have same : handleEvent ⟨mono, clock mono⟩ state (.boundary name attrs) = state := by
      simp [handleEvent, Recorder.boundary, State.boundTask, rests.unbound rfl]
    rw [Work.events, run, same]
    have leaves := ih (mono + 1) state rests
    refine ⟨leaves.rests, leaves.kept, fun task unseen => ⟨(leaves.trees task unseen).1, fun record member => ?_⟩⟩
    obtain ⟨place, within, time⟩ := (leaves.trees task unseen).2 record member
    exact ⟨place + 1, .afterBoundary within, by omega⟩
  | @idle kind attrs ended inner rest suffix middle after unbound within later ih ihLater =>
    have inside := ih (mono + 1) state rests
    rw [Work.events, run, opening_idle rests unbound, run_append, run_append]
    generalize run clock (mono + 1) state inner.events = between at inside
    rw [closing_idle _ inside.rests.stack]
    have outside := ihLater (mono + 1 + inner.events.length + (closing kind suffix ended).length) between inside.rests
    refine ⟨outside.rests, nofun, fun task unseen => outside.later (fun task unseen => ?_) (fun task place within => ?_) unseen⟩
    · obtain ⟨tree, times⟩ := inside.trees task unseen
      refine ⟨tree, fun record member => ?_⟩
      obtain ⟨place, within, time⟩ := times record member
      exact ⟨place + 1, .inside within, by omega⟩
    · exact ⟨_, .afterSpan within, by omega⟩
  | @turn task attrs ended inner rest suffix seen after fresh within later ih =>
    have turned : Turned seen task mono inner.events.length state
        (run clock mono state (.messageStart (some task) attrs :: (inner.events ++ [.messageEnd suffix ended]))) := by
      by_cases known : task ∈ seen
      · obtain rfl := fresh.resolve_left (not_not.mpr known)
        exact seen_turned mono rests known
      · exact fresh_turned mono rests known within
    have split : (Work.span (.message (some task)) attrs inner suffix ended rest).events =
        (.messageStart (some task) attrs :: (inner.events ++ [.messageEnd suffix ended])) ++ rest.events := by
      simp [Work.events, opening, closing]
    rw [split, run_append]
    generalize run clock mono state (.messageStart (some task) attrs :: (inner.events ++ [.messageEnd suffix ended])) = between
      at turned
    simp only [List.length_cons, List.length_append, List.length_nil]
    have outside := ih (mono + (inner.events.length + (0 + 1) + 1)) between turned.rests
    refine ⟨outside.rests, fun other member => ?_, fun other unseen => ?_⟩
    · rw [outside.kept other (List.mem_cons_of_mem _ member)]
      by_cases same : other = task
      · exact same ▸ turned.kept (same ▸ member)
      · exact turned.others other same
    · refine outside.later (fun other unseen => ?_) (fun task place within => ?_) unseen
      · by_cases same : other = task
        · subst same
          obtain ⟨tree, times⟩ := turned.tree unseen
          refine ⟨tree, fun record member => ⟨record.mono - mono, .message ?_, ?_⟩⟩
          · have := times record member
            omega
          · have := times record member
            omega
        · rw [turned.others other same, rests.unknown other unseen]
          exact ⟨⟨.inl rfl, List.nodup_nil⟩, fun record member => absurd member List.not_mem_nil⟩
      · refine ⟨_, .afterSpan within, ?_⟩
        show _ = mono + (place + (inner.events.length + 1 + 1))
        omega

end Turns

/-- In a process that hears nothing but calm work in message spans of new tasks, the records of every task form a tree. -/
theorem quiet_traced (clock : Nat → Int) {work : Work} {tasks : List String} (quiet : Quiet [] work tasks) : Traced clock work := by
  have rests : Rests [] start := ⟨rfl, fun _ => rfl, nofun, fun _ _ => rfl⟩
  intro task
  obtain ⟨tree, times⟩ := (quiet_leaves quiet 0 start rests).trees task List.not_mem_nil
  refine ⟨tree, fun record member => ?_⟩
  obtain ⟨place, within, time⟩ := times record member
  rwa [time, Nat.zero_add]

/-- One task after the other, the first with an actuation. -/
def twoTasks : Work :=
  .span (.message (some "t1")) []
    (.span .dispatch [] (.boundary "command_bus.claim" [] (.span .actuate [] .done .stop [] .done)) .stop [] .done) .stop [] <|
  .span (.message (some "t2")) [] (.span .dispatch [] .done .exception [] .done) .exception [] .done

theorem twoTasks_traced : Traced (fun _ => 0) twoTasks :=
  quiet_traced _ (.turn (.inl List.not_mem_nil) (.dispatch (.boundary (.actuate .done .done)) .done)
    (.turn (.inl (by decide)) (.dispatch .done .done) .done))

/-- The agent sends a message to another agent inside its dispatch. -/
def delegated : Work :=
  .span (.message (some "t1")) []
    (.span .dispatch [] (.span (.message (some "t2")) [] .done .stop [] .done) .stop [] .done) .stop [] .done

theorem delegated_untraced : ¬Traced (fun _ => 0) delegated := by
  intro traced
  have records : (run (fun _ => 0) 0 start delegated.events).table "t1" =
      [.opened .task "a2a.task" none ⟨0, 0⟩ [], .opened (.dispatch 1) "a2a.dispatch" (some .task) ⟨1, 0⟩ []] := by
    decide
  rcases (traced "t1").1.rooted with empty | ⟨_, _, _, _, inner, _, _, _, _, whole⟩
  · rw [records] at empty
    cases empty
  · rw [records] at whole
    have last := congrArg List.getLast? (List.cons.inj whole).2
    simp at last

end AshA2A.Trace.Recorder
