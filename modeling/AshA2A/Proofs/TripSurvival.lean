import AshA2A.KillSwitch

/-! A trip that is owed, after whatever stopped the switch. The term goes before the file when
the switch starts again, and the file is rewritten from it: what only the file knew is lost. -/

namespace AshA2A.KillSwitch
open Concurrency

/-! ### The two copies -/

/-- The class is halted. -/
def Marked (trips : Trips) (className : String) : Prop := (trips.lookup className).isSome

def Kept (trips : Trips) (owed : List String) : Prop := ∀ className ∈ owed, Marked trips className

theorem marked_iff {trips : Trips} {className : String} : Marked trips className ↔ ∃ info, (className, info) ∈ trips := by
  unfold Marked
  induction trips with
  | nil => simp
  | cons entry rest hypothesis =>
    rw [List.lookup_cons]
    by_cases same : className = entry.1
    · subst same
      simp only [beq_self_eq_true, Option.isSome_some, true_iff]
      exact ⟨entry.2, List.mem_cons_self⟩
    · rw [beq_false_of_ne same]
      simp only [hypothesis, List.mem_cons]
      constructor
      · rintro ⟨info, member⟩
        exact ⟨info, .inr member⟩
      · rintro ⟨info, rfl | member⟩
        · exact absurd rfl same
        · exact ⟨info, member⟩

@[simp]
theorem marked_delete {trips : Trips} {className other : String} :
    Marked (trips.delete className) other ↔ other ≠ className ∧ Marked trips other := by
  simp only [marked_iff, Trips.delete, List.mem_filter, decide_eq_true_eq]
  constructor
  · rintro ⟨info, member, different⟩
    exact ⟨different, info, member⟩
  · rintro ⟨different, info, member⟩
    exact ⟨info, member, different⟩

@[simp]
theorem marked_put {trips : Trips} {className other : String} {info : TripInfo} :
    Marked (trips.put className info) other ↔ other = className ∨ Marked trips other := by
  unfold Trips.put
  rw [← Trips.delete, marked_iff]
  simp only [List.mem_cons, Prod.mk.injEq, exists_or, exists_eq_right, ← marked_iff, marked_delete]
  by_cases same : other = className
  · simp [same]
  · simp [same]

@[simp]
theorem marked_insert {trips rows : Trips} {className : String} :
    Marked (trips.insert rows) className ↔ Marked rows className ∨ Marked trips className := by
  unfold Trips.insert
  induction rows with
  | nil => simp [marked_iff]
  | cons row rest hypothesis =>
    rw [List.foldr_cons, marked_put, hypothesis, ← or_assoc]
    apply or_congr_left
    simp only [marked_iff, List.mem_cons]
    constructor
    · rintro (rfl | ⟨info, member⟩)
      · exact ⟨row.2, .inl rfl⟩
      · exact ⟨info, .inr member⟩
    · rintro ⟨info, rfl | member⟩
      · exact .inl rfl
      · exact .inr ⟨info, member⟩

/-! ### Spared crashes -/

namespace World

/-- The process dies neither in a trip that the file knows and the term does not, nor in the
reset of an owed class between its publication and its answer. -/
def ProcessSpared (world : World) : Prop :=
  match world.serving with
  | some (.trip className _ _) =>
    world.written = true → ∀ trips, world.term = some trips → Marked trips className
  | some (.reset className) => world.published = true → className ∉ world.owed
  | _ => True

/-- The machine dies neither while the file is rewritten, nor in the reset of an owed class
between its deletion and its answer, and there is a file. -/
def MachineSpared (dets : Bool) (world : World) : Prop :=
  (dets = false ∨ world.rewriting = true → world.owed = []) ∧
    match world.serving with
    | some (.reset className) => world.written = true → className ∉ world.owed
    | _ => True

end World

inductive Spared (dets : Bool) (world : World) : World → Prop where
  | process (spared : world.ProcessSpared) : Spared dets world (world.left world.term world.table)
  | machine {file : Trips} (lands : world.Lands file) (spared : world.MachineSpared dets) :
    Spared dets world (world.left none file)

/-! ### What holds between two steps -/

/-- The process is not running. -/
structure Down (dets : Bool) (world : World) : Prop where
  idle : world.serving = none
  synced : world.unsynced = []
  term : ∀ trips, world.term = some trips → Kept trips world.owed
  file : dets = true → world.rewriting = false → Kept world.file world.owed
  lost : world.term = none → dets = false ∨ world.rewriting = true → world.owed = []
  fileless : dets = false → world.file = [] ∧ world.rewriting = false

/-- The process waits for a request. -/
structure Up (dets : Bool) (switch : Switch) (world : World) : Prop where
  opened : switch.dets = dets
  idle : world.serving = none
  synced : world.unsynced = []
  term : world.term = some switch.trips
  kept : Kept switch.trips world.owed
  file : dets = true → Kept world.file world.owed
  rewritten : world.rewriting = false
  fileless : dets = false → world.file = []

/-- Wherever the process is stopped: all that is missing is the class of the request in hand. -/
structure Midway (dets : Bool) (world : World) : Prop where
  term : ∀ trips, world.term = some trips → ∀ className ∈ world.owed, Marked trips className ∨
    (∃ reason trippedAt, world.serving = some (.trip className reason trippedAt) ∧ world.written = true) ∨
      (world.serving = some (.reset className) ∧ world.published = true)
  file : dets = true → world.rewriting = false → ∀ count, ∀ className ∈ world.owed,
    Marked ((world.unsynced.take count).foldl Change.apply world.file) className ∨
      (world.serving = some (.reset className) ∧ world.written = true ∧ world.published = true)
  lost : world.term = none → world.serving = none ∧ (dets = false ∨ world.rewriting = true → world.owed = [])
  rewriting : world.rewriting = true → world.serving = none
  fileless : dets = false → world.file = [] ∧ world.unsynced = [] ∧ world.rewriting = false

section
variable {dets : Bool} {world left : World}

theorem mem_landed {file : Trips} {className : String} (landed : className ∈ world.landed file) :
    className ∈ world.owed ∨
      ∃ reason trippedAt, world.serving = some (.trip className reason trippedAt) ∧ world.written = true ∧
        Marked file className := by
  unfold World.landed at landed
  split at landed
  case h_1 tripped reason trippedAt serving =>
    split at landed
    case isTrue reached =>
      rcases List.mem_cons.mp landed with rfl | owed
      · exact .inr ⟨reason, trippedAt, serving, reached⟩
      · exact .inl owed
    case isFalse => exact .inl landed
  case h_2 => exact .inl landed

theorem landed_idle {file : Trips} (idle : world.serving = none) : world.landed file = world.owed := by
  unfold World.landed
  rw [idle]

theorem landed_nil : world.landed [] = world.owed := by
  unfold World.landed
  split <;> simp

theorem nil_of_lands {file : Trips} (lands : world.Lands file) (empty : world.file = [] ∧ world.unsynced = []) :
    file = [] := by
  cases file with
  | nil => rfl
  | cons entry rest =>
    obtain ⟨count, same⟩ := lands entry.1
    rw [empty.1, empty.2] at same
    simp at same

theorem Midway.table (midway : Midway dets world) (configured : dets = true) (whole : world.rewriting = false)
    {className : String} (owed : className ∈ world.owed) :
    Marked world.table className ∨
      (world.serving = some (.reset className) ∧ world.written = true ∧ world.published = true) := by
  have all := midway.file configured whole world.unsynced.length className owed
  rwa [List.take_length] at all

theorem Midway.process (midway : Midway dets world) (spared : world.ProcessSpared) :
    Down dets (world.left world.term world.table) where
  idle := rfl
  synced := rfl
  term := by
    intro trips found className landed
    rcases mem_landed landed with owed | ⟨reason, trippedAt, serving, written, -⟩
    · rcases midway.term trips found className owed with
        marked | ⟨reason, trippedAt, serving, written⟩ | ⟨serving, published⟩
      · exact marked
      · simp only [World.ProcessSpared, serving] at spared
        exact spared written trips found
      · simp only [World.ProcessSpared, serving] at spared
        exact absurd owed (spared published)
    · simp only [World.ProcessSpared, serving] at spared
      exact spared written trips found
  file := by
    intro configured whole className landed
    rcases mem_landed landed with owed | ⟨_, _, _, _, marked⟩
    · rcases midway.table configured whole owed with marked | ⟨serving, _, published⟩
      · exact marked
      · simp only [World.ProcessSpared, serving] at spared
        exact absurd owed (spared published)
    · exact marked
  lost := by
    intro none unsaved
    obtain ⟨idle, lost⟩ := midway.lost none
    exact (landed_idle idle).trans (lost unsaved)
  fileless := by
    intro unconfigured
    obtain ⟨file, unsynced, whole⟩ := midway.fileless unconfigured
    refine ⟨?_, whole⟩
    simp only [World.left, World.table, file, unsynced, List.foldl_nil]

theorem Midway.machine (midway : Midway dets world) {file : Trips} (lands : world.Lands file)
    (spared : world.MachineSpared dets) : Down dets (world.left none file) where
  idle := rfl
  synced := rfl
  term := nofun
  file := by
    intro configured whole className landed
    rcases mem_landed landed with owed | ⟨_, _, _, _, marked⟩
    · obtain ⟨count, same⟩ := lands className
      rcases midway.file configured whole count className owed with marked | ⟨serving, written, _⟩
      · rw [Marked, ← same] at marked
        exact marked
      · have kept := spared.2
        rw [serving] at kept
        exact absurd owed (kept written)
    · exact marked
  lost := by
    rintro - (unconfigured | rewriting)
    · obtain ⟨empty, unsynced, -⟩ := midway.fileless unconfigured
      rw [nil_of_lands lands ⟨empty, unsynced⟩]
      exact landed_nil.trans (spared.1 (.inl unconfigured))
    · exact (landed_idle (midway.rewriting rewriting)).trans (spared.1 (.inr rewriting))
  fileless := by
    intro unconfigured
    obtain ⟨empty, unsynced, whole⟩ := midway.fileless unconfigured
    exact ⟨nil_of_lands lands ⟨empty, unsynced⟩, whole⟩

theorem Midway.crash (midway : Midway dets world) (spared : Spared dets world left) : Down dets left := by
  cases spared with
  | process spared => exact midway.process spared
  | machine lands spared => exact midway.machine lands spared

theorem Down.midway (down : Down dets world) : Midway dets world where
  term trips found className owed := .inl (down.term trips found className owed)
  file := by
    intro configured whole count className owed
    rw [down.synced, List.take_nil]
    exact .inl (down.file configured whole className owed)
  lost none := ⟨down.idle, down.lost none⟩
  rewriting _ := down.idle
  fileless unconfigured :=
    have ⟨file, whole⟩ := down.fileless unconfigured
    ⟨file, down.synced, whole⟩

theorem Up.midway {switch : Switch} (up : Up dets switch world) : Midway dets world where
  term trips found className owed := by
    cases up.term.symm.trans found
    exact .inl (up.kept className owed)
  file := by
    intro configured _ count className owed
    rw [up.synced, List.take_nil]
    exact .inl (up.file configured className owed)
  lost none := by cases up.term.symm.trans none
  rewriting _ := up.idle
  fileless unconfigured := ⟨up.fileless unconfigured, up.synced, up.rewritten⟩

/-! ### Every request -/

/-- The machine decides nothing: a request has one outcome. -/
theorem upholds_request {always : World → Prop} {α : Type} {post : α → World → Prop} {op : Op}
    {next : op.Reply → Code α} (kept : always world)
    (rest : machine.Upholds (fun _ _ _ => True) always post (next (world.exec op).1) (world.exec op).2) :
    machine.Upholds (fun _ _ _ => True) always post (.request op next) world := by
  refine ⟨kept, fun choice reply after _ served => ?_⟩
  have same : world.exec op = (reply, after) := Option.some.inj served
  rw [same] at rest
  exact rest

/-- Both copies hold every owed class. -/
theorem midway_kept {trips : Trips} (found : world.term = some trips) (kept : Kept trips world.owed)
    (whole : world.rewriting = false)
    (file : dets = true → ∀ count, Kept ((world.unsynced.take count).foldl Change.apply world.file) world.owed)
    (fileless : dets = false → world.file = [] ∧ world.unsynced = []) : Midway dets world where
  term := by
    intro other same className owed
    cases found.symm.trans same
    exact .inl (kept className owed)
  file configured _ count className owed := .inl (file configured count className owed)
  lost none := by cases found.symm.trans none
  rewriting rewriting := by cases whole.symm.trans rewriting
  fileless unconfigured := ⟨(fileless unconfigured).1, (fileless unconfigured).2, whole⟩

theorem kept_insert {file rows : Trips} {owed : List String} (kept : Kept file owed) (count : Nat) :
    Kept (([Change.insert rows].take count).foldl Change.apply file) owed := by
  cases count with
  | zero => exact kept
  | succ count =>
    intro className member
    rw [List.take_succ_cons, List.take_nil, List.foldl_cons, List.foldl_nil, Change.apply, marked_insert]
    exact .inr (kept className member)

theorem kept_cons {trips : Trips} {className : String} {owed : List String} :
    Kept trips (className :: owed) ↔ Marked trips className ∧ Kept trips owed := List.forall_mem_cons

theorem upholds_trip {switch : Switch} {className : String} {reason : Term} {trippedAt : Int}
    (up : Up dets switch world) :
    machine.Upholds (fun _ _ _ => True) (Midway dets)
      (fun result last => ∃ next, result.2 = some next ∧ Up dets next last)
      (handle (.trip className reason trippedAt) switch) world := by
  have midway := up.midway
  obtain ⟨opened, idle, synced, term, kept, file, whole, fileless⟩ := up
  obtain ⟨_, table, _, _, written, published, _, owed⟩ := world
  obtain ⟨flag, trips⟩ := switch
  simp only at opened idle synced term kept file whole fileless
  subst opened idle synced term whole
  have halted : Kept (trips.put className ⟨reason, trippedAt⟩) (className :: owed) :=
    kept_cons.mpr ⟨marked_put.mpr (.inl rfl), fun other member => marked_put.mpr (.inr (kept other member))⟩
  cases flag with
  | true =>
    have file := file rfl
    have stored : Kept (table.insert [(className, ⟨reason, trippedAt⟩)]) (className :: owed) :=
      kept_cons.mpr ⟨marked_put.mpr (.inl rfl), fun other member => marked_put.mpr (.inr (file other member))⟩
    have reached : ((table.insert [(className, ⟨reason, trippedAt⟩)]).lookup className).isSome = true :=
      stored className List.mem_cons_self
    simp only [handle, persist, if_true, publish, Code.receive, Code.write, Code.sync, Code.putTerm,
      Code.reply, Program.ask_bind, Program.request_bind]
    refine upholds_request midway (upholds_request ?_ (upholds_request ?_ (upholds_request ?_
      (upholds_request ?_ ⟨?_, _, rfl, ?_⟩))))
    all_goals
      dsimp only [World.exec, World.table, World.landed, World.acknowledge, List.nil_append, List.foldl_cons,
        List.foldl_nil, Change.apply]
      try rw [if_pos ⟨rfl, reached⟩]
    · exact midway_kept rfl kept rfl (fun _ count => by rwa [List.take_nil]) nofun
    · exact midway_kept rfl kept rfl (fun _ count => kept_insert file count) nofun
    · -- The file knows the trip and the term does not.
      refine ⟨?_, fun _ _ count other member => .inl ?_, nofun, nofun, nofun⟩
      · intro found same other member
        cases same
        rcases List.mem_cons.mp member with rfl | member
        · exact .inr (.inl ⟨reason, trippedAt, rfl, rfl⟩)
        · exact .inl (kept other member)
      · rw [List.take_nil]
        exact stored other member
    · exact midway_kept rfl halted rfl (fun _ count => by rwa [List.take_nil]) nofun
    · exact midway_kept rfl (kept_cons.mpr ⟨halted className List.mem_cons_self, halted⟩) rfl
        (fun _ count => by
          rw [List.take_nil]
          exact kept_cons.mpr ⟨reached, stored⟩) nofun
    · exact ⟨rfl, rfl, rfl, rfl, kept_cons.mpr ⟨halted className List.mem_cons_self, halted⟩,
        fun _ => kept_cons.mpr ⟨reached, stored⟩, rfl, nofun⟩
  | false =>
    cases fileless rfl
    simp only [handle, persist, Bool.false_eq_true, if_false, publish, Code.receive, Code.putTerm, Code.reply,
      Program.ask_bind, Program.pure_bind]
    refine upholds_request midway (upholds_request ?_ (upholds_request ?_ ⟨?_, _, rfl, ?_⟩))
    all_goals dsimp only [World.exec, World.acknowledge]
    · exact midway_kept rfl kept rfl nofun fun _ => ⟨rfl, rfl⟩
    · exact midway_kept rfl (kept_cons.mp halted).2 rfl nofun fun _ => ⟨rfl, rfl⟩
    · exact midway_kept rfl halted rfl nofun fun _ => ⟨rfl, rfl⟩
    · exact ⟨rfl, rfl, rfl, rfl, halted, nofun, rfl, fun _ => rfl⟩

/-- What the copies hold of the owed classes while a published reset is in hand. -/
theorem midway_reset {trips : Trips} {className : String} (found : world.term = some trips)
    (serving : world.serving = some (.reset className)) (published : world.published = true)
    (kept : ∀ other ∈ world.owed, other ≠ className → Marked trips other) (whole : world.rewriting = false)
    (file : dets = true → ∀ count, ∀ other ∈ world.owed,
      Marked ((world.unsynced.take count).foldl Change.apply world.file) other ∨
        (other = className ∧ world.written = true))
    (fileless : dets = false → world.file = [] ∧ world.unsynced = []) : Midway dets world where
  term := by
    intro same found' other owed
    cases found.symm.trans found'
    by_cases here : other = className
    · subst here
      exact .inr (.inr ⟨serving, published⟩)
    · exact .inl (kept other owed here)
  file := by
    intro configured _ count other owed
    rcases file configured count other owed with marked | ⟨rfl, written⟩
    · exact .inl marked
    · exact .inr ⟨serving, written, published⟩
  lost none := by cases found.symm.trans none
  rewriting rewriting := by cases whole.symm.trans rewriting
  fileless unconfigured := ⟨(fileless unconfigured).1, (fileless unconfigured).2, whole⟩

theorem kept_delete {trips : Trips} {className : String} {owed : List String} (kept : Kept trips owed) :
    Kept (trips.delete className) (owed.filter (· ≠ className)) := by
  intro other member
  obtain ⟨member, different⟩ := List.mem_filter.mp member
  exact marked_delete.mpr ⟨of_decide_eq_true different, kept other member⟩

theorem upholds_reset {switch : Switch} {className : String} (up : Up dets switch world) :
    machine.Upholds (fun _ _ _ => True) (Midway dets)
      (fun result last => ∃ next, result.2 = some next ∧ Up dets next last)
      (handle (.reset className) switch) world := by
  have midway := up.midway
  obtain ⟨opened, idle, synced, term, kept, file, whole, fileless⟩ := up
  obtain ⟨_, table, _, _, written, published, _, owed⟩ := world
  obtain ⟨flag, trips⟩ := switch
  simp only at opened idle synced term kept file whole fileless
  subst opened idle synced term whole
  have others : ∀ other ∈ owed, other ≠ className → Marked (trips.delete className) other :=
    fun other member different => marked_delete.mpr ⟨different, kept other member⟩
  cases flag with
  | true =>
    have file := file rfl
    have remaining : ∀ other ∈ owed, Marked (table.delete className) other ∨ (other = className ∧ true = true) := by
      intro other member
      by_cases here : other = className
      · exact .inr ⟨here, rfl⟩
      · exact .inl (marked_delete.mpr ⟨here, file other member⟩)
    simp only [handle, persist, if_true, publish, Code.receive, Code.write, Code.sync, Code.putTerm,
      Code.reply, Program.ask_bind, Program.request_bind]
    refine upholds_request midway (upholds_request ?_ (upholds_request ?_ (upholds_request ?_
      (upholds_request ?_ ⟨?_, _, rfl, ?_⟩))))
    all_goals
      dsimp only [World.exec, World.table, World.landed, World.acknowledge, List.nil_append, List.foldl_cons,
        List.foldl_nil, Change.apply]
    · exact midway_kept rfl kept rfl (fun _ count => by rwa [List.take_nil]) nofun
    · refine midway_reset rfl rfl rfl others rfl (fun _ count other member => .inl ?_) nofun
      rw [List.take_nil]
      exact file other member
    · refine midway_reset rfl rfl rfl others rfl (fun _ count other member => ?_) nofun
      cases count with
      | zero => exact .inl (file other member)
      | succ count =>
        rw [List.take_succ_cons, List.take_nil]
        exact remaining other member
    · refine midway_reset rfl rfl rfl others rfl (fun _ count other member => ?_) nofun
      rw [List.take_nil]
      exact remaining other member
    · exact midway_kept rfl (kept_delete kept) rfl
        (fun _ count => by
          rw [List.take_nil]
          exact kept_delete file) nofun
    · exact ⟨rfl, rfl, rfl, rfl, kept_delete kept, fun _ => kept_delete file, rfl, nofun⟩
  | false =>
    cases fileless rfl
    simp only [handle, persist, Bool.false_eq_true, if_false, publish, Code.receive, Code.putTerm, Code.reply,
      Program.ask_bind, Program.pure_bind]
    refine upholds_request midway (upholds_request ?_ (upholds_request ?_ ⟨?_, _, rfl, ?_⟩))
    all_goals dsimp only [World.exec, World.acknowledge]
    · exact midway_kept rfl kept rfl nofun fun _ => ⟨rfl, rfl⟩
    · exact midway_reset rfl rfl rfl others rfl nofun fun _ => ⟨rfl, rfl⟩
    · exact midway_kept rfl (kept_delete kept) rfl nofun fun _ => ⟨rfl, rfl⟩
    · exact ⟨rfl, rfl, rfl, rfl, kept_delete kept, nofun, rfl, fun _ => rfl⟩

theorem upholds_tripped {switch : Switch} {className : String} (up : Up dets switch world) :
    machine.Upholds (fun _ _ _ => True) (Midway dets)
      (fun result last => ∃ next, result.2 = some next ∧ Up dets next last)
      (handle (.tripped className) switch) world := by
  have midway := up.midway
  obtain ⟨opened, idle, synced, term, kept, file, whole, fileless⟩ := up
  obtain ⟨_, table, _, _, written, published, _, owed⟩ := world
  simp only at idle synced term kept file whole fileless
  subst idle synced term whole
  simp only [handle, Code.receive, Code.reply, Program.ask_bind]
  have onFile : dets = true → ∀ count, Kept (([] : List Change).take count |>.foldl Change.apply table) owed := by
    intro configured count
    rw [List.take_nil]
    exact file configured
  have onNone : dets = false → table = [] ∧ ([] : List Change) = [] := fun unconfigured => ⟨fileless unconfigured, rfl⟩
  refine upholds_request midway (upholds_request ?_ ⟨?_, switch, rfl, ?_⟩)
  · exact midway_kept rfl kept rfl onFile onNone
  · exact midway_kept rfl kept rfl onFile onNone
  · exact ⟨opened, rfl, rfl, rfl, kept, file, rfl, fileless⟩

theorem upholds_handle {switch : Switch} (call : Call) (up : Up dets switch world) :
    machine.Upholds (fun _ _ _ => True) (Midway dets)
      (fun result last => ∃ next, result.2 = some next ∧ Up dets next last) (handle call switch) world := by
  cases call with
  | trip className reason trippedAt => exact upholds_trip up
  | tripped className => exact upholds_tripped up
  | reset className => exact upholds_reset up

/-- The term of the process that starts holds every owed class; so does the file, unless it is
being rewritten. -/
theorem midway_boot {trips : Trips} (found : world.term = some trips) (kept : Kept trips world.owed)
    (idle : world.serving = none)
    (file : dets = true → world.rewriting = false → ∀ count,
      Kept ((world.unsynced.take count).foldl Change.apply world.file) world.owed)
    (fileless : dets = false → world.file = [] ∧ world.unsynced = [] ∧ world.rewriting = false) :
    Midway dets world where
  term := by
    intro other same className owed
    cases found.symm.trans same
    exact .inl (kept className owed)
  file configured whole count className owed := .inl (file configured whole count className owed)
  lost none := by cases found.symm.trans none
  rewriting _ := idle
  fileless := fileless

theorem upholds_init (down : Down dets world) :
    machine.Upholds (fun _ _ _ => True) (Midway dets)
      (fun result last => ∃ switch, result = some switch ∧ Up dets switch last) (init dets) world := by
  have midway := down.midway
  obtain ⟨idle, synced, term, file, lost, fileless⟩ := down
  obtain ⟨found, table, _, _, written, published, rewriting, owed⟩ := world
  simp only at idle synced term file lost fileless
  subst idle synced
  cases dets with
  | true =>
    have kept : Kept (found.getD table) owed := by
      cases found with
      | some trips => exact term trips rfl
      | none =>
        cases rewriting with
        | true =>
          rw [lost rfl (.inr rfl)]
          nofun
        | false => exact file rfl rfl
    have rewritten : Kept (Trips.insert [] (found.getD table)) owed :=
      fun className member => marked_insert.mpr (.inl (kept className member))
    simp only [init, readDets, persistAll, if_true, publish, Code.write, Code.sync, Code.putTerm, Code.getTerm,
      Code.foldl, Program.ask_bind, Program.request_bind]
    refine upholds_request midway (upholds_request midway (upholds_request midway (upholds_request ?_
      (upholds_request ?_ (upholds_request ?_ ⟨?_, _, rfl, ?_⟩)))))
    all_goals
      dsimp only [World.exec, World.table, World.landed, List.nil_append, List.cons_append, List.foldl_cons,
        List.foldl_nil, Change.apply]
    · exact midway_boot rfl kept rfl (fun _ whole count => by
        rw [List.take_nil]
        exact file rfl whole) nofun
    · refine midway_boot rfl kept rfl (fun _ whole => ?_) nofun
      simp at whole
    · refine midway_boot rfl kept rfl (fun _ whole => ?_) nofun
      simp at whole
    · exact midway_kept rfl kept rfl (fun _ count => by rwa [List.take_nil]) nofun
    · exact ⟨rfl, rfl, rfl, rfl, kept, fun _ => rewritten, rfl, nofun⟩
  | false =>
    obtain ⟨rfl, rfl⟩ := fileless rfl
    have kept : Kept (found.getD []) owed := by
      cases found with
      | some trips => exact term trips rfl
      | none =>
        rw [lost rfl (.inl rfl)]
        nofun
    simp only [init, readDets, persistAll, Bool.false_eq_true, if_false, publish, Code.putTerm, Code.getTerm,
      Program.ask_bind, Program.pure_bind]
    refine upholds_request midway (upholds_request midway ⟨?_, _, rfl, ?_⟩)
    all_goals dsimp only [World.exec]
    · exact midway_kept rfl kept rfl nofun fun _ => ⟨rfl, rfl⟩
    · exact ⟨rfl, rfl, rfl, rfl, kept, nofun, rfl, fun _ => rfl⟩

end

/-! ### Every run -/

/-- What holds of the switch where it runs and where it does not. -/
def Holds (dets : Bool) : Option Switch → World → Prop
  | none, world => Down dets world
  | some switch, world => Up dets switch world

theorem Holds.midway {dets : Bool} {state : Option Switch} {world : World} (holds : Holds dets state world) :
    Midway dets world := by
  cases state with
  | none => exact Down.midway holds
  | some switch => exact Up.midway holds

/-- However often the switch was stopped, but never where a crash is not spared, every owed
class is halted once it runs. -/
theorem trips_survive {dets : Bool} {switch : Switch} {world : World} {answered : List (Call × Answer)}
    (reached : (server dets (Spared dets)).Reachable ⟨{}, none, []⟩ ⟨world, some switch, answered⟩) :
    ∀ className ∈ world.owed, ∃ reason, tripped className world = some (some reason) := by
  have initially : Holds dets none {} := ⟨rfl, rfl, nofun, nofun, fun _ _ => rfl, fun _ => ⟨rfl, rfl⟩⟩
  have up : Holds dets (some switch) world :=
    reached.invariant (fun state world _ => Holds dets state world)
      (fun _ _ down => (upholds_init down).weaken (fun _ midway _ spared => midway.crash spared)
        fun result last _ started => by
          obtain ⟨switch, rfl, up⟩ := started
          exact up)
      (fun call _ _ _ _ up => (upholds_handle call up).weaken (fun _ midway _ spared => midway.crash spared)
        fun result last _ handled => by
          obtain ⟨next, same, up⟩ := handled
          rw [same]
          exact up)
      (fun _ _ _ _ holds spared => holds.midway.crash spared) initially
  intro className owed
  obtain ⟨info, found⟩ := Option.isSome_iff_exists.mp (Up.kept up className owed)
  exact ⟨info.reason, by simp [tripped, Up.term up, found]⟩

/-- What is there after a process that acknowledged a trip has died and started again. -/
def restarted : World where
  term := some [("ledger", ⟨.atom "incident", 0⟩)]
  file := [("ledger", ⟨.atom "incident", 0⟩)]
  written := true
  published := true
  owed := ["ledger", "ledger"]

theorem trips_survive_restart : ∃ reason, tripped "ledger" restarted = some (some reason) := by
  have booted : machine.play (List.replicate 6 ()) (init true) {} =
      some (some (some ⟨true, []⟩), { term := some [], written := true, published := true }) := by decide
  have served : machine.play (List.replicate 5 ()) (handle (.trip "ledger" (.atom "incident") 0) ⟨true, []⟩)
      { term := some [], written := true, published := true } =
        some (some (.ok, some ⟨true, [("ledger", ⟨.atom "incident", 0⟩)]⟩),
          { term := some [("ledger", ⟨.atom "incident", 0⟩)]
            file := [("ledger", ⟨.atom "incident", 0⟩)]
            owed := ["ledger", "ledger"] }) := by decide
  have again : machine.play (List.replicate 6 ()) (init true)
      { term := some [("ledger", ⟨.atom "incident", 0⟩)]
        file := [("ledger", ⟨.atom "incident", 0⟩)]
        owed := ["ledger", "ledger"] } =
        some (some (some ⟨true, [("ledger", ⟨.atom "incident", 0⟩)]⟩), restarted) := by decide
  have reached : (server true (Spared true)).Reachable ⟨{}, none, []⟩
      ⟨restarted, some ⟨true, [("ledger", ⟨.atom "incident", 0⟩)]⟩,
        [(.trip "ledger" (.atom "incident") 0, .ok)]⟩ :=
    .step (.step (.step (.step .start (.started (Machine.runs_of_play (fun _ _ _ _ => trivial) booted)))
      (.handled trivial (Machine.runs_of_play (fun _ _ _ _ => trivial) served))) (.stopped (.process trivial)))
      (.started (Machine.runs_of_play (fun _ _ _ _ => trivial) again))
  exact trips_survive reached "ledger" List.mem_cons_self

/-- The process dies when the trip is on disk and not yet published. The term it left goes before
the file, and the file is rewritten from it. -/
theorem unpublished_trip_lost :
    ∃ world switch answered,
      (server true World.Survives).Reachable ⟨{}, none, []⟩ ⟨world, some switch, answered⟩ ∧
        "ledger" ∈ world.owed ∧ tripped "ledger" world = some none := by
  have booted : machine.play (List.replicate 6 ()) (init true) {} =
      some (some (some ⟨true, []⟩), { term := some [], written := true, published := true }) := by decide
  have died : machine.play (List.replicate 3 ()) (handle (.trip "ledger" (.atom "incident") 0) ⟨true, []⟩)
      { term := some [], written := true, published := true } =
        some (none,
          { term := some []
            file := [("ledger", ⟨.atom "incident", 0⟩)]
            serving := some (.trip "ledger" (.atom "incident") 0)
            written := true
            owed := ["ledger"] }) := by decide
  have again : machine.play (List.replicate 6 ()) (init true)
      { term := some [], file := [("ledger", ⟨.atom "incident", 0⟩)], owed := ["ledger", "ledger"] } =
        some (some (some ⟨true, []⟩),
          { term := some [], written := true, published := true, owed := ["ledger", "ledger"] }) := by
    decide
  refine ⟨_, _, _, .step (.step (.step .start (.started (Machine.runs_of_play (fun _ _ _ _ => trivial) booted)))
    (.callStopped trivial (Machine.runs_of_play (fun _ _ _ _ => trivial) died) .process))
    (.started (Machine.runs_of_play (fun _ _ _ _ => trivial) again)), List.mem_cons_self, rfl⟩

end AshA2A.KillSwitch
