import AshA2A.A2ATransport.SSE
import AshA2A.Proofs.TaskLog
import Mathlib.Data.List.Nodup

/-! What a connection writes of the events that were logged, however its steps and those of the
publishers follow each other. -/

namespace AshA2A.A2ATransport.SSE

open TaskEvents

/-! ## Up to the final event -/

def upToFinal : List Event → List Event
  | [] => []
  | event :: events => if event.final then [event] else event :: upToFinal events

theorem upToFinal_begins (events : List Event) : upToFinal events <+: events := by
  induction events with
  | nil => exact List.prefix_refl _
  | cons event events ih =>
    rw [upToFinal]
    split
    · exact ⟨events, rfl⟩
    · exact List.prefix_cons_inj event |>.mpr ih

theorem upToFinal_of_open {events : List Event} (unfinished : ∀ event ∈ events, ¬ event.final) (more : List Event) :
    upToFinal (events ++ more) = events ++ upToFinal more := by
  induction events with
  | nil => rfl
  | cons event events ih =>
    obtain ⟨first, rest⟩ := List.forall_mem_cons.mp unfinished
    rw [List.cons_append, upToFinal, if_neg first, ih rest]
    rfl

theorem upToFinal_self {events : List Event} (unfinished : ∀ event ∈ events, ¬ event.final) :
    upToFinal events = events := by
  simpa [upToFinal] using upToFinal_of_open unfinished []

theorem upToFinal_of_final {events : List Event} (finished : ∃ event ∈ events, event.final) (more : List Event) :
    upToFinal (events ++ more) = upToFinal events := by
  induction events with
  | nil => obtain ⟨_, member, _⟩ := finished; exact absurd member List.not_mem_nil
  | cons event events ih =>
    rw [List.cons_append, upToFinal, upToFinal]
    split
    · rfl
    next open_still =>
      obtain ⟨last, member, final⟩ := finished
      obtain rfl | member := List.mem_cons.mp member
      · exact absurd final open_still
      · rw [ih ⟨last, member, final⟩]

theorem upToFinal_final {events : List Event} (finished : ∃ event ∈ events, event.final) :
    ∃ event ∈ upToFinal events, event.final := by
  induction events with
  | nil => obtain ⟨_, member, _⟩ := finished; exact absurd member List.not_mem_nil
  | cons event events ih =>
    rw [upToFinal]
    split
    next last => exact ⟨event, List.mem_singleton_self _, last⟩
    next open_still =>
      obtain ⟨last, member, final⟩ := finished
      obtain rfl | member := List.mem_cons.mp member
      · exact absurd final open_still
      · obtain ⟨found, within, final⟩ := ih ⟨last, member, final⟩
        exact ⟨found, List.mem_cons_of_mem _ within, final⟩

/-! ## What is still to be written -/

def heard (mode : Mode) : Int → List Message → List Event
  | _, [] => []
  | last, .logged event :: rest =>
    if mode = .stream ∧ (event.seq : Int) ≤ last then heard mode last rest
    else if event.final then [event] else event :: heard mode event.seq rest
  | last, .transition _ terminal :: rest => if terminal then [] else heard mode (last + 1) rest

def replayed (mode : Mode) : Int → List Event → List Message → List Event
  | last, [], mailbox => heard mode last mailbox
  | last, row :: rows, mailbox =>
    if (row.seq : Int) ≤ last ∧ row.final then []
    else if (row.seq : Int) ≤ last then replayed mode last rows mailbox
    else if row.final then [row] else row :: replayed mode row.seq rows mailbox

def Frame.logged? : Frame → Option Event
  | .event logged => some logged
  | .snapshot _ | .transition _ _ => none

namespace Connection

/-- The events that reached the client. -/
def written (conn : Connection) : List Event := conn.frames.filterMap Frame.logged?

/-- The rows that are still to be gone through. -/
def pending (conn : Connection) : List Event :=
  match conn.phase with
  | .opened backlog | .replaying backlog => backlog
  | _ => []

/-- What the connection writes if nothing more happens. -/
def owed (conn : Connection) : List Event :=
  match conn.phase with
  | .opened backlog | .replaying backlog => replayed conn.mode conn.last backlog conn.mailbox
  | .following _ => heard conn.mode conn.last conn.mailbox
  | _ => []

end Connection

/-- The backlog was read and the connection is not over. -/
def Phase.reading : Phase → Bool
  | .opened _ | .replaying _ | .following _ => true
  | _ => false

theorem heard_append_of_final {mode : Mode} {last : Int} {mailbox : List Message} (more : List Message)
    (finished : ∃ event ∈ heard mode last mailbox, event.final) :
    heard mode last (mailbox ++ more) = heard mode last mailbox := by
  induction mailbox generalizing last with
  | nil => obtain ⟨_, member, _⟩ := finished; exact absurd member List.not_mem_nil
  | cons message rest ih =>
    cases message with
    | logged event =>
      rw [List.cons_append, heard, heard]
      rw [heard] at finished
      split
      next stale => exact ih (by rwa [if_pos stale] at finished)
      next fresh =>
        rw [if_neg fresh] at finished
        split
        · rfl
        next open_still =>
          rw [if_neg open_still] at finished
          obtain ⟨found, member, final⟩ := finished
          obtain rfl | member := List.mem_cons.mp member
          · exact absurd final open_still
          · rw [ih ⟨found, member, final⟩]
    | transition status terminal =>
      rw [List.cons_append, heard, heard]
      rw [heard] at finished
      split
      · rfl
      next alive => exact ih (by rwa [if_neg alive] at finished)

theorem replayed_append_of_final {mode : Mode} {last : Int} {rows : List Event} {mailbox : List Message}
    (more : List Message) (finished : ∃ event ∈ replayed mode last rows mailbox, event.final) :
    replayed mode last rows (mailbox ++ more) = replayed mode last rows mailbox := by
  induction rows generalizing last with
  | nil => exact heard_append_of_final more finished
  | cons row rows ih =>
    rw [replayed, replayed]
    rw [replayed] at finished
    split
    · rfl
    next goes =>
      rw [if_neg goes] at finished
      split
      next old => exact ih (by rwa [if_pos old] at finished)
      next new =>
        rw [if_neg new] at finished
        split
        · rfl
        next open_still =>
          rw [if_neg open_still] at finished
          obtain ⟨found, member, final⟩ := finished
          obtain rfl | member := List.mem_cons.mp member
          · exact absurd final open_still
          · rw [ih ⟨found, member, final⟩]

/-- The event is numbered above all that is still to be written. -/
theorem heard_append {mode : Mode} {last : Int} {mailbox : List Message} {event : Event}
    (unfinished : ∀ other ∈ heard mode last mailbox, ¬ other.final)
    (alive : ∀ status, .transition status true ∉ mailbox)
    (later : mode = .stream → last < event.seq ∧ (∀ status terminal, .transition status terminal ∉ mailbox) ∧
      ∀ other ∈ heard mode last mailbox, other.seq < event.seq) :
    heard mode last (mailbox ++ [.logged event]) = heard mode last mailbox ++ [event] := by
  induction mailbox generalizing last with
  | nil =>
    have fresh : ¬ (mode = .stream ∧ (event.seq : Int) ≤ last) := fun ⟨stream, old⟩ => by
      have := (later stream).1
      omega
    have one : heard mode last [.logged event] = if event.final then [event] else [event] := if_neg fresh
    rw [List.nil_append, one, ite_self]
    rfl
  | cons message rest ih =>
    have rest_alive : ∀ status, .transition status true ∉ rest := fun status member =>
      alive status (List.mem_cons_of_mem _ member)
    cases message with
    | logged other =>
      rw [List.cons_append, heard, heard]
      rw [heard] at unfinished later
      split
      next stale =>
        rw [if_pos stale] at unfinished later
        exact ih unfinished rest_alive fun stream => by
          obtain ⟨above, quiet, each⟩ := later stream
          exact ⟨above, fun status terminal member => quiet status terminal (List.mem_cons_of_mem _ member), each⟩
      next fresh =>
        rw [if_neg fresh] at unfinished later
        split
        next last =>
          rw [if_pos last] at unfinished
          exact absurd last (unfinished other (List.mem_singleton_self _))
        next open_still =>
          rw [if_neg open_still] at unfinished later
          rw [ih (fun one member => unfinished one (List.mem_cons_of_mem _ member)) rest_alive ?_]
          · rfl
          · intro stream
            obtain ⟨_, quiet, each⟩ := later stream
            exact ⟨by exact_mod_cast each other (List.mem_cons_self ..),
              fun status terminal member => quiet status terminal (List.mem_cons_of_mem _ member),
              fun one member => each one (List.mem_cons_of_mem _ member)⟩
    | transition status terminal =>
      have goes : ¬ terminal := by
        rintro rfl
        exact alive status (List.mem_cons_self ..)
      rw [List.cons_append, heard, heard, if_neg goes, if_neg goes]
      rw [heard, if_neg goes] at unfinished
      refine ih unfinished rest_alive fun stream => ?_
      exact absurd (List.mem_cons_self ..) ((later stream).2.1 status terminal)

theorem replayed_append {mode : Mode} {last : Int} {rows : List Event} {mailbox : List Message} {event : Event}
    (ascending : (rows.map Event.seq).Pairwise (· < ·))
    (goes : ∀ row ∈ rows, row.final → last < row.seq)
    (unfinished : ∀ other ∈ replayed mode last rows mailbox, ¬ other.final)
    (alive : ∀ status, .transition status true ∉ mailbox)
    (later : mode = .stream → last < event.seq ∧ (∀ status terminal, .transition status terminal ∉ mailbox) ∧
      ∀ other ∈ replayed mode last rows mailbox, other.seq < event.seq) :
    replayed mode last rows (mailbox ++ [.logged event]) = replayed mode last rows mailbox ++ [event] := by
  induction rows generalizing last with
  | nil => exact heard_append unfinished alive later
  | cons row rows ih =>
    obtain ⟨first, ascending⟩ := List.pairwise_cons.mp ascending
    obtain ⟨row_goes, goes⟩ := List.forall_mem_cons.mp goes
    have runs : ¬ ((row.seq : Int) ≤ last ∧ row.final) := fun ⟨old, final⟩ => by
      have := row_goes final
      omega
    rw [replayed, replayed, if_neg runs, if_neg runs]
    rw [replayed, if_neg runs] at unfinished later
    split
    next old =>
      rw [if_pos old] at unfinished later
      exact ih ascending goes unfinished later
    next new =>
      rw [if_neg new] at unfinished later
      split
      next final =>
        rw [if_pos final] at unfinished
        exact absurd final (unfinished row (List.mem_singleton_self _))
      next open_still =>
        rw [if_neg open_still] at unfinished later
        rw [ih ascending (fun one member _ => ?_) (fun one member => unfinished one (List.mem_cons_of_mem _ member)) ?_]
        · rfl
        · intro stream
          obtain ⟨_, quiet, each⟩ := later stream
          exact ⟨by exact_mod_cast each row (List.mem_cons_self ..), quiet,
            fun one member => each one (List.mem_cons_of_mem _ member)⟩
        · exact_mod_cast first one.seq (List.mem_map_of_mem member)

/-- What the agent tells adds no logged event. -/
theorem heard_append_transition {mode : Mode} {last : Int} {mailbox : List Message} {status : Json} {terminal : Bool} :
    heard mode last (mailbox ++ [.transition status terminal]) = heard mode last mailbox := by
  induction mailbox generalizing last with
  | nil =>
    have one : heard mode last [.transition status terminal] = if terminal then [] else [] := rfl
    rw [List.nil_append, one, ite_self]
    rfl
  | cons message rest ih =>
    cases message with
    | logged event => rw [List.cons_append, heard, heard, ih, ih]
    | transition status terminal => rw [List.cons_append, heard, heard, ih]

theorem replayed_append_transition {mode : Mode} {last : Int} {rows : List Event} {mailbox : List Message}
    {status : Json} {terminal : Bool} :
    replayed mode last rows (mailbox ++ [.transition status terminal]) = replayed mode last rows mailbox := by
  induction rows generalizing last with
  | nil => exact heard_append_transition
  | cons row rows ih => rw [replayed, replayed, ih, ih]

/-! ## What the backlog owes -/

/-- Messages of events that the backlog has are passed over. -/
theorem heard_stale {last : Int} {events : List Event} (stale : ∀ event ∈ events, (event.seq : Int) ≤ last) :
    heard .stream last (events.map Message.logged) = [] := by
  induction events with
  | nil => rfl
  | cons event events ih =>
    obtain ⟨first, rest⟩ := List.forall_mem_cons.mp stale
    rw [List.map_cons, heard, if_pos ⟨rfl, first⟩, ih rest]

theorem replayed_stream {last : Int} {rows events : List Event} (ascending : (rows.map Event.seq).Pairwise (· < ·))
    (above : ∀ row ∈ rows, last < row.seq)
    (covered : ∀ event ∈ events, (event.seq : Int) ≤ last ∨ ∃ row ∈ rows, event.seq ≤ row.seq) :
    replayed .stream last rows (events.map Message.logged) = upToFinal rows := by
  induction rows generalizing last with
  | nil =>
    refine heard_stale fun event member => ?_
    obtain old | ⟨_, within, _⟩ := covered event member
    · exact old
    · exact absurd within List.not_mem_nil
  | cons row rows ih =>
    obtain ⟨first, ascending⟩ := List.pairwise_cons.mp ascending
    obtain ⟨row_above, _⟩ := List.forall_mem_cons.mp above
    have new : ¬ (row.seq : Int) ≤ last := by omega
    rw [replayed, upToFinal, if_neg (fun old => new old.1), if_neg new]
    split
    · rfl
    next =>
      rw [ih ascending (fun one member => ?_) fun event member => ?_]
      · exact_mod_cast first one.seq (List.mem_map_of_mem member)
      · obtain old | ⟨one, within, bound⟩ := covered event member
        · exact .inl (by omega)
        · obtain rfl | within := List.mem_cons.mp within
          · exact .inl (by exact_mod_cast bound)
          · exact .inr ⟨one, within, bound⟩

/-- Nothing is owed where a final event at or below the number has been passed. -/
theorem replayed_halted {mode : Mode} {last : Int} {rows : List Event} {mailbox : List Message}
    (ascending : (rows.map Event.seq).Pairwise (· < ·)) (halted : ∃ row ∈ rows, row.final ∧ (row.seq : Int) ≤ last) :
    replayed mode last rows mailbox = [] := by
  induction rows with
  | nil => obtain ⟨_, member, _⟩ := halted; exact absurd member List.not_mem_nil
  | cons row rows ih =>
    obtain ⟨first, ascending⟩ := List.pairwise_cons.mp ascending
    obtain ⟨stop, member, final, bound⟩ := halted
    have old : (row.seq : Int) ≤ last := by
      obtain rfl | member := List.mem_cons.mp member
      · exact bound
      · have := first stop.seq (List.mem_map_of_mem member)
        omega
    by_cases last_row : row.final
    · rw [replayed, if_pos ⟨old, last_row⟩]
    · rw [replayed, if_neg fun both => last_row both.2, if_pos old]
      refine ih ascending ?_
      obtain rfl | member := List.mem_cons.mp member
      · exact absurd final last_row
      · exact ⟨stop, member, final, bound⟩

theorem replayed_resumed {mode : Mode} {last : Int} {rows : List Event} (ascending : (rows.map Event.seq).Pairwise (· < ·))
    (goes : ∀ row ∈ rows, row.final → last < row.seq) :
    replayed mode last rows [] = upToFinal (rows.filter fun row => last < row.seq) := by
  induction rows generalizing last with
  | nil => rfl
  | cons row rows ih =>
    obtain ⟨first, ascending⟩ := List.pairwise_cons.mp ascending
    obtain ⟨row_goes, goes⟩ := List.forall_mem_cons.mp goes
    have runs : ¬ ((row.seq : Int) ≤ last ∧ row.final) := fun ⟨old, final⟩ => by
      have := row_goes final
      omega
    rw [replayed, if_neg runs]
    split
    next old =>
      rw [List.filter_cons_of_neg (by simpa using old)]
      exact ih ascending goes
    next new =>
      have later : ∀ one ∈ rows, (row.seq : Int) < one.seq := fun one member => by
        exact_mod_cast first one.seq (List.mem_map_of_mem member)
      have same : (rows.filter fun one => (row.seq : Int) < one.seq) = rows.filter fun one => last < one.seq := by
        refine List.filter_congr fun one member => ?_
        have := later one member
        exact decide_eq_decide.mpr ⟨fun _ => by omega, fun _ => this⟩
      rw [List.filter_cons_of_pos (by simpa using new), upToFinal]
      split
      · rfl
      · rw [ih ascending fun one member _ => later one member, same]

/-! ## Observed runs -/

/-- The events of the task around a connection: logged when it registers, logged until it reads
the backlog, the backlog, logged while it goes on; and all from the snapshot of its turn on, those
of the turn marked. -/
structure Trail where
  registered : List Event := []
  meanwhile : List Event := []
  backlog : List Event := []
  live : List Event := []
  since : List (Bool × Event) := []

structure Observed where
  system : System
  trail : Trail := {}

def Trail.published (trail : Trail) (phase : Phase) (own : Bool) (event : Event) : Trail where
  registered := trail.registered
  meanwhile := match phase with | .registered => trail.meanwhile ++ [event] | _ => trail.meanwhile
  backlog := trail.backlog
  live := if phase.reading then trail.live ++ [event] else trail.live
  since := match phase with | .opening => trail.since | _ => trail.since ++ [(own, event)]

def Trail.advanced (trail : Trail) (system : System) : Trail :=
  let rows := TaskEvents.backlog system.events system.conn.taskId
  match system.conn.phase, system.conn.mode with
  | .opening, .stream =>
    { trail with since := [(true, numbered system.events system.conn.taskId "task" system.conn.task false)] }
  | .opening, .resubscribe | .announced, _ => { trail with registered := rows }
  | .registered, _ => { trail with backlog := rows }
  | _, _ => trail

def Observed.step (opts : Options) (observed : Observed) (step : Step) : Observed where
  system := observed.system.step opts step
  trail :=
    let conn := observed.system.conn
    match step with
    | .publish taskId kind payload final =>
      if taskId = conn.taskId then
        observed.trail.published conn.phase false (numbered observed.system.events taskId kind payload final)
      else observed.trail
    | .pump =>
      match conn.phase, conn.pumping with
      | .opening, _ | _, [] => observed.trail
      | phase, publication :: _ => observed.trail.published phase true
          (numbered observed.system.events conn.taskId publication.kind publication.payload publication.final)
    | .advance => observed.trail.advanced observed.system
    | .sweep | .transition _ _ | .disconnect | .heartbeat => observed.trail

def observe (opts : Options) (first : System) (steps : List Step) : Observed :=
  steps.foldl (Observed.step opts) { system := first }

/-- What was logged from registration on, the events that were there first. -/
def Trail.logged (trail : Trail) : List Event := trail.registered ++ trail.meanwhile ++ trail.live

/-- The events above the start up to the final one. -/
def due (start : Int) (logged : List Event) : List Event :=
  upToFinal (logged.filter fun event => start < event.seq)

/-- The connection has nothing left to do. -/
def settled (conn : Connection) : Prop :=
  match conn.phase with
  | .done .final | .done .terminal => True
  | .following _ => conn.mailbox = []
  | _ => False

structure Delivered (observed : Observed) : Prop where
  /-- Once, and in the order of the numbers. -/
  ascending : (observed.system.conn.written.map Event.seq).Pairwise (· < ·)
  within : observed.system.conn.written <+: due observed.system.conn.start observed.trail.logged
  whole : settled observed.system.conn →
    observed.system.conn.written = due observed.system.conn.start observed.trail.logged
  /-- It ends by itself after a final event only. -/
  ended : (∃ ending, observed.system.conn.phase = .done ending ∧ (ending = .final ∨ ending = .terminal)) →
    ∃ event ∈ observed.trail.backlog ++ observed.trail.live, event.final

/-- The log is not overrun before the backlog is read. -/
def Retains (observed : Observed) (step : Step) : Prop :=
  match step, observed.system.conn.phase with
  | .advance, .registered =>
    (backlog observed.system.events observed.system.conn.taskId).filter
        (fun event => observed.system.conn.start < event.seq) =
      (observed.trail.registered ++ observed.trail.meanwhile).filter fun event =>
        observed.system.conn.start < event.seq
  | _, _ => True

/-- What a resubscribed connection relies on: (1) nothing is logged between its registration and
its reading; (2) the backlog owes it no "task" event, and where it ends on a final event that the
client has, nothing later is there or comes before it is closed; (3) no number is at or below the
one it resumes; (4) the agent tells no end before a final event is logged. -/
def Sound (observed : Observed) (step : Step) : Prop :=
  let conn := observed.system.conn
  let rows := backlog observed.system.events conn.taskId
  conn.mode = .resubscribe →
    match step, conn.phase with
    | .publish taskId _ _ _, .registered => taskId ≠ conn.taskId
    | .publish taskId _ _ _, phase => taskId = conn.taskId → phase.reading →
      conn.start < observed.system.events.last taskId + 1 ∧ ∀ row ∈ conn.pending, row.final → conn.last < row.seq
    | .advance, .registered => (∀ row ∈ due conn.start rows, row.kind ≠ "task") ∧
      ((∃ row ∈ rows, row.kind ≠ "task" ∧ row.final ∧ (row.seq : Int) ≤ conn.start) →
        ∀ row ∈ rows, (row.seq : Int) ≤ conn.start)
    | .transition _ true, phase => phase.riding →
      ∃ event ∈ observed.trail.backlog ++ observed.trail.live, event.final ∧ conn.start < event.seq
    | _, _ => True

/-! ## A connection that reads -/

/-- What is written and what is owed make up what is due. -/
structure Reading (conn : Connection) (logged : List Event) : Prop where
  settles : conn.written ++ conn.owed = due conn.start logged
  unfinished : ∀ event ∈ conn.written, ¬ event.final
  rows : ∀ row ∈ conn.pending, row ∈ logged
  sorted : (conn.pending.map Event.seq).Pairwise (· < ·)
  above : conn.mode = .stream → ∀ row ∈ conn.pending, conn.last < row.seq
  last : conn.mode = .stream → conn.last = conn.start ∨ ∃ event ∈ conn.written, conn.last = event.seq
  quiet : conn.mode = .stream → ∀ status terminal, .transition status terminal ∉ conn.mailbox
  alive : (∃ status, .transition status true ∈ conn.mailbox) → ∃ event ∈ conn.owed, event.final
  increasing : ((due conn.start logged).map Event.seq).Pairwise (· < ·)

theorem mem_due {start : Int} {logged : List Event} : ∀ event ∈ due start logged, event ∈ logged ∧ start < event.seq := by
  intro event member
  obtain ⟨within, above⟩ := List.mem_filter.mp ((upToFinal_begins _).mem member)
  exact ⟨within, by simpa using above⟩

theorem due_final {start : Int} {logged : List Event} (finished : ∃ event ∈ logged, event.final ∧ start < event.seq) :
    ∃ event ∈ due start logged, event.final := by
  obtain ⟨event, member, final, above⟩ := finished
  exact upToFinal_final ⟨event, List.mem_filter.mpr ⟨member, by simpa using above⟩, final⟩

theorem due_append_of_final {start : Int} {logged : List Event} (finished : ∃ event ∈ due start logged, event.final)
    (more : List Event) : due start (logged ++ more) = due start logged := by
  obtain ⟨event, member, final⟩ := finished
  rw [due, List.filter_append, upToFinal_of_final ⟨event, (upToFinal_begins _).mem member, final⟩, due]

theorem due_append {start : Int} {logged : List Event} {event : Event}
    (unfinished : ∀ other ∈ due start logged, ¬ other.final) (above : start < event.seq) :
    due start (logged ++ [event]) = due start logged ++ [event] := by
  have open_still : ∀ other ∈ logged.filter fun event => start < event.seq, ¬ other.final := by
    intro other member final
    obtain ⟨found, within, ended⟩ := upToFinal_final ⟨other, member, final⟩
    exact unfinished found within ended
  have one : upToFinal [event] = [event] := by
    rw [upToFinal]
    split <;> rfl
  rw [due, due, List.filter_append, upToFinal_of_open open_still, upToFinal_self open_still,
    List.filter_cons_of_pos (by simpa using above), List.filter_nil, one]

theorem owed_tell_final {conn : Connection} (message : Message) (finished : ∃ event ∈ conn.owed, event.final) :
    (conn.tell message).owed = conn.owed := by
  unfold Connection.owed at finished ⊢
  cases given : conn.phase <;> simp only [given, Connection.tell] at finished ⊢
  case opened | replaying => exact replayed_append_of_final _ finished
  case following => exact heard_append_of_final _ finished

theorem owed_tell_transition (conn : Connection) (status : Json) (terminal : Bool) :
    (conn.tell (.transition status terminal)).owed = conn.owed := by
  unfold Connection.owed
  cases given : conn.phase <;> simp only [given, Connection.tell]
  case opened | replaying => exact replayed_append_transition
  case following => exact heard_append_transition

theorem owed_tell {conn : Connection} {event : Event} (reads : conn.phase.reading)
    (ascending : (conn.pending.map Event.seq).Pairwise (· < ·))
    (goes : ∀ row ∈ conn.pending, row.final → conn.last < row.seq)
    (unfinished : ∀ other ∈ conn.owed, ¬ other.final)
    (alive : ∀ status, .transition status true ∉ conn.mailbox)
    (later : conn.mode = .stream → conn.last < event.seq ∧
      (∀ status terminal, .transition status terminal ∉ conn.mailbox) ∧ ∀ other ∈ conn.owed, other.seq < event.seq) :
    (conn.tell (.logged event)).owed = conn.owed ++ [event] := by
  unfold Connection.owed at unfinished later ⊢
  unfold Connection.pending at ascending goes
  cases given : conn.phase <;>
    simp only [given, Connection.tell] at ascending goes unfinished later ⊢
  case opened | replaying => exact replayed_append ascending goes unfinished alive later
  case following => exact heard_append unfinished alive later
  all_goals simp [given, Phase.reading] at reads

section Reading

variable {conn : Connection} {logged : List Event}

theorem Reading.owed_due (reading : Reading conn logged) : ∀ event ∈ conn.owed, event ∈ due conn.start logged :=
  fun _ member => reading.settles ▸ List.mem_append_right _ member

theorem Reading.owed_final (reading : Reading conn logged)
    (finished : ∃ event ∈ due conn.start logged, event.final) : ∃ event ∈ conn.owed, event.final := by
  obtain ⟨event, member, final⟩ := finished
  rw [← reading.settles] at member
  obtain member | member := List.mem_append.mp member
  · exact absurd final (reading.unfinished event member)
  · exact ⟨event, member, final⟩

theorem Reading.tell (reading : Reading conn logged) (reads : conn.phase.reading) {event : Event}
    (fresh : (∀ other ∈ due conn.start logged, ¬ other.final) →
      conn.start < event.seq ∧ (∀ other ∈ logged, other.seq < event.seq) ∧
        ∀ row ∈ conn.pending, row.final → conn.last < row.seq) :
    Reading (conn.tell (.logged event)) (logged ++ [event]) := by
  have quiet : conn.mode = .stream → ∀ status terminal,
      .transition status terminal ∉ (conn.tell (.logged event)).mailbox := by
    intro stream status terminal member
    obtain member | member := List.mem_append.mp member
    · exact reading.quiet stream status terminal member
    · simp at member
  have told : (∃ status, .transition status true ∈ (conn.tell (.logged event)).mailbox) →
      ∃ status, .transition status true ∈ conn.mailbox := by
    rintro ⟨status, member⟩
    obtain member | member := List.mem_append.mp member
    · exact ⟨status, member⟩
    · simp at member
  by_cases finished : ∃ other ∈ due conn.start logged, other.final
  · have same := owed_tell_final (.logged event) (reading.owed_final finished)
    have whole := due_append_of_final finished [event]
    exact {
      settles := by rw [same]; exact reading.settles.trans whole.symm
      unfinished := reading.unfinished
      rows := fun row member => List.mem_append_left _ (reading.rows row member)
      sorted := reading.sorted
      above := reading.above
      last := reading.last
      quiet
      alive := fun given => same ▸ reading.alive (told given)
      increasing := whole.symm ▸ reading.increasing }
  · have unfinished : ∀ other ∈ due conn.start logged, ¬ other.final := fun other member final =>
      finished ⟨other, member, final⟩
    obtain ⟨above, latest, goes⟩ := fresh unfinished
    have owes : (conn.tell (.logged event)).owed = conn.owed ++ [event] := by
      refine owed_tell reads reading.sorted goes (fun other member => unfinished other (reading.owed_due other member))
        (fun status member => ?_) fun stream => ⟨?_, reading.quiet stream, fun other member => ?_⟩
      · obtain ⟨other, owed, final⟩ := reading.alive ⟨status, member⟩
        exact unfinished other (reading.owed_due other owed) final
      · obtain same | ⟨other, member, same⟩ := reading.last stream
        · rw [same]
          exact above
        · have given : other ∈ due conn.start logged := reading.settles ▸ List.mem_append_left _ member
          rw [same]
          exact_mod_cast latest other (mem_due other given).1
      · exact latest other (mem_due other (reading.owed_due other member)).1
    have whole := due_append unfinished above
    exact {
      settles := by
        rw [owes]
        refine Eq.trans ?_ whole.symm
        rw [← reading.settles, List.append_assoc]
        rfl
      unfinished := reading.unfinished
      rows := fun row member => List.mem_append_left _ (reading.rows row member)
      sorted := reading.sorted
      above := reading.above
      last := reading.last
      quiet
      alive := fun given => by
        obtain ⟨other, owed, final⟩ := reading.alive (told given)
        exact absurd final (unfinished other (reading.owed_due other owed))
      increasing := by
        refine Eq.subst (motive := fun events : List Event => (events.map Event.seq).Pairwise (· < ·)) whole.symm ?_
        rw [List.map_append, List.pairwise_append]
        refine ⟨reading.increasing, List.pairwise_singleton .., ?_⟩
        rintro number member other single
        obtain rfl := List.mem_singleton.mp single
        obtain ⟨before, within, rfl⟩ := List.mem_map.mp member
        exact latest before (mem_due before within).1 }

theorem Reading.transition (reading : Reading conn logged) (status : Json) {terminal : Bool}
    (resubscribed : conn.mode = .resubscribe)
    (told : terminal → ∃ event ∈ due conn.start logged, event.final) :
    Reading (conn.tell (.transition status terminal)) logged := by
  have same := owed_tell_transition conn status terminal
  exact {
    settles := by rw [same]; exact reading.settles
    unfinished := reading.unfinished
    rows := reading.rows
    sorted := reading.sorted
    above := reading.above
    last := reading.last
    quiet := fun stream => by rw [show conn.mode = .stream from stream] at resubscribed; cases resubscribed
    alive := by
      rintro ⟨other, member⟩
      rw [same]
      obtain member | member := List.mem_append.mp member
      · exact reading.alive ⟨other, member⟩
      · cases List.mem_singleton.mp member
        exact reading.owed_final (told rfl)
    increasing := reading.increasing }

/-- What the client has when the connection is over. -/
structure Over (conn : Connection) (ending : Ending) (logged : List Event) : Prop where
  within : conn.written <+: due conn.start logged
  whole : ending ≠ .closed → conn.written = due conn.start logged
  ended : ending = .final ∨ ending = .terminal → ∃ event ∈ logged, event.final
  increasing : ((due conn.start logged).map Event.seq).Pairwise (· < ·)

inductive After (conn : Connection) (logged : List Event) : Prop where
  | reading (reads : conn.phase.reading) (reading : Reading conn logged)
  | ceased (ending : Ending) (done : conn.phase = .done ending) (ceased : Over conn ending logged)

theorem Reading.closed (reading : Reading conn logged) : After (conn.close .closed) logged :=
  .ceased .closed rfl ⟨⟨conn.owed, reading.settles⟩, fun other => absurd rfl other, nofun, reading.increasing⟩

theorem Reading.stopped (reading : Reading conn logged) (none : conn.owed = []) (ending : Ending)
    (ended : ending = .final ∨ ending = .terminal → ∃ event ∈ logged, event.final) :
    After (conn.close ending) logged := by
  have whole : conn.written = due conn.start logged := by
    rw [← reading.settles, none, List.append_nil]
  exact .ceased ending rfl ⟨whole ▸ List.prefix_refl _, fun _ => whole, ended, reading.increasing⟩

/-- A step that only moves what is owed to what is written. -/
theorem Reading.next (reading : Reading conn logged) {next : Connection} (mode : next.mode = conn.mode)
    (start : next.start = conn.start) (moved : next.written ++ next.owed = conn.written ++ conn.owed)
    (unfinished : ∀ event ∈ next.written, ¬ event.final) (pending : next.pending <:+ conn.pending)
    (mailbox : next.mailbox <:+ conn.mailbox)
    (above : conn.mode = .stream → ∀ row ∈ next.pending, next.last < row.seq)
    (last : conn.mode = .stream → next.last = conn.start ∨ ∃ event ∈ next.written, next.last = event.seq) :
    Reading next logged where
  settles := by rw [moved, start]; exact reading.settles
  unfinished := unfinished
  rows row member := reading.rows row (pending.mem member)
  sorted := reading.sorted.sublist (pending.sublist.map Event.seq)
  above stream := above (mode ▸ stream)
  last stream := start ▸ last (mode ▸ stream)
  quiet stream status terminal member := reading.quiet (mode ▸ stream) status terminal (mailbox.mem member)
  alive := by
    rintro ⟨status, member⟩
    obtain ⟨event, owed, final⟩ := reading.alive ⟨status, mailbox.mem member⟩
    have given : event ∈ next.written ++ next.owed := moved ▸ List.mem_append_right _ owed
    obtain given | given := List.mem_append.mp given
    · exact absurd final (unfinished event given)
    · exact ⟨event, given, final⟩
  increasing := start ▸ reading.increasing

theorem written_append (conn : Connection) (frame : Frame) :
    (conn.frames ++ [frame]).filterMap Frame.logged? = conn.written ++ frame.logged?.toList := by
  rw [Connection.written, List.filterMap_append]
  cases frame <;> rfl

theorem Reading.replay (reading : Reading conn logged) {row : Event} {rows : List Event}
    (phase : conn.phase = .replaying (row :: rows)) : After (conn.replay row rows) logged := by
  have owed : conn.owed = replayed conn.mode conn.last (row :: rows) conn.mailbox := by rw [Connection.owed, phase]
  have pending : conn.pending = row :: rows := by rw [Connection.pending, phase]
  have sorted := reading.sorted
  rw [pending] at sorted
  obtain ⟨first, _⟩ := List.pairwise_cons.mp sorted
  have listed : row ∈ logged := reading.rows row (pending ▸ List.mem_cons_self ..)
  unfold Connection.replay
  split
  next halts =>
    exact reading.stopped (by rw [owed, replayed, if_pos halts]) .final fun _ => ⟨row, listed, halts.2⟩
  next goes =>
    split
    next old =>
      refine .reading rfl (reading.next rfl rfl ?_ reading.unfinished (pending ▸ List.suffix_cons row rows)
        (List.suffix_refl _) (fun stream one member => ?_) reading.last)
      · rw [owed, replayed, if_neg goes, if_pos old]
        rfl
      · exact reading.above stream one (pending ▸ List.mem_cons_of_mem _ member)
    next new =>
      unfold Connection.chunk
      split
      next =>
        split
        next final =>
          have whole : conn.written ++ [row] = due conn.start logged := by
            rw [← reading.settles, owed, replayed, if_neg goes, if_neg new, if_pos final]
          have written : ({ conn with frames := conn.frames ++ [.event row] : Connection }.close .final).written =
              conn.written ++ [row] := written_append conn (.event row)
          exact .ceased .final rfl ⟨written ▸ whole ▸ List.prefix_refl _, fun _ => written.trans whole,
            fun _ => ⟨row, listed, final⟩, reading.increasing⟩
        next more =>
          refine .reading rfl (reading.next rfl rfl ?_ ?_ (pending ▸ List.suffix_cons row rows) (List.suffix_refl _)
            (fun _ one member => ?_) fun _ => .inr ⟨row, ?_, rfl⟩)
          · rw [owed, replayed, if_neg goes, if_neg new, if_neg more]
            simp only [Connection.written, Connection.owed, written_append]
            exact List.append_assoc ..
          · simp only [Connection.written, written_append]
            exact List.forall_mem_append.mpr ⟨reading.unfinished, List.forall_mem_singleton.mpr more⟩
          · have later := first one.seq (List.mem_map_of_mem member)
            show (row.seq : Int) < one.seq
            exact_mod_cast later
          · simp only [Connection.written, written_append]
            exact List.mem_append_right _ (List.mem_singleton_self row)
      next => exact reading.closed

theorem Reading.follow (reading : Reading conn logged) {idle : Nat} {message : Message} {rest : List Message}
    (phase : conn.phase = .following idle) (mailbox : conn.mailbox = message :: rest) :
    After (conn.follow message rest idle) logged := by
  have owed : conn.owed = heard conn.mode conn.last (message :: rest) := by rw [Connection.owed, phase, ← mailbox]
  have within : rest <:+ conn.mailbox := mailbox ▸ List.suffix_cons message rest
  have owes : ∀ event ∈ conn.owed, event ∈ logged := fun event member => (mem_due event (reading.owed_due event member)).1
  unfold Connection.follow
  cases message with
  | logged event =>
    dsimp only
    split
    next stale =>
      refine .reading rfl (reading.next rfl rfl ?_ reading.unfinished List.nil_suffix within
        (fun _ row member => ?_) reading.last)
      · rw [owed, heard, if_pos stale]
        rfl
      · exact absurd member List.not_mem_nil
    next fresh =>
      unfold Connection.chunk
      split
      next =>
        split
        next final =>
          have whole : conn.written ++ [event] = due conn.start logged := by
            rw [← reading.settles, owed, heard, if_neg fresh, if_pos final]
          have written : ({ conn with mailbox := rest, frames := conn.frames ++ [.event event] : Connection }.close
              .final).written = conn.written ++ [event] := written_append conn (.event event)
          refine .ceased .final rfl ⟨written ▸ whole ▸ List.prefix_refl _, fun _ => written.trans whole, fun _ => ?_,
            reading.increasing⟩
          exact ⟨event, owes event (by rw [owed, heard, if_neg fresh, if_pos final]; simp), final⟩
        next more =>
          refine .reading rfl (reading.next rfl rfl ?_ ?_ List.nil_suffix within
            (fun _ row member => ?_) fun _ => .inr ⟨event, ?_, rfl⟩)
          · rw [owed, heard, if_neg fresh, if_neg more]
            simp only [Connection.written, Connection.owed, written_append]
            exact List.append_assoc ..
          · simp only [Connection.written, written_append]
            exact List.forall_mem_append.mpr ⟨reading.unfinished, List.forall_mem_singleton.mpr more⟩
          · exact absurd member List.not_mem_nil
          · simp only [Connection.written, written_append]
            exact List.mem_append_right _ (List.mem_singleton_self event)
      next => exact reading.closed
  | transition status terminal =>
    have resubscribed : conn.mode ≠ .stream := fun stream =>
      reading.quiet stream status terminal (mailbox ▸ List.mem_cons_self ..)
    have alive : ¬ terminal := by
      rintro rfl
      obtain ⟨event, member, _⟩ := reading.alive ⟨status, mailbox ▸ List.mem_cons_self ..⟩
      rw [owed, heard, if_pos rfl] at member
      exact List.not_mem_nil member
    dsimp only
    unfold Connection.chunk
    split
    next =>
      refine .reading rfl (reading.next rfl rfl ?_ ?_ List.nil_suffix within
        (fun stream => absurd stream resubscribed) fun stream => absurd stream resubscribed)
      · rw [owed, heard, if_neg alive]
        simp only [Connection.written, Connection.owed, written_append]
        exact congrArg (· ++ _) (List.append_nil _)
      · simp only [Connection.written, written_append]
        exact List.forall_mem_append.mpr ⟨reading.unfinished, fun _ member => absurd member List.not_mem_nil⟩
    next => exact reading.closed

/-- A step that writes nothing. -/
theorem Reading.moves (reading : Reading conn logged) {phase : Phase} (reads : phase.reading)
    (owed : { conn with phase }.owed = conn.owed) (pending : { conn with phase }.pending <:+ conn.pending) :
    After { conn with phase } logged :=
  .reading reads (reading.next rfl rfl (congrArg (conn.written ++ ·) owed) reading.unfinished pending
    (List.suffix_refl _) (fun stream row member => reading.above stream row (pending.mem member)) reading.last)

theorem Reading.heartbeat (reading : Reading conn logged) {idle : Nat} (opts : Options)
    (phase : conn.phase = .following idle) (mailbox : conn.mailbox = []) : After (conn.heartbeat opts idle) logged := by
  have owed : conn.owed = [] := by rw [Connection.owed, phase, mailbox]; rfl
  unfold Connection.heartbeat
  dsimp only
  split
  next => exact reading.stopped owed .idle nofun
  next =>
    split
    next => exact reading.moves rfl (by rw [owed, Connection.owed, mailbox]; rfl) List.nil_suffix
    next => exact reading.closed

end Reading

/-! ## Numbers of a connection that reads -/

/-- The newest logged event is the newest of the task, unless a final event is due or the numbers
below the start are given again. -/
inductive Counted (state : State) (current : List Event) (taskId : String) (start : Int) (logged : List Event) : Prop where
  | finished (final : ∃ event ∈ logged, event.final ∧ start < event.seq)
  | latest (bound : ∀ event ∈ logged, event.seq ≤ state.last taskId)
      (newest : logged = [] ∨ logged.getLast? = current.getLast?)
  | restarted (forgotten : state.seqs taskId = none) (start : 1 ≤ start)

section Counted

variable {trace : Trace} {current : String → List Event} {taskId : String} {start : Int} {logged : List Event}

theorem newest_seq {state : State} {given current : List Event} {event : Event} (kept : Kept state given current taskId)
    (newest : current.getLast? = some event) : event.seq = state.last taskId ∧ 1 ≤ event.seq := by
  obtain ⟨front, rfl⟩ := List.getLast?_eq_some_iff.mp newest
  have consecutive := kept.consecutive
  have length := kept.length
  rw [List.length_append, List.length_singleton] at length
  rw [← length, List.map_append, List.range'_1_concat] at consecutive
  have last := (List.append_inj' consecutive rfl).2
  have same : event.seq = 1 + front.length := by simpa using last
  omega

theorem Counted.sweep (counted : Counted trace.state (current taskId) taskId start logged)
    (lawful : Lawful trace current) :
    Counted (sweep trace.state) (if trace.state.expired = some taskId then [] else current taskId) taskId start
      logged := by
  have kept := lawful.kept taskId
  cases counted with
  | finished final => exact .finished final
  | latest bound newest =>
    split
    next expired =>
      obtain ⟨seqs, _, _⟩ := sweep_expired expired
      obtain ⟨⟨event, member, numbered, final⟩, _⟩ := lawful.expired expired
      obtain rfl | newest := newest
      · exact .latest (fun _ member => absurd member List.not_mem_nil) (.inl rfl)
      · have some_left : current taskId ≠ [] := List.ne_nil_of_mem member
        obtain ⟨last, found⟩ : ∃ last, (current taskId).getLast? = some last :=
          ⟨_, List.getLast?_eq_some_getLast some_left⟩
        obtain ⟨same, positive⟩ := newest_seq kept found
        have distinct : ((current taskId).map Event.seq).Nodup := kept.consecutive ▸ List.nodup_range'
        have is_last : event = last :=
          List.inj_on_of_nodup_map distinct member (List.mem_of_getLast? found) (numbered.trans same.symm)
        have within : last ∈ logged := List.mem_of_getLast? (newest.trans found)
        by_cases above : start < last.seq
        · exact .finished ⟨last, within, is_last ▸ final, above⟩
        · exact .restarted (by rw [seqs, Function.update_self]) (by omega)
    next other =>
      have seqs : (TaskEvents.sweep trace.state).seqs taskId = trace.state.seqs taskId := by
        cases expired : trace.state.expired with
        | none => rw [(sweep_idle expired).1]
        | some swept =>
          have different : taskId ≠ swept := by rintro rfl; exact other expired
          rw [(sweep_expired expired).1, Function.update_of_ne different]
      exact .latest (by rw [State.last, seqs]; exact bound) newest
  | restarted forgotten start =>
    refine .restarted ?_ start
    cases expired : trace.state.expired with
    | none => rw [(sweep_idle expired).1, forgotten]
    | some swept =>
      rw [(sweep_expired expired).1]
      by_cases same : taskId = swept
      · rw [same, Function.update_self]
      · rw [Function.update_of_ne same, forgotten]

/-- What the next number means for what is due. -/
theorem Counted.fresh (counted : Counted trace.state (current taskId) taskId start logged)
    (unfinished : ∀ event ∈ due start logged, ¬ event.final) (above : start < trace.state.last taskId + 1) :
    ∀ event ∈ logged, event.seq < trace.state.last taskId + 1 := by
  cases counted with
  | finished final =>
    obtain ⟨event, member, ended⟩ := due_final final
    exact absurd ended (unfinished event member)
  | latest bound newest => exact fun event member => Nat.lt_succ_of_le (bound event member)
  | restarted forgotten start =>
    rw [State.last, forgotten] at above
    simp at above
    omega

theorem Counted.publish (counted : Counted trace.state (current taskId) taskId start logged) (kind : String)
    (payload : Json) (final : Bool) (above : start < trace.state.last taskId + 1) :
    Counted (publish trace.state taskId kind payload final)
      (current taskId ++ [numbered trace.state taskId kind payload final]) taskId start
      (logged ++ [numbered trace.state taskId kind payload final]) := by
  cases counted with
  | finished final =>
    obtain ⟨event, member, facts⟩ := final
    exact .finished ⟨event, List.mem_append_left _ member, facts⟩
  | latest bound newest =>
    refine .latest (fun event member => ?_) (.inr ?_)
    · rw [last_publish, if_pos rfl]
      obtain member | member := List.mem_append.mp member
      · exact Nat.le_succ_of_le (bound event member)
      · rw [List.mem_singleton.mp member]
        exact Nat.le_refl _
    · rw [List.getLast?_concat, List.getLast?_concat]
  | restarted forgotten start =>
    rw [State.last, forgotten] at above
    simp at above
    omega

theorem Counted.other (counted : Counted trace.state (current taskId) taskId start logged) {other kind : String}
    {payload : Json} {final : Bool} (different : taskId ≠ other) :
    Counted (TaskEvents.publish trace.state other kind payload final) (current taskId) taskId start logged := by
  have seqs : (TaskEvents.publish trace.state other kind payload final).seqs taskId = trace.state.seqs taskId := by
    rw [publish_seqs, Function.update_of_ne different]
  cases counted with
  | finished final => exact .finished final
  | latest bound newest => exact .latest (by rw [State.last, seqs]; exact bound) newest
  | restarted forgotten start => exact .restarted (seqs.trans forgotten) start

end Counted

end AshA2A.A2ATransport.SSE
