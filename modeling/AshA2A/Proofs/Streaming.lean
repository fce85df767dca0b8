import AshA2A.Proofs.Delivery

/-! The stages of a connection over whole runs: each logged event above its start is written once
and in order, and a turn that is streamed ends with its own final event. -/

namespace AshA2A.A2ATransport.SSE

open TaskEvents

/-! ## The stages of a connection -/

/-- The events that count once the backlog is read. -/
def Trail.told (trail : Trail) : List Event := trail.backlog ++ trail.live

inductive Stage (observed : Observed) (current : List Event) : Prop where
  | before (phase : observed.system.conn.phase = .opening ∨ observed.system.conn.phase = .announced)
      (written : observed.system.conn.written = []) (mailbox : observed.system.conn.mailbox = [])
      (last : observed.system.conn.last = observed.system.conn.start) (live : observed.trail.live = [])
      (meanwhile : observed.trail.meanwhile = [])
  | registered (phase : observed.system.conn.phase = .registered) (written : observed.system.conn.written = [])
      (mailbox : observed.system.conn.mailbox = observed.trail.meanwhile.map Message.logged)
      (last : observed.system.conn.last = observed.system.conn.start) (live : observed.trail.live = [])
      (positive : ∀ event ∈ observed.trail.meanwhile, 1 ≤ event.seq)
      (alone : observed.system.conn.mode = .resubscribe → observed.trail.meanwhile = [])
  | refused (phase : observed.system.conn.phase = .refused) (written : observed.system.conn.written = [])
  | reading (reads : observed.system.conn.phase.reading)
      (reading : Reading observed.system.conn observed.trail.told)
      (counted : Counted observed.system.events current observed.system.conn.taskId observed.system.conn.start
        observed.trail.told)
  | ceased (ending : Ending) (done : observed.system.conn.phase = .done ending)
      (ceased : Over observed.system.conn ending observed.trail.told)

structure Stands (observed : Observed) (trace : Trace) (current : String → List Event) : Prop where
  events : observed.system.events = trace.state
  lawful : Lawful trace current
  stage : Stage observed (current observed.system.conn.taskId)
  stream : observed.system.conn.mode = .stream → observed.system.conn.start = 0
  resubscribed : observed.system.conn.mode = .resubscribe → observed.system.conn.pumping = []

/-- All that was logged since registration is in the backlog that a streaming connection reads. -/
def Covers (observed : Observed) (step : Step) : Prop :=
  match step, observed.system.conn.phase with
  | .advance, .registered => observed.system.conn.mode = .stream → ∀ event ∈ observed.trail.meanwhile,
      event ∈ backlog observed.system.events observed.system.conn.taskId
  | _, _ => True

/-- A publication as the connection and the trail see it. -/
def Observed.publish (observed : Observed) (own : Bool) (taskId kind : String) (payload : Json) (final : Bool) : Observed where
  system := observed.system.publish taskId kind payload final
  trail :=
    if taskId = observed.system.conn.taskId then
      observed.trail.published observed.system.conn.phase own (numbered observed.system.events taskId kind payload final)
    else observed.trail

section Publish

variable {observed : Observed} {trace : Trace} {current : String → List Event} {own : Bool} {kind : String}
  {payload : Json} {final : Bool}

theorem publish_conn (observed : Observed) (own : Bool) (taskId kind : String) (payload : Json) (final : Bool) :
    (observed.publish own taskId kind payload final).system.conn.taskId = observed.system.conn.taskId ∧
      (observed.publish own taskId kind payload final).system.conn.mode = observed.system.conn.mode ∧
      (observed.publish own taskId kind payload final).system.conn.start = observed.system.conn.start ∧
      (observed.publish own taskId kind payload final).system.conn.pumping = observed.system.conn.pumping := by
  unfold Observed.publish System.publish
  dsimp only
  split <;> exact ⟨rfl, rfl, rfl, rfl⟩

theorem publish_listening {taskId : String} (same : taskId = observed.system.conn.taskId)
    (listening : observed.system.conn.phase.listening) :
    (observed.publish own taskId kind payload final).system.conn =
      observed.system.conn.tell (.logged (numbered observed.system.events taskId kind payload final)) :=
  if_pos ⟨same, listening⟩

theorem publish_deaf {taskId : String}
    (deaf : taskId = observed.system.conn.taskId → ¬ observed.system.conn.phase.listening) :
    (observed.publish own taskId kind payload final).system.conn = observed.system.conn :=
  if_neg fun both => deaf both.1 both.2

theorem published_trail {taskId : String} (same : taskId = observed.system.conn.taskId) :
    (observed.publish own taskId kind payload final).trail = observed.trail.published observed.system.conn.phase own
      (numbered observed.system.events taskId kind payload final) := if_pos same

theorem published_told {trail : Trail} {phase : Phase} {event : Event} (reads : phase.reading) :
    (trail.published phase own event).told = trail.told ++ [event] := by
  simp only [Trail.told, Trail.published, if_pos reads, List.append_assoc]

theorem published_silent {trail : Trail} {phase : Phase} {event : Event} (silent : ¬ phase.reading) :
    (trail.published phase own event).told = trail.told ∧ (trail.published phase own event).live = trail.live := by
  simp only [Trail.told, Trail.published, if_neg silent, and_self]

theorem listening_of_reading {phase : Phase} (reads : phase.reading) : phase.listening := by
  cases phase <;> first | rfl | cases reads

theorem Stage.publish (stands : Stands observed trace current)
    (alone : observed.system.conn.mode = .resubscribe → observed.system.conn.phase ≠ .registered)
    (above : observed.system.conn.mode = .resubscribe → observed.system.conn.phase.reading →
      observed.system.conn.start < observed.system.events.last observed.system.conn.taskId + 1 ∧
        ∀ row ∈ observed.system.conn.pending, row.final → observed.system.conn.last < row.seq) :
    Stage (observed.publish own observed.system.conn.taskId kind payload final)
      (current observed.system.conn.taskId ++ [numbered trace.state observed.system.conn.taskId kind payload final]) := by
  obtain ⟨taskId, _, start, _⟩ := publish_conn observed own observed.system.conn.taskId kind payload final
  have trail : (observed.publish own observed.system.conn.taskId kind payload final).trail = _ := published_trail rfl
  cases stands.stage with
  | before phase written mailbox last live meanwhile =>
    have conn : (observed.publish own observed.system.conn.taskId kind payload final).system.conn = _ :=
      publish_deaf fun _ listens => by
        obtain phase | phase := phase <;> rw [phase] at listens <;> cases listens
    have silent : ¬ observed.system.conn.phase.reading := by
      obtain phase | phase := phase <;> rw [phase] <;> nofun
    refine .before (by rw [conn]; exact phase) (by rw [conn]; exact written) (by rw [conn]; exact mailbox) (by rw [conn]; exact last) ?_ ?_
    · rw [trail, (published_silent silent).2, live]
    · rw [trail]
      obtain phase | phase := phase <;> simp only [Trail.published, phase, meanwhile]
  | registered phase written mailbox last live positive stands_alone =>
    have conn : (observed.publish own observed.system.conn.taskId kind payload final).system.conn = _ :=
      publish_listening rfl (by rw [phase]; rfl)
    have silent : ¬ observed.system.conn.phase.reading := by rw [phase]; nofun
    have meanwhile : (observed.publish own observed.system.conn.taskId kind payload final).trail.meanwhile =
        observed.trail.meanwhile ++ [numbered observed.system.events observed.system.conn.taskId kind payload final] := by
      rw [trail]
      simp only [Trail.published, phase]
    refine .registered (by rw [conn]; exact phase) (by rw [conn]; exact written) ?_ (by rw [conn]; exact last) ?_ ?_ fun resubscribed => ?_
    · rw [conn, meanwhile, List.map_append, ← mailbox]
      rfl
    · rw [trail, (published_silent silent).2, live]
    · rw [meanwhile]
      exact List.forall_mem_append.mpr ⟨positive, List.forall_mem_singleton.mpr (Nat.le_add_left ..)⟩
    · rw [conn] at resubscribed
      exact absurd phase (alone resubscribed)
  | refused phase written =>
    have conn : (observed.publish own observed.system.conn.taskId kind payload final).system.conn = _ :=
      publish_deaf fun _ listens => by rw [phase] at listens; cases listens
    exact .refused (by rw [conn]; exact phase) (by rw [conn]; exact written)
  | reading reads reading counted =>
    have conn : (observed.publish own observed.system.conn.taskId kind payload final).system.conn = _ :=
      publish_listening rfl (listening_of_reading reads)
    have told : (observed.publish own observed.system.conn.taskId kind payload final).trail.told = _ :=
      (congrArg Trail.told trail).trans (published_told reads)
    have facts : observed.system.conn.start < trace.state.last observed.system.conn.taskId + 1 ∧
        ∀ row ∈ observed.system.conn.pending, row.final → observed.system.conn.last < row.seq := by
      cases mode : observed.system.conn.mode with
      | stream =>
        have start := stands.stream mode
        exact ⟨by omega, fun row member _ => reading.above mode row member⟩
      | resubscribe => exact stands.events ▸ above mode reads
    rw [stands.events] at counted
    refine .reading (by rw [conn]; exact reads) ?_ ?_
    · rw [conn, told]
      refine reading.tell reads fun unfinished => ⟨?_, ?_, facts.2⟩
      · rw [stands.events]
        exact_mod_cast facts.1
      · rw [stands.events]
        exact counted.fresh unfinished facts.1
    · rw [told, taskId, start]
      show Counted (TaskEvents.publish observed.system.events _ _ _ _) _ _ _ _
      rw [stands.events]
      exact counted.publish kind payload final facts.1
  | ceased ending done ceased =>
    have conn : (observed.publish own observed.system.conn.taskId kind payload final).system.conn = _ :=
      publish_deaf fun _ listens => by rw [done] at listens; cases listens
    have silent : ¬ observed.system.conn.phase.reading := by rw [done]; nofun
    have told : (observed.publish own observed.system.conn.taskId kind payload final).trail.told = _ :=
      (congrArg Trail.told trail).trans (published_silent silent).1
    exact .ceased ending (by rw [conn]; exact done) (by rw [conn, told]; exact ceased)

theorem Stage.other (stands : Stands observed trace current) {taskId : String}
    (different : taskId ≠ observed.system.conn.taskId) :
    Stage (observed.publish own taskId kind payload final) (current observed.system.conn.taskId) := by
  have conn : (observed.publish own taskId kind payload final).system.conn = _ :=
    publish_deaf fun same => absurd same different
  have trail : (observed.publish own taskId kind payload final).trail = observed.trail := if_neg different
  cases stands.stage with
  | before phase written mailbox last live meanwhile =>
    exact .before (conn ▸ phase) (conn ▸ written) (conn ▸ mailbox) (conn ▸ last) (trail ▸ live) (trail ▸ meanwhile)
  | registered phase written mailbox last live positive alone =>
    exact .registered (conn ▸ phase) (conn ▸ written) (by rw [conn, trail]; exact mailbox) (conn ▸ last) (trail ▸ live)
      (trail ▸ positive) (by rw [conn, trail]; exact alone)
  | refused phase written => exact .refused (conn ▸ phase) (conn ▸ written)
  | reading reads reading counted =>
    refine .reading (conn ▸ reads) (by rw [conn, trail]; exact reading) ?_
    rw [conn, trail]
    rw [stands.events] at counted
    show Counted (TaskEvents.publish observed.system.events _ _ _ _) _ _ _ _
    rw [stands.events]
    exact counted.other (Ne.symm different)
  | ceased ending done ceased => exact .ceased ending (conn ▸ done) (by rw [conn, trail]; exact ceased)

/-- A publication keeps the stage where the connection relies on nothing else. -/
theorem Stands.publish (stands : Stands observed trace current) (taskId : String)
    (alone : observed.system.conn.mode = .resubscribe → taskId = observed.system.conn.taskId →
      observed.system.conn.phase ≠ .registered)
    (above : observed.system.conn.mode = .resubscribe → taskId = observed.system.conn.taskId →
      observed.system.conn.phase.reading →
      observed.system.conn.start < observed.system.events.last observed.system.conn.taskId + 1 ∧
        ∀ row ∈ observed.system.conn.pending, row.final → observed.system.conn.last < row.seq) :
    ∃ trace current, Stands (observed.publish own taskId kind payload final) trace current := by
  refine ⟨_, _, ?_, stands.lawful.publish taskId kind payload final, ?_, ?_, ?_⟩
  · show TaskEvents.publish observed.system.events taskId kind payload final = _
    rw [stands.events]
    rfl
  · rw [(publish_conn observed own taskId kind payload final).1]
    by_cases same : taskId = observed.system.conn.taskId
    · subst same
      rw [Function.update_self]
      exact .publish stands (fun mode => alone mode rfl) fun mode => above mode rfl
    · rw [Function.update_of_ne (Ne.symm same)]
      exact .other stands same
  · obtain ⟨_, mode, start, _⟩ := publish_conn observed own taskId kind payload final
    rw [mode, start]
    exact stands.stream
  · obtain ⟨_, mode, _, pumping⟩ := publish_conn observed own taskId kind payload final
    rw [mode, pumping]
    exact stands.resubscribed

end Publish

/-! ## Reading the backlog -/

theorem upToFinal_filter (events : List Event) (keep : Event → Bool) (kept : ∀ event ∈ upToFinal events, keep event) :
    upToFinal (events.filter keep) = upToFinal events := by
  induction events with
  | nil => rfl
  | cons event events ih =>
    rw [upToFinal] at kept
    have first : keep event := by
      split at kept
      · exact kept event (List.mem_singleton_self _)
      · exact kept event (List.mem_cons_self ..)
    rw [List.filter_cons_of_pos first, upToFinal, upToFinal]
    split
    · rfl
    next more =>
      rw [if_neg more] at kept
      rw [ih fun one member => kept one (List.mem_cons_of_mem _ member)]

section Backlog

variable {state : State} {given current : List Event} {taskId : String}

theorem rows_ascending (kept : Kept state given current taskId) :
    ((backlog state taskId).map Event.seq).Pairwise (· < ·) := by
  rw [backlog, kept.rows, List.map_drop, kept.consecutive]
  exact List.Pairwise.sublist (List.drop_sublist ..) List.pairwise_lt_range'

theorem rows_current (kept : Kept state given current taskId) : ∀ row ∈ backlog state taskId, row ∈ current := by
  rw [backlog, kept.rows]
  exact fun row member => List.mem_of_mem_drop member

theorem rows_positive (kept : Kept state given current taskId) : ∀ row ∈ backlog state taskId, 1 ≤ row.seq := by
  intro row member
  have within : row.seq ∈ List.range' 1 (state.last taskId) :=
    kept.consecutive ▸ List.mem_map_of_mem (rows_current kept row member)
  exact (List.mem_range'_1.mp within).1

theorem counted_rows (kept : Kept state given current taskId) (start : Int) :
    Counted state current taskId start (backlog state taskId) := by
  refine .latest (fun event member => kept.seq_le event (rows_current kept event member)) ?_
  rw [backlog, kept.rows, List.getLast?_drop]
  split
  next short => exact .inl (List.drop_eq_nil_of_le short)
  next => exact .inr rfl

theorem due_ascending {start : Int} {events : List Event} (ascending : (events.map Event.seq).Pairwise (· < ·)) :
    ((due start events).map Event.seq).Pairwise (· < ·) :=
  ascending.sublist (((upToFinal_begins _).sublist.trans List.filter_sublist).map Event.seq)

theorem quiet_of_logged {events : List Event} {status : Json} {terminal : Bool} :
    .transition status terminal ∉ events.map Message.logged := by
  intro member
  obtain ⟨_, _, same⟩ := List.mem_map.mp member
  cases same

theorem Reading.stream {conn : Connection} {events : List Event} (mode : conn.mode = .stream) (start : conn.start = 0)
    (written : conn.written = []) (last : conn.last = conn.start) (mailbox : conn.mailbox = events.map Message.logged)
    (kept : Kept state given current taskId) (covered : ∀ event ∈ events, event ∈ backlog state taskId) :
    Reading { conn with phase := .replaying (backlog state taskId) } (backlog state taskId) := by
  have above : ∀ row ∈ backlog state taskId, conn.last < row.seq := by
    intro row member
    have := rows_positive kept row member
    omega
  have whole : due conn.start (backlog state taskId) = upToFinal (backlog state taskId) := by
    rw [due, List.filter_eq_self.mpr fun row member => by simpa using last ▸ above row member]
  have owes : replayed .stream conn.last (backlog state taskId) conn.mailbox = upToFinal (backlog state taskId) := by
    rw [mailbox]
    exact replayed_stream (rows_ascending kept) above fun event member => .inr ⟨event, covered event member, le_refl _⟩
  exact {
    settles := by
      show conn.written ++ replayed conn.mode conn.last (backlog state taskId) conn.mailbox = due conn.start _
      rw [written, mode, owes, whole]
      rfl
    unfinished := fun event member => by
      rw [show Connection.written { conn with phase := .replaying (backlog state taskId) } = [] from written] at member
      exact absurd member List.not_mem_nil
    rows := fun row member => member
    sorted := rows_ascending kept
    above := fun _ => above
    last := fun _ => .inl last
    quiet := fun _ status terminal member => quiet_of_logged (mailbox ▸ member)
    alive := by
      rintro ⟨status, member⟩
      exact absurd (mailbox ▸ member) quiet_of_logged
    increasing := due_ascending (rows_ascending kept) }

theorem Reading.resubscribe {conn : Connection} {frames : List Frame} (mode : conn.mode = .resubscribe)
    (written : frames.filterMap Frame.logged? = []) (last : conn.last = conn.start) (mailbox : conn.mailbox = [])
    (kept : Kept state given current taskId)
    (shown : ∀ row ∈ due conn.start (backlog state taskId), row.kind ≠ "task")
    (ended : (∃ row ∈ backlog state taskId, row.kind ≠ "task" ∧ row.final ∧ (row.seq : Int) ≤ conn.start) →
      ∀ row ∈ backlog state taskId, (row.seq : Int) ≤ conn.start) :
    Reading { conn with phase := .opened ((backlog state taskId).filter fun row => row.kind ≠ "task"), frames }
      (backlog state taskId) := by
  let rows := (backlog state taskId).filter fun row => row.kind ≠ "task"
  have ascending : (rows.map Event.seq).Pairwise (· < ·) :=
    (rows_ascending kept).sublist (List.filter_sublist.map Event.seq)
  have owes : replayed .resubscribe conn.start rows [] = due conn.start (backlog state taskId) := by
    by_cases halts : ∃ row ∈ rows, row.final ∧ (row.seq : Int) ≤ conn.start
    · rw [replayed_halted ascending halts]
      obtain ⟨row, member, final, bound⟩ := halts
      obtain ⟨within, kind⟩ := List.mem_filter.mp member
      have low := ended ⟨row, within, by simpa using kind, final, bound⟩
      have none : (backlog state taskId).filter (fun row => conn.start < row.seq) = [] := by
        refine List.filter_eq_nil_iff.mpr fun row member => ?_
        have := low row member
        simpa using this
      rw [due, none]
      rfl
    · have goes : ∀ row ∈ rows, row.final → conn.start < row.seq := by
        intro row member final
        by_contra bound
        exact halts ⟨row, member, final, by omega⟩
      rw [replayed_resumed ascending goes, due, List.filter_filter]
      have same := upToFinal_filter ((backlog state taskId).filter fun row => conn.start < row.seq)
        (fun row => row.kind ≠ "task") fun row member => by simpa using shown row member
      rw [← same, List.filter_filter]
      refine congrArg upToFinal (List.filter_congr fun row _ => Bool.and_comm ..)
  exact {
    settles := by
      show frames.filterMap Frame.logged? ++ replayed conn.mode conn.last rows conn.mailbox = due conn.start _
      rw [written, mode, mailbox, last, owes]
      rfl
    unfinished := fun event member => by
      rw [Connection.written, written] at member
      exact absurd member List.not_mem_nil
    rows := fun row member => (List.mem_filter.mp member).1
    sorted := ascending
    above := fun stream => by rw [show conn.mode = .stream from stream] at mode; cases mode
    last := fun stream => by rw [show conn.mode = .stream from stream] at mode; cases mode
    quiet := fun stream => by rw [show conn.mode = .stream from stream] at mode; cases mode
    alive := by
      rintro ⟨status, member⟩
      rw [show conn.mailbox = [] from mailbox] at member
      exact absurd member List.not_mem_nil
    increasing := due_ascending (rows_ascending kept) }

end Backlog

/-! ## One step -/

section Step

variable {observed : Observed} {trace : Trace} {current : String → List Event}

def Observed.within (observed : Observed) (conn : Connection) : Observed :=
  { observed with system := { observed.system with conn } }

theorem Stage.rewired {current : List Event} (stage : Stage observed current) (connected : Bool)
    (pumping : List Publication) : Stage (observed.within { observed.system.conn with connected, pumping }) current := by
  cases stage with
  | before phase written mailbox last live meanwhile => exact .before phase written mailbox last live meanwhile
  | registered phase written mailbox last live positive alone =>
    exact .registered phase written mailbox last live positive alone
  | refused phase written => exact .refused phase written
  | reading reads reading counted =>
    exact .reading reads (reading.next rfl rfl rfl reading.unfinished (List.suffix_refl _) (List.suffix_refl _)
      reading.above reading.last) counted
  | ceased ending done ceased => exact .ceased ending done ⟨ceased.within, ceased.whole, ceased.ended, ceased.increasing⟩

theorem Stage.after (observed : Observed) {current : List Event} {conn : Connection} (after : After conn observed.trail.told)
    (counted : Counted observed.system.events current conn.taskId conn.start observed.trail.told) :
    Stage (observed.within conn) current := by
  cases after with
  | reading reads reading => exact .reading reads reading counted
  | ceased ending done ceased => exact .ceased ending done ceased

theorem Stands.sweep (stands : Stands observed trace current) :
    ∃ trace current, Stands { observed with system := { observed.system with events := sweep observed.system.events } }
      trace current := by
  let taskId := observed.system.conn.taskId
  obtain ⟨next, lawful, swept⟩ : ∃ next, Lawful (trace.step .sweep) next ∧
      next taskId = if trace.state.expired = some taskId then [] else current taskId := by
    cases expired : trace.state.expired with
    | none => exact ⟨current, stands.lawful.idle expired, by simp⟩
    | some other =>
      refine ⟨_, stands.lawful.cleared expired, ?_⟩
      by_cases same : taskId = other
      · rw [same, Function.update_self, if_pos rfl]
      · rw [Function.update_of_ne same, if_neg fun given => same (Option.some.inj given).symm]
  refine ⟨_, next, ?_, lawful, ?_, stands.stream, stands.resubscribed⟩
  · show TaskEvents.sweep observed.system.events = _
    rw [stands.events]
    rfl
  · cases stands.stage with
    | before phase written mailbox last live meanwhile => exact .before phase written mailbox last live meanwhile
    | registered phase written mailbox last live positive alone =>
      exact .registered phase written mailbox last live positive alone
    | refused phase written => exact .refused phase written
    | reading reads reading counted =>
      refine .reading reads reading ?_
      rw [stands.events] at counted
      show Counted (TaskEvents.sweep observed.system.events) (next taskId) taskId _ _
      rw [stands.events, swept]
      exact counted.sweep stands.lawful
    | ceased ending done ceased => exact .ceased ending done ceased

theorem Stands.moved (stands : Stands observed trace current) {next : Observed}
    (events : next.system.events = observed.system.events)
    (taskId : next.system.conn.taskId = observed.system.conn.taskId)
    (mode : next.system.conn.mode = observed.system.conn.mode)
    (start : next.system.conn.start = observed.system.conn.start)
    (pumping : next.system.conn.pumping <:+ observed.system.conn.pumping)
    (stage : Stage next (current observed.system.conn.taskId)) : ∃ trace current, Stands next trace current :=
  ⟨trace, current, events.trans stands.events, stands.lawful, taskId ▸ stage, fun given => start ▸ stands.stream (mode ▸ given),
    fun given => List.suffix_nil.mp (stands.resubscribed (mode ▸ given) ▸ pumping)⟩

theorem follow_fixed (conn : Connection) (message : Message) (rest : List Message) (idle : Nat) :
    (conn.follow message rest idle).taskId = conn.taskId ∧ (conn.follow message rest idle).mode = conn.mode ∧
      (conn.follow message rest idle).start = conn.start ∧
      (conn.follow message rest idle).pumping = conn.pumping := by
  unfold Connection.follow Connection.chunk
  cases message <;> dsimp only <;> repeat' split
  all_goals exact ⟨rfl, rfl, rfl, rfl⟩

theorem replay_fixed (conn : Connection) (row : Event) (rows : List Event) :
    (conn.replay row rows).taskId = conn.taskId ∧ (conn.replay row rows).mode = conn.mode ∧
      (conn.replay row rows).start = conn.start ∧ (conn.replay row rows).pumping = conn.pumping := by
  unfold Connection.replay Connection.chunk
  repeat' split
  all_goals exact ⟨rfl, rfl, rfl, rfl⟩

theorem heartbeat_fixed (conn : Connection) (opts : Options) (idle : Nat) :
    (conn.heartbeat opts idle).taskId = conn.taskId ∧ (conn.heartbeat opts idle).mode = conn.mode ∧
      (conn.heartbeat opts idle).start = conn.start ∧ (conn.heartbeat opts idle).pumping = conn.pumping := by
  unfold Connection.heartbeat
  dsimp only
  repeat' split
  all_goals exact ⟨rfl, rfl, rfl, rfl⟩

theorem Stage.reads {current : List Event} (stage : Stage observed current)
    (reads : observed.system.conn.phase.reading) : Reading observed.system.conn observed.trail.told ∧
      Counted observed.system.events current observed.system.conn.taskId observed.system.conn.start
        observed.trail.told := by
  cases stage with
  | reading reads reading counted => exact ⟨reading, counted⟩
  | before phase => obtain phase | phase := phase <;> rw [phase] at reads <;> cases reads
  | registered phase => rw [phase] at reads; cases reads
  | refused phase => rw [phase] at reads; cases reads
  | ceased ending done => rw [done] at reads; cases reads

theorem Stage.begun {current : List Event} (stage : Stage observed current)
    (phase : observed.system.conn.phase = .opening ∨ observed.system.conn.phase = .announced) :
    observed.system.conn.written = [] ∧ observed.system.conn.mailbox = [] ∧
      observed.system.conn.last = observed.system.conn.start ∧ observed.trail.live = [] ∧
      observed.trail.meanwhile = [] := by
  cases stage with
  | before _ written mailbox last live meanwhile => exact ⟨written, mailbox, last, live, meanwhile⟩
  | registered given => obtain phase | phase := phase <;> rw [phase] at given <;> cases given
  | refused given => obtain phase | phase := phase <;> rw [phase] at given <;> cases given
  | reading given => obtain phase | phase := phase <;> rw [phase] at given <;> cases given
  | ceased ending given => obtain phase | phase := phase <;> rw [phase] at given <;> cases given

theorem Stands.announce (stands : Stands observed trace current) (phase : observed.system.conn.phase = .opening)
    (mode : observed.system.conn.mode = .stream) (opts : Options) :
    ∃ trace current, Stands (observed.step opts .advance) trace current := by
  obtain ⟨written, mailbox, last, live, meanwhile⟩ := stands.stage.begun (.inl phase)
  let taskId := observed.system.conn.taskId
  have conn : (observed.system.publish taskId "task" observed.system.conn.task false).conn = observed.system.conn :=
    if_neg fun both => by rw [phase] at both; cases both.2
  have same : observed.step opts .advance =
      { system :=
          { events := TaskEvents.publish observed.system.events taskId "task" observed.system.conn.task false
            conn := { observed.system.conn with phase := .announced } }
        trail := { observed.trail with
          since := [(true, numbered observed.system.events taskId "task" observed.system.conn.task false)] } } := by
    simp only [Observed.step, System.step, System.advance, Trail.advanced, phase, mode]
    rw [conn, mode]
    rfl
  rw [same]
  refine ⟨_, _, ?_, stands.lawful.publish taskId "task" observed.system.conn.task false,
    .before (.inr rfl) written mailbox last live meanwhile, stands.stream, stands.resubscribed⟩
  rw [stands.events]
  rfl

theorem Stands.register (stands : Stands observed trace current)
    (phase : observed.system.conn.phase = .opening ∧ observed.system.conn.mode = .resubscribe ∨
      observed.system.conn.phase = .announced) (opts : Options) :
    ∃ trace current, Stands (observed.step opts .advance) trace current := by
  obtain ⟨written, mailbox, last, live, meanwhile⟩ := stands.stage.begun (phase.imp And.left id)
  have same : observed.step opts .advance =
      { system := { observed.system with conn := { observed.system.conn with phase := .registered } }
        trail := { observed.trail with
          registered := backlog observed.system.events observed.system.conn.taskId } } := by
    obtain ⟨phase, mode⟩ | phase := phase
    · simp only [Observed.step, System.step, System.advance, Trail.advanced, phase, mode]
    · simp only [Observed.step, System.step, System.advance, Trail.advanced, phase]
  rw [same]
  refine stands.moved rfl rfl rfl rfl (List.suffix_refl _) (.registered rfl written ?_ last live ?_ fun _ => meanwhile)
  · rw [meanwhile]
    exact mailbox
  · rw [meanwhile]
    exact fun _ member => absurd member List.not_mem_nil

theorem Stage.registers {current : List Event} (stage : Stage observed current)
    (phase : observed.system.conn.phase = .registered) :
    observed.system.conn.written = [] ∧
      observed.system.conn.mailbox = observed.trail.meanwhile.map Message.logged ∧
      observed.system.conn.last = observed.system.conn.start ∧ observed.trail.live = [] ∧
      (∀ event ∈ observed.trail.meanwhile, 1 ≤ event.seq) ∧
      (observed.system.conn.mode = .resubscribe → observed.trail.meanwhile = []) := by
  cases stage with
  | registered _ written mailbox last live positive alone => exact ⟨written, mailbox, last, live, positive, alone⟩
  | before given => rw [phase] at given; obtain given | given := given <;> cases given
  | refused given => rw [phase] at given; cases given
  | reading given => rw [phase] at given; cases given
  | ceased ending given => rw [phase] at given; cases given

theorem opens_stream {conn : Connection} (mode : conn.mode = .stream) (rows : List Event) :
    conn.opens rows = { conn with phase := .replaying rows } := by
  cases conn
  cases mode
  rfl

theorem opens_resubscribe {conn : Connection} (mode : conn.mode = .resubscribe) (rows : List Event) :
    conn.opens rows =
      let rows := rows.filter fun row => row.kind ≠ "task"
      if conn.terminal ∧ ¬ rows.any Event.final then { conn with phase := .refused, mailbox := [] }
      else { conn with
        phase := .opened rows
        frames := if conn.connected then conn.frames ++ [.snapshot conn.task] else conn.frames } := by
  cases conn
  cases mode
  rfl

theorem Stands.read (stands : Stands observed trace current) (phase : observed.system.conn.phase = .registered)
    (sound : Sound observed .advance) (covers : Covers observed .advance) (opts : Options) :
    ∃ trace current, Stands (observed.step opts .advance) trace current := by
  obtain ⟨written, mailbox, last, live, _, alone⟩ := stands.stage.registers phase
  have kept := stands.events.symm ▸ stands.lawful.kept observed.system.conn.taskId
  let rows := backlog observed.system.events observed.system.conn.taskId
  have same : observed.step opts .advance =
      { system := { observed.system with conn := observed.system.conn.opens rows }
        trail := { observed.trail with backlog := rows } } := by
    simp only [Observed.step, System.step, System.advance, Trail.advanced, phase]
    rfl
  have told : Trail.told { observed.trail with backlog := rows } = rows := by
    rw [Trail.told, live, List.append_nil]
  have counted := counted_rows kept observed.system.conn.start
  rw [same]
  cases mode : observed.system.conn.mode with
  | stream =>
    rw [opens_stream mode]
    have covers : ∀ event ∈ observed.trail.meanwhile, event ∈ rows := by
      simp only [Covers, phase] at covers
      exact covers mode
    refine stands.moved rfl rfl rfl rfl (List.suffix_refl _) (.reading rfl ?_ ?_)
    · rw [told]
      exact Reading.stream mode (stands.stream mode) written last mailbox kept covers
    · rw [told]
      exact counted
  | resubscribe =>
    have sound : (∀ row ∈ due observed.system.conn.start rows, row.kind ≠ "task") ∧
        ((∃ row ∈ rows, row.kind ≠ "task" ∧ row.final ∧ (row.seq : Int) ≤ observed.system.conn.start) →
          ∀ row ∈ rows, (row.seq : Int) ≤ observed.system.conn.start) := by
      simp only [Sound, phase] at sound
      exact sound mode
    rw [opens_resubscribe mode]
    dsimp only
    split
    next => exact stands.moved rfl rfl rfl rfl (List.suffix_refl _) (.refused rfl written)
    next =>
      refine stands.moved rfl rfl rfl rfl (List.suffix_refl _) (.reading rfl ?_ ?_)
      · rw [told]
        have empty : observed.system.conn.mailbox = [] := by
          rw [mailbox, alone mode]
          rfl
        refine Reading.resubscribe mode ?_ last empty kept sound.1 sound.2
        split
        · rw [written_append, written]
          rfl
        · exact written
      · rw [told]
        exact counted

theorem Stands.goes (stands : Stands observed trace current) (reads : observed.system.conn.phase.reading)
    (opts : Options) : ∃ trace current, Stands (observed.step opts .advance) trace current := by
  obtain ⟨reading, counted⟩ := stands.stage.reads reads
  have trail : observed.trail.advanced observed.system = observed.trail := by
    unfold Trail.advanced
    cases phase : observed.system.conn.phase <;> first | rfl | (rw [phase] at reads; cases reads)
  have step : observed.step opts .advance = { system := observed.system.advance, trail := observed.trail } := by
    rw [← trail]
    rfl
  rw [step]
  unfold System.advance
  dsimp only
  cases phase : observed.system.conn.phase with
  | opened backlog =>
    exact stands.moved rfl rfl rfl rfl (List.suffix_refl _) (.after observed
      (reading.moves rfl (by simp only [Connection.owed, phase])
        (by simp only [Connection.pending, phase, List.suffix_refl])) counted)
  | replaying backlog =>
    cases backlog with
    | nil =>
      refine stands.moved rfl rfl rfl rfl (List.suffix_refl _) (.after observed
        (reading.moves rfl ?_ List.nil_suffix) counted)
      simp only [Connection.owed, phase, replayed]
    | cons row rows =>
      obtain ⟨taskId, mode, start, pumping⟩ := replay_fixed observed.system.conn row rows
      refine stands.moved rfl taskId mode start (pumping ▸ List.suffix_refl _) (.after observed
        (reading.replay phase) ?_)
      rw [taskId, start]
      exact counted
  | following idle =>
    cases mailbox : observed.system.conn.mailbox with
    | nil => exact ⟨trace, current, stands⟩
    | cons message rest =>
      obtain ⟨taskId, mode, start, pumping⟩ := follow_fixed observed.system.conn message rest idle
      refine stands.moved rfl taskId mode start (pumping ▸ List.suffix_refl _) (.after observed
        (reading.follow phase mailbox) ?_)
      rw [taskId, start]
      exact counted
  | _ => rw [phase] at reads; cases reads

theorem Stands.advance (stands : Stands observed trace current) (sound : Sound observed .advance)
    (covers : Covers observed .advance) (opts : Options) :
    ∃ trace current, Stands (observed.step opts .advance) trace current := by
  cases phase : observed.system.conn.phase with
  | opening =>
    cases mode : observed.system.conn.mode with
    | stream => exact stands.announce phase mode opts
    | resubscribe => exact stands.register (.inl ⟨phase, mode⟩) opts
  | announced => exact stands.register (.inr phase) opts
  | registered => exact stands.read phase sound covers opts
  | opened backlog | replaying backlog | following backlog => exact stands.goes (by rw [phase]; rfl) opts
  | refused | done ending =>
    have same : observed.step opts .advance = observed := by
      simp only [Observed.step, System.step, System.advance, Trail.advanced, phase]
    rw [same]
    exact ⟨trace, current, stands⟩

/-- The pump publishes what is next, once the snapshot is published. -/
theorem step_pump (observed : Observed) (opts : Options) : observed.step opts .pump = observed ∨
    ∃ publication rest, observed.system.conn.pumping = publication :: rest ∧
      observed.system.conn.phase ≠ .opening ∧
      observed.step opts .pump =
        (observed.within { observed.system.conn with pumping := rest }).publish true observed.system.conn.taskId
          publication.kind publication.payload publication.final := by
  cases pumping : observed.system.conn.pumping with
  | nil =>
    refine .inl ?_
    cases phase : observed.system.conn.phase <;> simp only [Observed.step, System.step, phase, pumping]
  | cons publication rest =>
    by_cases opening : observed.system.conn.phase = .opening
    · exact .inl (by simp only [Observed.step, System.step, opening])
    · refine .inr ⟨publication, rest, rfl, opening, ?_⟩
      have published : observed.system.step opts .pump =
          ((observed.within { observed.system.conn with pumping := rest }).publish true observed.system.conn.taskId
            publication.kind publication.payload publication.final).system := by
        simp only [System.step, pumping]
        rfl
      have trail : (observed.step opts .pump).trail =
          ((observed.within { observed.system.conn with pumping := rest }).publish true observed.system.conn.taskId
            publication.kind publication.payload publication.final).trail := by
        refine Eq.trans ?_ (if_pos rfl).symm
        simp only [Observed.step, pumping, Observed.within]
      exact congrArg₂ Observed.mk published trail

theorem Stands.pump (stands : Stands observed trace current) (opts : Options) :
    ∃ trace current, Stands (observed.step opts .pump) trace current := by
  obtain same | ⟨publication, rest, pumping, _, same⟩ := step_pump observed opts
  · rw [same]
    exact ⟨trace, current, stands⟩
  · rw [same]
    have streams : observed.system.conn.mode ≠ .resubscribe := fun mode => by
      rw [stands.resubscribed mode] at pumping
      cases pumping
    obtain ⟨trace, current, stands⟩ : ∃ trace current,
        Stands (observed.within { observed.system.conn with pumping := rest }) trace current :=
      stands.moved rfl rfl rfl rfl (pumping ▸ List.suffix_cons publication rest)
        (stands.stage.rewired observed.system.conn.connected rest)
    exact stands.publish observed.system.conn.taskId (fun mode => absurd mode streams) fun mode => absurd mode streams

theorem Stands.heartbeat (stands : Stands observed trace current) (opts : Options) :
    ∃ trace current, Stands (observed.step opts .heartbeat) trace current := by
  by_cases waits : ∃ idle, observed.system.conn.phase = .following idle ∧ observed.system.conn.mailbox = []
  · obtain ⟨idle, phase, mailbox⟩ := waits
    have same : observed.step opts .heartbeat = observed.within (observed.system.conn.heartbeat opts idle) := by
      simp only [Observed.step, System.step, phase, mailbox]
      rfl
    obtain ⟨reading, counted⟩ := stands.stage.reads (by rw [phase]; rfl)
    obtain ⟨taskId, mode, start, pumping⟩ := heartbeat_fixed observed.system.conn opts idle
    rw [same]
    refine stands.moved rfl taskId mode start (pumping ▸ List.suffix_refl _)
      (.after observed (reading.heartbeat opts phase mailbox) ?_)
    rw [taskId, start]
    exact counted
  · have same : observed.step opts .heartbeat = observed := by
      cases phase : observed.system.conn.phase <;> simp only [Observed.step, System.step, phase]
      case following idle =>
        cases mailbox : observed.system.conn.mailbox with
        | nil => exact absurd ⟨idle, phase, mailbox⟩ waits
        | cons message rest => rfl
    rw [same]
    exact ⟨trace, current, stands⟩

theorem Stands.step (stands : Stands observed trace current) {step : Step} (sound : Sound observed step)
    (covers : Covers observed step) (opts : Options) :
    ∃ trace current, Stands (observed.step opts step) trace current := by
  cases step with
  | publish taskId kind payload final =>
    refine stands.publish taskId (fun mode same phase => ?_) fun mode same reads => ?_
    · simp only [Sound, phase] at sound
      exact sound mode same
    · subst same
      have sound := sound mode
      cases phase : observed.system.conn.phase <;> simp only [phase] at sound reads
      case registered => cases reads
      all_goals exact sound trivial reads
  | sweep => exact stands.sweep
  | transition status terminal =>
    by_cases rides : observed.system.conn.mode = .resubscribe ∧ observed.system.conn.phase.riding
    · have same : observed.step opts (.transition status terminal) =
          observed.within (observed.system.conn.tell (.transition status terminal)) := by
        show ({ system := if _ then _ else _, trail := _ } : Observed) = _
        rw [if_pos rides]
        rfl
      rw [same]
      have reads : observed.system.conn.phase.reading := by
        cases phase : observed.system.conn.phase <;> simp_all [Phase.riding, Phase.reading]
      obtain ⟨reading, counted⟩ := stands.stage.reads reads
      refine stands.moved rfl rfl rfl rfl (List.suffix_refl _) (.reading reads (reading.transition status rides.1
        fun ends => ?_) counted)
      cases ends
      have sound := sound rides.1
      have told : ∃ event ∈ observed.trail.told, event.final ∧ observed.system.conn.start < event.seq := by
        cases phase : observed.system.conn.phase <;> simp only [phase] at sound rides
        all_goals exact sound rides.2
      exact due_final told
    · have same : observed.step opts (.transition status terminal) = observed := by
        show ({ system := if _ then _ else _, trail := _ } : Observed) = _
        rw [if_neg rides]
      rw [same]
      exact ⟨trace, current, stands⟩
  | disconnect =>
    exact stands.moved rfl rfl rfl rfl (List.suffix_refl _)
      (stands.stage.rewired false observed.system.conn.pumping)
  | pump => exact stands.pump opts
  | heartbeat => exact stands.heartbeat opts
  | advance => exact stands.advance sound covers opts

end Step

/-! ## Whole runs -/

/-- What a connection is opened for, as the handlers of the two methods have it. -/
inductive Request where
  | stream (taskId : String) (task : Json) (updates : List Json) (status : Json)
  | resubscribe (taskId : String) (task : Json) (terminal : Bool) (lastEventId : Option Int)

def Request.connection : Request → Connection
  | .stream taskId task updates status => streamMessage taskId task updates status
  | .resubscribe taskId task terminal lastEventId => SSE.resubscribe taskId task terminal lastEventId

/-- The connection beside a log that any operations have led to. -/
def start (maxEvents : Nat) (ops : List Op) (request : Request) : System where
  events := (run maxEvents ops).state
  conn := request.connection

/-- Each step meets the condition where it is taken. -/
def Along (meets : Observed → Step → Prop) (opts : Options) : Observed → List Step → Prop
  | _, [] => True
  | observed, step :: steps => meets observed step ∧ Along meets opts (observed.step opts step) steps

theorem start_stands (maxEvents : Nat) (ops : List Op) (request : Request) :
    ∃ trace current, Stands { system := start maxEvents ops request } trace current := by
  obtain ⟨current, lawful⟩ := run_lawful maxEvents ops
  refine ⟨_, current, rfl, lawful, ?_, fun mode => ?_, fun mode => ?_⟩
  · cases request <;> exact .before (.inl rfl) rfl rfl rfl rfl rfl
  · cases request with
    | stream taskId task updates status => rfl
    | resubscribe taskId task terminal lastEventId => cases mode
  · cases request with
    | stream taskId task updates status => cases mode
    | resubscribe taskId task terminal lastEventId => rfl

/-- The backlog was read. -/
def Phase.past : Phase → Bool
  | .opened _ | .replaying _ | .following _ | .done _ => true
  | _ => false

/-- Once the backlog is read, it stands for what was logged before. -/
def Retained (observed : Observed) : Prop :=
  observed.system.conn.phase.past →
    (observed.trail.backlog.filter fun event => observed.system.conn.start < event.seq) =
      (observed.trail.registered ++ observed.trail.meanwhile).filter fun event =>
        observed.system.conn.start < event.seq

theorem published_kept (trail : Trail) {phase : Phase} (past : phase.past) (own : Bool) (event : Event) :
    (trail.published phase own event).registered = trail.registered ∧
      (trail.published phase own event).meanwhile = trail.meanwhile ∧
      (trail.published phase own event).backlog = trail.backlog := by
  cases phase <;> first | exact ⟨rfl, rfl, rfl⟩ | cases past

section Runs

variable {observed : Observed}

theorem Retained.publish (retained : Retained observed) (own : Bool) (taskId kind : String) (payload : Json)
    (final : Bool) : Retained (observed.publish own taskId kind payload final) := by
  have phase : (observed.publish own taskId kind payload final).system.conn.phase = observed.system.conn.phase := by
    unfold Observed.publish System.publish
    dsimp only
    split <;> rfl
  have start := (publish_conn observed own taskId kind payload final).2.2.1
  intro past
  rw [phase] at past
  rw [start]
  unfold Observed.publish
  dsimp only
  split
  next =>
    obtain ⟨registered, meanwhile, backlog⟩ := published_kept observed.trail past own
      (numbered observed.system.events taskId kind payload final)
    rw [registered, meanwhile, backlog]
    exact retained past
  next => exact retained past

theorem opens_fixed (conn : Connection) (rows : List Event) : (conn.opens rows).taskId = conn.taskId ∧
    (conn.opens rows).mode = conn.mode ∧ (conn.opens rows).start = conn.start := by
  unfold Connection.opens
  split
  · exact ⟨rfl, rfl, rfl⟩
  · dsimp only
    split <;> exact ⟨rfl, rfl, rfl⟩

theorem advance_fixed (system : System) : system.advance.conn.taskId = system.conn.taskId ∧
    system.advance.conn.mode = system.conn.mode ∧ system.advance.conn.start = system.conn.start := by
  unfold System.advance
  dsimp only
  split
  · split
    · unfold System.publish
      dsimp only
      split <;> exact ⟨rfl, rfl, rfl⟩
    · exact ⟨rfl, rfl, rfl⟩
  · exact ⟨rfl, rfl, rfl⟩
  · exact opens_fixed ..
  · exact ⟨rfl, rfl, rfl⟩
  · exact ⟨rfl, rfl, rfl⟩
  · exact ⟨(replay_fixed ..).1, (replay_fixed ..).2.1, (replay_fixed ..).2.2.1⟩
  · split
    · exact ⟨rfl, rfl, rfl⟩
    · exact ⟨(follow_fixed ..).1, (follow_fixed ..).2.1, (follow_fixed ..).2.2.1⟩
  · exact ⟨rfl, rfl, rfl⟩
  · exact ⟨rfl, rfl, rfl⟩

/-- Where neither the backlog is read nor anything published, the trail stays and no connection
gets past its reading. -/
theorem step_silent (observed : Observed) (opts : Options) {step : Step}
    (silent : step = .sweep ∨ (∃ status terminal, step = .transition status terminal) ∨ step = .disconnect ∨
      step = .heartbeat) :
    (observed.step opts step).trail = observed.trail ∧
      (observed.step opts step).system.conn.start = observed.system.conn.start ∧
      ((observed.step opts step).system.conn.phase = observed.system.conn.phase ∨
        ((observed.step opts step).system.conn.phase.past ∧ observed.system.conn.phase.past)) := by
  obtain rfl | ⟨status, terminal, rfl⟩ | rfl | rfl := silent
  · exact ⟨rfl, rfl, .inl rfl⟩
  · refine ⟨rfl, ?_⟩
    show (if _ then _ else _ : System).conn.start = _ ∧ ((if _ then _ else _ : System).conn.phase = _ ∨ _)
    split <;> exact ⟨rfl, .inl rfl⟩
  · exact ⟨rfl, rfl, .inl rfl⟩
  · refine ⟨rfl, ?_⟩
    simp only [Observed.step, System.step]
    split
    next idle phase mailbox =>
      refine ⟨(heartbeat_fixed ..).2.2.1, .inr ⟨?_, by rw [phase]; rfl⟩⟩
      unfold Connection.heartbeat
      dsimp only
      repeat' split
      all_goals rfl
    next => exact ⟨rfl, .inl rfl⟩

theorem Retained.silent (retained : Retained observed) (opts : Options) {step : Step}
    (silent : step = .sweep ∨ (∃ status terminal, step = .transition status terminal) ∨ step = .disconnect ∨
      step = .heartbeat) : Retained (observed.step opts step) := by
  obtain ⟨trail, start, phase⟩ := step_silent observed opts silent
  intro past
  rw [trail, start]
  refine retained ?_
  obtain phase | ⟨_, before⟩ := phase
  · exact phase ▸ past
  · exact before

theorem advanced_past (trail : Trail) {system : System} (past : system.conn.phase.past) :
    trail.advanced system = trail := by
  unfold Trail.advanced
  cases phase : system.conn.phase <;> first | rfl | (rw [phase] at past; cases past)

theorem Retained.advance (retained : Retained observed) (retains : Retains observed .advance) (opts : Options) :
    Retained (observed.step opts .advance) := by
  have start : (observed.step opts .advance).system.conn.start = observed.system.conn.start :=
    (advance_fixed observed.system).2.2
  by_cases past : observed.system.conn.phase.past
  · intro _
    rw [start]
    show ((observed.trail.advanced observed.system).backlog.filter _) =
      ((observed.trail.advanced observed.system).registered ++ (observed.trail.advanced observed.system).meanwhile).filter _
    rw [advanced_past _ past]
    exact retained past
  · cases phase : observed.system.conn.phase with
    | registered =>
      intro _
      rw [start]
      simp only [Retains, phase] at retains
      simp only [Observed.step, Trail.advanced, phase]
      exact retains
    | opening =>
      intro given
      cases mode : observed.system.conn.mode with
      | stream => simp only [Observed.step, System.step, System.advance, phase, mode] at given; cases given
      | resubscribe => simp only [Observed.step, System.step, System.advance, phase, mode] at given; cases given
    | announced =>
      intro given
      simp only [Observed.step, System.step, System.advance, phase] at given
      cases given
    | refused =>
      intro given
      simp only [Observed.step, System.step, System.advance, phase] at given
      cases given
    | _ => rw [phase] at past; exact absurd rfl past

theorem Retained.step (retained : Retained observed) (opts : Options) {step : Step} (retains : Retains observed step) :
    Retained (observed.step opts step) := by
  cases step with
  | publish taskId kind payload final => exact retained.publish false taskId kind payload final
  | sweep => exact retained.silent opts (.inl rfl)
  | transition status terminal => exact retained.silent opts (.inr (.inl ⟨status, terminal, rfl⟩))
  | disconnect => exact retained.silent opts (.inr (.inr (.inl rfl)))
  | pump =>
    obtain same | ⟨publication, rest, _, _, same⟩ := step_pump observed opts
    · rwa [same]
    · rw [same]
      have rewired : Retained (observed.within { observed.system.conn with pumping := rest }) := retained
      exact rewired.publish true _ _ _ _
  | heartbeat => exact retained.silent opts (.inr (.inr (.inr rfl)))
  | advance => exact retained.advance retains opts

/-- The hypothesis on the log, where nothing lies at or below the start. -/
theorem Stands.covers {trace : Trace} {current : String → List Event} (stands : Stands observed trace current)
    {step : Step} (retains : Retains observed step) : Covers observed step := by
  cases step with
  | advance =>
    cases phase : observed.system.conn.phase <;> simp only [Covers, phase]
    intro mode event member
    obtain ⟨_, _, _, _, positive, _⟩ := stands.stage.registers phase
    simp only [Retains, phase] at retains
    have above : observed.system.conn.start < event.seq := by
      have := positive event member
      have := stands.stream mode
      omega
    have listed : event ∈ (observed.trail.registered ++ observed.trail.meanwhile).filter
        fun event => observed.system.conn.start < event.seq :=
      List.mem_filter.mpr ⟨List.mem_append_right _ member, by simpa using above⟩
    rw [← retains] at listed
    exact (List.mem_filter.mp listed).1
  | _ => exact trivial

theorem run_stands {opts : Options} {trace : Trace} {current : String → List Event} {steps : List Step}
    (stands : Stands observed trace current) (retained : Retained observed)
    (retains : Along Retains opts observed steps) (sound : Along Sound opts observed steps) :
    (∃ trace current, Stands (steps.foldl (Observed.step opts) observed) trace current) ∧
      Retained (steps.foldl (Observed.step opts) observed) := by
  induction steps generalizing observed trace current with
  | nil => exact ⟨⟨trace, current, stands⟩, retained⟩
  | cons step steps ih =>
    obtain ⟨_, _, next⟩ := stands.step sound.1 (stands.covers retains.1) opts
    exact ih next (retained.step opts retains.1) retains.2 sound.2

theorem Stands.delivered {trace : Trace} {current : String → List Event} (stands : Stands observed trace current)
    (retained : Retained observed) : Delivered observed := by
  have none_written : observed.system.conn.written = [] → ¬ settled observed.system.conn →
      (∀ ending, observed.system.conn.phase ≠ .done ending) → Delivered observed := by
    intro written unsettled going
    refine ⟨?_, ?_, fun given => absurd given unsettled, fun ⟨ending, done, _⟩ => absurd done (going ending)⟩
    · rw [written]
      exact .nil
    · rw [written]
      exact List.nil_prefix
  have same : observed.system.conn.phase.past →
      due observed.system.conn.start observed.trail.told = due observed.system.conn.start observed.trail.logged := by
    intro past
    rw [due, due, Trail.told, Trail.logged, List.filter_append, List.filter_append, retained past]
  cases stands.stage with
  | before phase written =>
    refine none_written written ?_ fun ending done => ?_
    · obtain phase | phase := phase <;> simp [settled, phase]
    · obtain phase | phase := phase <;> rw [phase] at done <;> cases done
  | registered phase written =>
    exact none_written written (by simp [settled, phase]) fun ending done => by rw [phase] at done; cases done
  | refused phase written =>
    exact none_written written (by simp [settled, phase]) fun ending done => by rw [phase] at done; cases done
  | reading reads reading counted =>
    have past : observed.system.conn.phase.past := by
      cases phase : observed.system.conn.phase <;> rw [phase] at reads <;> first | rfl | cases reads
    have whole := reading.settles.trans (same past)
    refine ⟨?_, ⟨_, whole⟩, fun done => ?_, fun ⟨ending, done, _⟩ => by rw [done] at reads; cases reads⟩
    · exact reading.increasing.sublist ((show observed.system.conn.written <+: _ from
        ⟨_, reading.settles⟩).sublist.map Event.seq)
    · have nothing : observed.system.conn.owed = [] := by
        unfold settled at done
        unfold Connection.owed
        cases phase : observed.system.conn.phase <;> simp only [phase] at done reads ⊢
        rw [done]
        rfl
      rw [← whole, nothing, List.append_nil]
  | ceased ending done ceased =>
    have past : observed.system.conn.phase.past := by rw [done]; rfl
    refine ⟨ceased.increasing.sublist (ceased.within.sublist.map Event.seq), same past ▸ ceased.within, fun given => ?_, ?_⟩
    · refine (ceased.whole ?_).trans (same past)
      rintro rfl
      simp [settled, done] at given
    · rintro ⟨other, given, ended⟩
      cases done.symm.trans given
      exact ceased.ended ended

/-- A streaming connection delivers in every run; a resubscribed one does where it may rely on
what its loop does not check. -/
theorem events_delivered (opts : Options) (maxEvents : Nat) (ops : List Op) (request : Request) (steps : List Step)
    (retains : Along Retains opts { system := start maxEvents ops request } steps)
    (sound : Along Sound opts { system := start maxEvents ops request } steps) :
    Delivered (observe opts (start maxEvents ops request) steps) := by
  obtain ⟨trace, current, stands⟩ := start_stands maxEvents ops request
  have retained : Retained { system := start maxEvents ops request } := by
    intro past
    cases request <;> cases past
  obtain ⟨⟨_, _, last⟩, kept⟩ := run_stands stands retained retains sound
  exact last.delivered kept

theorem step_mode (observed : Observed) (opts : Options) (step : Step) :
    (observed.step opts step).system.conn.mode = observed.system.conn.mode := by
  cases step with
  | publish taskId kind payload final => exact (publish_conn observed false taskId kind payload final).2.1
  | sweep | disconnect => rfl
  | transition status terminal =>
    show (if _ then _ else _ : System).conn.mode = _
    split <;> rfl
  | pump =>
    obtain same | ⟨publication, rest, _, _, same⟩ := step_pump observed opts
    · rw [same]
    · rw [same]
      exact (publish_conn (observed.within { observed.system.conn with pumping := rest }) true _ _ _ _).2.1
  | heartbeat =>
    simp only [Observed.step, System.step]
    split
    · exact (heartbeat_fixed ..).2.1
    · rfl
  | advance => exact (advance_fixed observed.system).2.1

/-- Nothing is asked of a run with a streaming connection. -/
theorem sound_of_stream (opts : Options) {observed : Observed} (mode : observed.system.conn.mode = .stream)
    (steps : List Step) : Along Sound opts observed steps := by
  induction steps generalizing observed with
  | nil => trivial
  | cons step steps ih =>
    refine ⟨fun resubscribed => ?_, ih ((step_mode observed opts step).trans mode)⟩
    rw [mode] at resubscribed
    cases resubscribed

def update (number : Nat) : Op := .publish "task" "artifact-update" (.int number) false

/-- A resubscribed connection that reads what was logged before it registered, and the end. -/
theorem events_delivered_resubscribed :
    Delivered (observe {} (start 10 [update 1] (.resubscribe "task" .null false none))
      [.advance, .advance, .advance, .advance, .advance, .publish "task" "status-update" .null true, .advance]) := by
  refine events_delivered {} 10 [update 1] (.resubscribe "task" .null false none) _ ?_ ?_
  · refine ⟨trivial, ?_, trivial, trivial, trivial, trivial, trivial, trivial⟩
    rfl
  · refine ⟨fun _ => trivial, fun _ => ⟨?_, ?_⟩, fun _ => trivial, fun _ => trivial, fun _ => trivial,
      fun _ _ _ => ⟨?_, ?_⟩, fun _ => trivial, trivial⟩
    all_goals decide

/-- An event that is logged between the registration and the reading is written twice. -/
theorem event_written_twice :
    Along Retains {} { system := start 10 [update 1] (.resubscribe "task" .null false none) }
        [.advance, .publish "task" "artifact-update" (.int 2) false, .advance, .advance, .advance, .advance, .advance,
          .advance] ∧
      ¬ Delivered (observe {} (start 10 [update 1] (.resubscribe "task" .null false none))
        [.advance, .publish "task" "artifact-update" (.int 2) false, .advance, .advance, .advance, .advance, .advance,
          .advance]) := by
  refine ⟨⟨trivial, trivial, rfl, trivial, trivial, trivial, trivial, trivial, trivial⟩, fun delivered => ?_⟩
  have written : (observe {} (start 10 [update 1] (.resubscribe "task" .null false none))
      [.advance, .publish "task" "artifact-update" (.int 2) false, .advance, .advance, .advance, .advance, .advance,
        .advance]).system.conn.written.map Event.seq = [1, 2, 2] := by decide
  exact absurd (written ▸ delivered.ascending) (by decide)

end Runs

end AshA2A.A2ATransport.SSE
