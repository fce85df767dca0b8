import AshA2A.Proofs.Streaming

/-! A streaming connection belongs to one turn, and the log to all turns of its task. -/

namespace AshA2A.A2ATransport.SSE

open TaskEvents

/-- The first final event is one of the turn. -/
def OwnEnds : List (Bool × Event) → Prop
  | [] => True
  | (own, event) :: entries => if event.final then own = true else OwnEnds entries

/-- The turn's own final event is published. -/
def Trail.finished (trail : Trail) : Prop := ∃ entry ∈ trail.since, entry.1 = true ∧ entry.2.final = true

def Trail.own (trail : Trail) : List Event := (trail.since.filter Prod.fst).map Prod.snd

/-- A connection that ends by itself has written its turn up to the turn's final event. -/
def TurnDelivered (observed : Observed) : Prop :=
  (∃ ending, observed.system.conn.phase = .done ending ∧ (ending = .final ∨ ending = .terminal)) →
    observed.trail.finished ∧ (upToFinal observed.trail.own).Sublist observed.system.conn.written

/-- The backlog holds all that was published since the snapshot of the turn and no final event
from before it, and until the turn is finished nobody else publishes one. -/
def Undisturbed (observed : Observed) (step : Step) : Prop :=
  match step, observed.system.conn.phase with
  | .publish _ _ _ _, .opening | .publish _ _ _ _, .done _ => True
  | .publish taskId _ _ final, _ => taskId = observed.system.conn.taskId → final → observed.trail.finished
  | .advance, .registered => ∃ earlier,
    backlog observed.system.events observed.system.conn.taskId = earlier ++ observed.trail.since.map Prod.snd ∧
      ∀ event ∈ earlier, ¬ event.final
  | _, _ => True

/-! ## The first final event -/

theorem OwnEnds.append {entries : List (Bool × Event)} (ends : OwnEnds entries) {own : Bool} {event : Event}
    (last : event.final → own = true ∨ ∃ entry ∈ entries, entry.2.final = true) : OwnEnds (entries ++ [(own, event)]) := by
  induction entries with
  | nil =>
    show if event.final then own = true else True
    split
    next final => exact (last final).resolve_right fun ⟨_, member, _⟩ => absurd member List.not_mem_nil
    next => trivial
  | cons entry entries ih =>
    obtain ⟨first, other⟩ := entry
    rw [List.cons_append, OwnEnds]
    rw [OwnEnds] at ends
    split
    next final => rwa [if_pos final] at ends
    next more =>
      rw [if_neg more] at ends
      refine ih ends fun final => (last final).imp id ?_
      rintro ⟨entry, member, ended⟩
      obtain rfl | member := List.mem_cons.mp member
      · exact absurd ended more
      · exact ⟨entry, member, ended⟩

theorem OwnEnds.finished {trail : Trail} (ends : OwnEnds trail.since)
    (final : ∃ entry ∈ trail.since, entry.2.final = true) : trail.finished := by
  unfold Trail.finished
  generalize trail.since = entries at ends final
  induction entries with
  | nil => obtain ⟨_, member, _⟩ := final; exact absurd member List.not_mem_nil
  | cons entry entries ih =>
    obtain ⟨own, event⟩ := entry
    rw [OwnEnds] at ends
    split at ends
    next last => exact ⟨_, List.mem_cons_self .., ends, last⟩
    next more =>
      obtain ⟨entry, member, ended⟩ := final
      obtain rfl | member := List.mem_cons.mp member
      · exact absurd ended more
      · obtain ⟨found, within, facts⟩ := ih ends ⟨entry, member, ended⟩
        exact ⟨found, List.mem_cons_of_mem _ within, facts⟩

/-- What the turn has up to its final event is among all that is there up to the first one. -/
theorem OwnEnds.sublist {entries : List (Bool × Event)} (ends : OwnEnds entries) :
    (upToFinal ((entries.filter Prod.fst).map Prod.snd)).Sublist (upToFinal (entries.map Prod.snd)) := by
  induction entries with
  | nil => exact .slnil
  | cons entry entries ih =>
    obtain ⟨own, event⟩ := entry
    rw [OwnEnds] at ends
    split at ends
    next final =>
      have first : own = true := ends
      subst first
      rw [List.filter_cons_of_pos rfl, List.map_cons, List.map_cons, upToFinal, upToFinal, if_pos final, if_pos final]
    next more =>
      rw [List.map_cons, upToFinal, if_neg more]
      cases own with
      | true =>
        rw [List.filter_cons_of_pos rfl, List.map_cons, upToFinal, if_neg more]
        exact (ih ends).cons_cons event
      | false =>
        rw [List.filter_cons_of_neg (by simp)]
        exact (ih ends).cons event

theorem Trail.finished.grows {trail : Trail} (finished : trail.finished) (more : List (Bool × Event)) :
    ∃ entry ∈ trail.since ++ more, entry.1 = true ∧ entry.2.final = true := by
  obtain ⟨entry, member, facts⟩ := finished
  exact ⟨entry, List.mem_append_left _ member, facts⟩

/-- What the turn publishes after its final event changes nothing. -/
theorem own_grows {trail : Trail} (finished : trail.finished) (more : List (Bool × Event)) :
    upToFinal (((trail.since ++ more).filter Prod.fst).map Prod.snd) = upToFinal trail.own := by
  obtain ⟨entry, member, own, final⟩ := finished
  rw [List.filter_append, List.map_append]
  exact upToFinal_of_final ⟨entry.2, List.mem_map_of_mem (List.mem_filter.mpr ⟨member, own⟩), final⟩ _

/-! ## The stages of a turn -/

inductive Turn (observed : Observed) : Prop where
  | opening (phase : observed.system.conn.phase = .opening) (since : observed.trail.since = [])
  | starting (phase : observed.system.conn.phase = .announced ∨ observed.system.conn.phase = .registered)
      (ends : OwnEnds observed.trail.since)
      (covered : ∀ event ∈ observed.trail.meanwhile, event ∈ observed.trail.since.map Prod.snd)
  | reading (reads : observed.system.conn.phase.reading) (ends : OwnEnds observed.trail.since) (earlier : List Event)
      (told : observed.trail.told = earlier ++ observed.trail.since.map Prod.snd)
      (old : ∀ event ∈ earlier, ¬ event.final) (positive : ∀ event ∈ observed.trail.told, 1 ≤ event.seq)
  | ceased (ending : Ending) (done : observed.system.conn.phase = .done ending) (delivered : TurnDelivered observed)

section Turn

variable {observed : Observed}

theorem publish_phase (observed : Observed) (own : Bool) (taskId kind : String) (payload : Json) (final : Bool) :
    (observed.publish own taskId kind payload final).system.conn.phase = observed.system.conn.phase ∧
      (observed.publish own taskId kind payload final).system.conn.written = observed.system.conn.written := by
  unfold Observed.publish System.publish
  dsimp only
  split <;> exact ⟨rfl, rfl⟩

theorem published_since {trail : Trail} {phase : Phase} {own : Bool} {event : Event} (opened : phase ≠ .opening) :
    (trail.published phase own event).since = trail.since ++ [(own, event)] := by
  cases phase <;> first | rfl | exact absurd rfl opened

theorem published_meanwhile {trail : Trail} {phase : Phase} {own : Bool} {event : Event} :
    ∀ other ∈ (trail.published phase own event).meanwhile, other ∈ trail.meanwhile ∨ other = event := by
  intro other member
  cases phase
  case registered =>
    obtain member | member := List.mem_append.mp member
    · exact .inl member
    · exact .inr (List.mem_singleton.mp member)
  all_goals exact .inl member

theorem Turn.publish (turn : Turn observed) {own : Bool} {taskId kind : String} {payload : Json} {final : Bool}
    (undisturbed : own = true ∨ Undisturbed observed (.publish taskId kind payload final)) :
    Turn (observed.publish own taskId kind payload final) := by
  obtain ⟨phase, written⟩ := publish_phase observed own taskId kind payload final
  by_cases same : taskId = observed.system.conn.taskId
  · let event := numbered observed.system.events taskId kind payload final
    have trail : (observed.publish own taskId kind payload final).trail =
        observed.trail.published observed.system.conn.phase own event := published_trail same
    have next : observed.system.conn.phase ≠ .opening → (∀ ending, observed.system.conn.phase ≠ .done ending) →
        event.final → own = true ∨ ∃ entry ∈ observed.trail.since, entry.2.final = true := by
      intro opened going ends
      refine undisturbed.imp id fun quiet => ?_
      have finished : observed.trail.finished := by
        cases given : observed.system.conn.phase <;> simp only [Undisturbed, given] at quiet
        case opening => exact absurd given opened
        case done ending => exact absurd given (going ending)
        all_goals exact quiet same ends
      obtain ⟨entry, member, _, ended⟩ := finished
      exact ⟨entry, member, ended⟩
    cases turn with
    | opening opening since =>
      refine .opening (phase.trans opening) ?_
      rw [trail, opening]
      exact since
    | starting starts ends covered =>
      have opened : observed.system.conn.phase ≠ .opening := by
        obtain given | given := starts <;> rw [given] <;> nofun
      have going : ∀ ending, observed.system.conn.phase ≠ .done ending := by
        obtain given | given := starts <;> rw [given] <;> nofun
      refine .starting (by rw [phase]; exact starts) ?_ ?_
      · rw [trail, published_since opened]
        exact ends.append (next opened going)
      · rw [trail, published_since opened, List.map_append]
        intro other member
        obtain member | rfl := published_meanwhile other member
        · exact List.mem_append_left _ (covered other member)
        · exact List.mem_append_right _ (List.mem_singleton_self _)
    | reading reads ends earlier told old positive =>
      have opened : observed.system.conn.phase ≠ .opening := fun given => by rw [given] at reads; cases reads
      have going : ∀ ending, observed.system.conn.phase ≠ .done ending := fun ending given => by
        rw [given] at reads; cases reads
      refine .reading (by rw [phase]; exact reads) ?_ earlier ?_ old ?_
      · rw [trail, published_since opened]
        exact ends.append (next opened going)
      · rw [trail, published_since opened, published_told reads, told, List.map_append, List.append_assoc]
        rfl
      · rw [trail, published_told reads]
        exact List.forall_mem_append.mpr ⟨positive, List.forall_mem_singleton.mpr (Nat.le_add_left ..)⟩
    | ceased ending done delivered =>
      have opened : observed.system.conn.phase ≠ .opening := fun given => by rw [given] at done; cases done
      refine .ceased ending (phase.trans done) fun given => ?_
      rw [phase] at given
      obtain ⟨finished, listed⟩ := delivered given
      rw [written, trail, Trail.finished, Trail.own, published_since opened, own_grows finished]
      exact ⟨finished.grows _, listed⟩
  · have trail : (observed.publish own taskId kind payload final).trail = observed.trail := if_neg same
    cases turn with
    | opening opening since => exact .opening (phase.trans opening) (trail ▸ since)
    | starting starts ends covered =>
      exact .starting (by rw [phase]; exact starts) (trail ▸ ends) (by rw [trail]; exact covered)
    | reading reads ends earlier told old positive =>
      exact .reading (by rw [phase]; exact reads) (trail ▸ ends) earlier (by rw [trail]; exact told) old
        (by rw [trail]; exact positive)
    | ceased ending done delivered =>
      refine .ceased ending (phase.trans done) fun given => ?_
      rw [phase] at given
      rw [written, trail]
      exact delivered given

/-- A step of the connection itself, once it reads. -/
theorem Turn.goes {next : Observed} {trace : Trace} {current : String → List Event} (stands : Stands next trace current)
    (mode : next.system.conn.mode = .stream) (trail : next.trail = observed.trail)
    (moved : next.system.conn.phase.reading ∨ ∃ ending, next.system.conn.phase = .done ending)
    (ends : OwnEnds observed.trail.since) {earlier : List Event}
    (told : observed.trail.told = earlier ++ observed.trail.since.map Prod.snd)
    (old : ∀ event ∈ earlier, ¬ event.final) (positive : ∀ event ∈ observed.trail.told, 1 ≤ event.seq) : Turn next := by
  rw [← trail] at ends told positive
  obtain reads | ⟨ending, done⟩ := moved
  · exact .reading reads ends earlier told old positive
  · refine .ceased ending done fun ⟨other, given, ended⟩ => ?_
    cases done.symm.trans given
    cases stands.stage with
    | ceased found over_done ceased =>
      cases done.symm.trans over_done
      obtain ⟨last, member, final⟩ := ceased.ended ended
      have since : ∃ entry ∈ next.trail.since, entry.2.final = true := by
        rw [told] at member
        obtain member | member := List.mem_append.mp member
        · exact absurd final (old last member)
        · obtain ⟨entry, within, rfl⟩ := List.mem_map.mp member
          exact ⟨entry, within, final⟩
      refine ⟨ends.finished since, ?_⟩
      have whole := ceased.whole (by rintro rfl; simp at ended)
      have all : (next.trail.told.filter fun event => next.system.conn.start < event.seq) = next.trail.told := by
        refine List.filter_eq_self.mpr fun event member => ?_
        have := positive event member
        have := stands.stream mode
        simp
        omega
      rw [whole, due, all, told, upToFinal_of_open old]
      exact ends.sublist.trans (List.sublist_append_right ..)
    | before phase => rw [done] at phase; obtain phase | phase := phase <;> cases phase
    | registered phase => rw [done] at phase; cases phase
    | refused phase => rw [done] at phase; cases phase
    | reading reads => rw [done] at reads; cases reads

/-- Whether or not it ends by it, a step of a connection that reads leaves it reading or over. -/
theorem advance_reading {system : System} (reads : system.conn.phase.reading) :
    system.advance.conn.phase.reading ∨ ∃ ending, system.advance.conn.phase = .done ending := by
  unfold System.advance
  dsimp only
  cases phase : system.conn.phase with
  | opened backlog => exact .inl rfl
  | replaying backlog =>
    cases backlog with
    | nil => exact .inl rfl
    | cons row rows =>
      show (system.conn.replay row rows).phase.reading ∨ ∃ ending, (system.conn.replay row rows).phase = .done ending
      unfold Connection.replay Connection.chunk
      repeat' split
      all_goals first | exact .inl rfl | exact .inr ⟨_, rfl⟩
  | following idle =>
    cases mailbox : system.conn.mailbox with
    | nil => exact .inl (by rw [phase]; rfl)
    | cons message rest =>
      show (system.conn.follow message rest idle).phase.reading ∨
        ∃ ending, (system.conn.follow message rest idle).phase = .done ending
      unfold Connection.follow Connection.chunk
      cases message <;> dsimp only <;> repeat' split
      all_goals first | exact .inl rfl | exact .inr ⟨_, rfl⟩
  | _ => rw [phase] at reads; cases reads

theorem step_written_done (opts : Options) {ending : Ending} (done : observed.system.conn.phase = .done ending)
    {step : Step} (silent : step = .advance ∨ step = .sweep ∨ (∃ status terminal, step = .transition status terminal) ∨
      step = .disconnect ∨ step = .heartbeat) :
    (observed.step opts step).system.conn.phase = .done ending ∧
      (observed.step opts step).system.conn.written = observed.system.conn.written ∧
      (observed.step opts step).trail = observed.trail := by
  obtain rfl | rfl | ⟨status, terminal, rfl⟩ | rfl | rfl := silent
  · have same : observed.step opts .advance = observed := by
      simp only [Observed.step, System.step, System.advance, Trail.advanced, done]
    rw [same]
    exact ⟨done, rfl, rfl⟩
  · exact ⟨done, rfl, rfl⟩
  · have deaf : ¬ (observed.system.conn.mode = .resubscribe ∧ observed.system.conn.phase.riding) := fun both => by
      rw [done] at both
      cases both.2
    have same : observed.step opts (.transition status terminal) = observed := by
      show ({ system := if _ then _ else _, trail := _ } : Observed) = _
      rw [if_neg deaf]
    rw [same]
    exact ⟨done, rfl, rfl⟩
  · exact ⟨done, rfl, rfl⟩
  · have same : observed.step opts .heartbeat = observed := by
      simp only [Observed.step, System.step, done]
    rw [same]
    exact ⟨done, rfl, rfl⟩

theorem Turn.ended {next : Observed} {ending : Ending} (delivered : TurnDelivered observed)
    (before : observed.system.conn.phase = .done ending)
    (same : next.system.conn.phase = .done ending ∧ next.system.conn.written = observed.system.conn.written ∧
      next.trail = observed.trail) : Turn next := by
  obtain ⟨phase, written, trail⟩ := same
  refine .ceased ending phase fun given => ?_
  rw [written, trail]
  rw [phase, ← before] at given
  exact delivered given

theorem Turn.advance {trace final : Trace} {current last : String → List Event} (turn : Turn observed)
    (stands : Stands observed trace current) (mode : observed.system.conn.mode = .stream)
    (undisturbed : Undisturbed observed .advance) (opts : Options)
    (reached : Stands (observed.step opts .advance) final last) : Turn (observed.step opts .advance) := by
  have next_mode := (step_mode observed opts .advance).trans mode
  cases turn with
  | opening phase since =>
    have announced : (observed.step opts .advance).system.conn.phase = .announced := by
      simp only [Observed.step, System.step, System.advance, phase, mode]
    have trail : (observed.step opts .advance).trail = { observed.trail with
        since := [(true, numbered observed.system.events observed.system.conn.taskId "task" observed.system.conn.task
          false)] } := by
      simp only [Observed.step, Trail.advanced, phase, mode]
    obtain ⟨_, _, _, _, meanwhile⟩ := stands.stage.begun (.inl phase)
    refine .starting (.inl announced) ?_ ?_
    · rw [trail]
      exact (if_neg (by simp [numbered])).mpr trivial
    · rw [trail]
      show ∀ event ∈ observed.trail.meanwhile, _
      rw [meanwhile]
      exact fun _ member => absurd member List.not_mem_nil
  | starting phase ends covered =>
    obtain phase | phase := phase
    · have registered : (observed.step opts .advance).system.conn.phase = .registered := by
        simp only [Observed.step, System.step, System.advance, phase]
      have trail : (observed.step opts .advance).trail = { observed.trail with
          registered := backlog observed.system.events observed.system.conn.taskId } := by
        simp only [Observed.step, Trail.advanced, phase]
      refine .starting (.inr registered) ?_ ?_ <;> rw [trail]
      · exact ends
      · exact covered
    · obtain ⟨_, _, _, live, _, _⟩ := stands.stage.registers phase
      have kept := stands.events.symm ▸ stands.lawful.kept observed.system.conn.taskId
      have trail : (observed.step opts .advance).trail = { observed.trail with
          backlog := backlog observed.system.events observed.system.conn.taskId } := by
        simp only [Observed.step, Trail.advanced, phase]
      have reads : (observed.step opts .advance).system.conn.phase.reading := by
        simp only [Observed.step, System.step, System.advance, phase]
        rw [opens_stream mode]
        rfl
      have told : (observed.step opts .advance).trail.told =
          backlog observed.system.events observed.system.conn.taskId := by
        rw [trail, Trail.told, live, List.append_nil]
      simp only [Undisturbed, phase] at undisturbed
      obtain ⟨earlier, rows, old⟩ := undisturbed
      refine .reading reads (by rw [trail]; exact ends) earlier ?_ old ?_
      · rw [told, trail, rows]
      · rw [told]
        exact rows_positive kept
  | reading reads ends earlier told old positive =>
    refine Turn.goes reached next_mode ?_ (advance_reading reads) ends told old positive
    refine advanced_past observed.trail ?_
    cases phase : observed.system.conn.phase <;> rw [phase] at reads <;> first | rfl | cases reads
  | ceased ending done delivered => exact .ended delivered done (step_written_done opts done (.inl rfl))

theorem Turn.silent {final : Trace} {last : String → List Event} (turn : Turn observed)
    (mode : observed.system.conn.mode = .stream) (opts : Options) {step : Step}
    (silent : step = .sweep ∨ (∃ status terminal, step = .transition status terminal) ∨ step = .disconnect ∨
      step = .heartbeat)
    (reached : Stands (observed.step opts step) final last) : Turn (observed.step opts step) := by
  obtain ⟨trail, _, phase⟩ := step_silent observed opts silent
  have next_mode := (step_mode observed opts step).trans mode
  cases turn with
  | opening opening since =>
    have phase := phase.resolve_right fun both => by rw [opening] at both; cases both.2
    exact .opening (phase.trans opening) (trail ▸ since)
  | starting starts ends covered =>
    have phase := phase.resolve_right fun both => by
      obtain given | given := starts <;> rw [given] at both <;> cases both.2
    exact .starting (by rw [phase]; exact starts) (trail ▸ ends) (by rw [trail]; exact covered)
  | reading reads ends earlier told old positive =>
    refine Turn.goes reached next_mode trail ?_ ends told old positive
    obtain phase | ⟨past, _⟩ := phase
    · exact .inl (by rw [phase]; exact reads)
    · cases given : (observed.step opts step).system.conn.phase <;> rw [given] at past
      case done ending => exact .inr ⟨ending, rfl⟩
      all_goals first | exact .inl rfl | cases past
  | ceased ending done delivered => exact .ended delivered done (step_written_done opts done (.inr silent))

theorem Turn.covers (turn : Turn observed) {step : Step} (undisturbed : Undisturbed observed step) :
    Covers observed step := by
  cases step with
  | advance =>
    cases phase : observed.system.conn.phase <;> simp only [Covers, phase]
    intro _ event member
    simp only [Undisturbed, phase] at undisturbed
    obtain ⟨earlier, rows, _⟩ := undisturbed
    cases turn with
    | starting _ _ covered =>
      rw [rows]
      exact List.mem_append_right _ (covered event member)
    | opening given => rw [phase] at given; cases given
    | reading given => rw [phase] at given; cases given
    | ceased ending given => rw [phase] at given; cases given
  | _ => exact trivial

theorem Turn.step {trace : Trace} {current : String → List Event} (turn : Turn observed)
    (stands : Stands observed trace current) (mode : observed.system.conn.mode = .stream) (opts : Options) {step : Step}
    (undisturbed : Undisturbed observed step) :
    (∃ trace current, Stands (observed.step opts step) trace current) ∧ Turn (observed.step opts step) := by
  have sound : Sound observed step := fun resubscribed => by
    rw [mode] at resubscribed
    cases resubscribed
  obtain ⟨final, last, reached⟩ := stands.step sound (turn.covers undisturbed) opts
  refine ⟨⟨final, last, reached⟩, ?_⟩
  cases step with
  | publish taskId kind payload final => exact turn.publish (.inr undisturbed)
  | sweep => exact turn.silent mode opts (.inl rfl) reached
  | transition status terminal => exact turn.silent mode opts (.inr (.inl ⟨status, terminal, rfl⟩)) reached
  | disconnect => exact turn.silent mode opts (.inr (.inr (.inl rfl))) reached
  | pump =>
    obtain same | ⟨publication, rest, _, _, same⟩ := step_pump observed opts
    · rwa [same]
    · rw [same]
      have rewired : Turn (observed.within { observed.system.conn with pumping := rest }) := by
        cases turn with
        | opening phase since => exact .opening phase since
        | starting phase ends covered => exact .starting phase ends covered
        | reading reads ends earlier told old positive => exact .reading reads ends earlier told old positive
        | ceased ending done delivered => exact .ceased ending done delivered
      exact rewired.publish (.inl rfl)
  | heartbeat => exact turn.silent mode opts (.inr (.inr (.inr rfl))) reached
  | advance => exact turn.advance stands mode undisturbed opts reached

theorem run_turn {opts : Options} {steps : List Step} {trace : Trace} {current : String → List Event}
    (turn : Turn observed) (stands : Stands observed trace current) (mode : observed.system.conn.mode = .stream)
    (undisturbed : Along Undisturbed opts observed steps) : Turn (steps.foldl (Observed.step opts) observed) := by
  induction steps generalizing observed trace current with
  | nil => exact turn
  | cons step steps ih =>
    obtain ⟨⟨_, _, reached⟩, next⟩ := turn.step stands mode opts undisturbed.1
    exact ih next reached ((step_mode observed opts step).trans mode) undisturbed.2

/-- A connection that ends by itself has written its turn, where no other turn's final event is
in its way. -/
theorem turn_delivered (opts : Options) (maxEvents : Nat) (ops : List Op) (taskId : String) (task : Json)
    (updates : List Json) (status : Json) (steps : List Step)
    (undisturbed : Along Undisturbed opts { system := start maxEvents ops (.stream taskId task updates status) } steps) :
    TurnDelivered (observe opts (start maxEvents ops (.stream taskId task updates status)) steps) := by
  obtain ⟨trace, current, stands⟩ := start_stands maxEvents ops (.stream taskId task updates status)
  have turn := run_turn (.opening rfl rfl) stands rfl undisturbed
  intro given
  cases turn with
  | ceased ending done delivered => exact delivered given
  | opening phase => obtain ⟨_, done, _⟩ := given; exact nomatch phase.symm.trans done
  | starting phase =>
    obtain ⟨_, done, _⟩ := given
    obtain phase | phase := phase <;> exact nomatch phase.symm.trans done
  | reading reads =>
    obtain ⟨ending, done, _⟩ := given
    exact nomatch reads.symm.trans (congrArg Phase.reading done)

/-- A first turn, its log swept, and a further turn to its end. -/
theorem turn_delivered_swept : TurnDelivered (observe {} (start 10
    [.publish "task" "status-update" .null true, .sweep] (.stream "task" .null [.int 1] .null))
    [.advance, .pump, .advance, .advance, .advance, .advance, .advance, .pump, .advance]) := by
  refine turn_delivered {} 10 _ "task" .null [.int 1] .null _ ⟨trivial, trivial, trivial, ?_, trivial, trivial, trivial,
    trivial, trivial, trivial⟩
  exact ⟨[], rfl, fun _ member => absurd member List.not_mem_nil⟩

/-- The final event of the first turn is still in the log, and the further turn ends with it. -/
theorem turn_cut_short : ¬ TurnDelivered (observe {} (start 10
    [.publish "task" "status-update" .null true] (.stream "task" .null [.int 1] .null))
    [.advance, .advance, .advance, .advance]) := by
  intro delivered
  obtain ⟨⟨entry, member, _, final⟩, _⟩ := delivered ⟨.final, rfl, .inl rfl⟩
  have none : ∀ entry ∈ (observe {} (start 10 [.publish "task" "status-update" .null true]
      (.stream "task" .null [.int 1] .null)) [.advance, .advance, .advance, .advance]).trail.since,
      entry.2.final = false := by decide
  rw [none entry member] at final
  cases final

end Turn

end AshA2A.A2ATransport.SSE
