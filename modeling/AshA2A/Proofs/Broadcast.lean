import AshA2A.Telemetry.OcelBroadcaster
import AshA2A.DropOldest
import Mathlib.Data.Finset.Card
import Mathlib.Data.Finset.Range

/-! The broadcaster accounts for every event as long as no timer fires, no receipt event comes, every
dispatch event can be printed, and no two sinks fail over a buffer that has room. -/

namespace AshA2A.Telemetry.OcelBroadcaster

variable {host : Host} {world : World} {state : State} {message : Message} {events : List Event} {number time : Nat}
  {kind : Kind} {measurements : Value} {accepts : Nat → Bool}

/-! ## Conversion -/

/-- The values of a dispatch event that are printed can be. -/
structure Printable (host : Host) (kind : Kind) (measurements metadata : Value) : Prop where
  measured : measurements.isMap = true
  skill : (host.text (metadata.get "skill_name")).isSome
  replyType : (textOrNil host (metadata.get "reply_type")).isSome
  duration : (textOrNil host (measurements.get "duration")).isSome
  kind : kind = .dispatchException → (textOrNil host (metadata.get "kind")).isSome

def Convertible (host : Host) (kind : Kind) (measurements : Value) : Metadata → Prop
  | .receipt _ => True
  | .map metadata => (kind = .dispatchStop ∨ kind = .dispatchException) ∧ Printable host kind measurements metadata

theorem dispatchEvent_isSome_iff {metadata : Value} (dispatched : kind = .dispatchStop ∨ kind = .dispatchException)
    (measured : measurements.isMap = true) :
    (dispatchEvent host number time measurements metadata kind).isSome ↔ Printable host kind measurements metadata := by
  have printed : Printable host kind measurements metadata ↔ (host.text (metadata.get "skill_name")).isSome ∧
      (textOrNil host (metadata.get "reply_type")).isSome ∧ (textOrNil host (measurements.get "duration")).isSome ∧
      (kind = .dispatchException → (textOrNil host (metadata.get "kind")).isSome) :=
    ⟨fun ⟨_, skill, replyType, duration, kind⟩ => ⟨skill, replyType, duration, kind⟩,
      fun ⟨skill, replyType, duration, kind⟩ => ⟨measured, skill, replyType, duration, kind⟩⟩
  rw [printed]
  unfold dispatchEvent dispatchEventType dispatchAttributes stopEventType stopAttributes
  rcases dispatched with rfl | rfl
  · cases host.text (metadata.get "skill_name") <;> cases textOrNil host (metadata.get "reply_type") <;>
      cases textOrNil host (measurements.get "duration") <;> simp
  · cases host.text (metadata.get "skill_name") <;> cases textOrNil host (metadata.get "reply_type") <;>
      cases textOrNil host (measurements.get "duration") <;> cases textOrNil host (metadata.get "kind") <;> simp

theorem dispatchEvent_number {metadata : Value} {event : Event}
    (converted : dispatchEvent host number time measurements metadata kind = some event) : event.number = number := by
  simp only [dispatchEvent, Option.bind_eq_bind, Option.bind_eq_some_iff, Option.some.injEq] at converted
  obtain ⟨_, -, _, -, rfl⟩ := converted
  rfl

/-- An event is converted exactly when it is one of the two dispatch events and prints, or when its
metadata is a receipt itself. -/
theorem toOcelEvent_event_iff {metadata : Metadata} :
    (∃ event, toOcelEvent host number time kind measurements metadata = .event event ∧ event.number = number) ↔
      Convertible host kind measurements metadata := by
  cases metadata with
  | receipt receipt => exact ⟨fun _ => trivial, fun _ => ⟨_, rfl, rfl⟩⟩
  | map metadata =>
    by_cases dispatched : kind = .dispatchStop ∨ kind = .dispatchException
    · have converted : toOcelEvent host number time kind measurements (.map metadata) =
          if measurements.isMap then .ofOption (dispatchEvent host number time measurements metadata kind)
          else .nothing := by rcases dispatched with rfl | rfl <;> rfl
      rw [converted]
      by_cases measured : measurements.isMap = true
      · have some_iff : (dispatchEvent host number time measurements metadata kind).isSome ↔ _ :=
          dispatchEvent_isSome_iff dispatched measured
        rw [if_pos measured, Convertible, and_iff_right dispatched, ← some_iff]
        cases found : dispatchEvent host number time measurements metadata kind with
        | none => simp [Conversion.ofOption]
        | some event => simp [Conversion.ofOption, dispatchEvent_number found]
      · rw [if_neg measured]
        constructor
        · rintro ⟨event, impossible, -⟩
          cases impossible
        · rintro ⟨-, printable⟩
          exact absurd printable.measured measured
    · have unconverted : toOcelEvent host number time kind measurements (.map metadata) = .nothing := by
        cases kind <;> simp [toOcelEvent] at dispatched ⊢
      rw [unconverted]
      constructor
      · rintro ⟨event, impossible, -⟩
        cases impossible
      · rintro ⟨known, -⟩
        exact absurd known dispatched

/-! ## The buffer -/

namespace State

/-- The bookkeeping of the queue. -/
structure Sized (state : State) : Prop where
  size : state.size = state.queue.length
  positive : 0 < state.maxBuffer
  bounded : state.queue.length ≤ state.maxBuffer

theorem buffer_queue (sized : state.Sized) (event : Event) :
    (state.buffer event).queue = DropOldest.push state.maxBuffer state.queue event := by
  unfold buffer DropOldest.push
  rw [sized.size]
  split <;> rfl

theorem Sized.buffer (sized : state.Sized) (event : Event) : (state.buffer event).Sized := by
  have bounded : (DropOldest.push state.maxBuffer state.queue event).length ≤ state.maxBuffer :=
    DropOldest.push_length sized.positive sized.bounded
  rw [← buffer_queue sized] at bounded
  have same : (state.buffer event).maxBuffer = state.maxBuffer := by unfold State.buffer; split <;> rfl
  refine ⟨?_, same ▸ sized.positive, same ▸ bounded⟩
  have size := sized.size
  have positive := sized.positive
  unfold State.buffer
  split
  · simp only [List.length_append, List.length_tail, List.length_singleton]
    omega
  · simp only [List.length_append, List.length_singleton]
    omega

@[simp] theorem buffer_sinks (event : Event) : (state.buffer event).sinks = state.sinks := by
  unfold buffer
  split <;> rfl

@[simp] theorem buffer_maxBuffer (event : Event) : (state.buffer event).maxBuffer = state.maxBuffer := by
  unfold buffer
  split <;> rfl

theorem buffer_drops (event : Event) : state.drops ≤ (state.buffer event).drops := by
  unfold buffer
  split <;> simp

/-- What rebuffering makes of a state: only the queue and the counters change. -/
structure Refilled (before after : State) : Prop where
  sinks : after.sinks = before.sinks
  maxBuffer : after.maxBuffer = before.maxBuffer
  drops : before.drops ≤ after.drops
  sized : after.Sized

theorem rebuffer_refilled (sized : state.Sized) (events : List Event) :
    state.Refilled (state.rebuffer events) ∧
      (state.rebuffer events).queue = DropOldest.pushAll state.maxBuffer state.queue events := by
  induction events generalizing state with
  | nil => exact ⟨⟨rfl, rfl, Nat.le_refl _, sized⟩, rfl⟩
  | cons event events ih =>
    obtain ⟨refilled, queue⟩ := ih (sized.buffer event)
    refine ⟨⟨?_, ?_, ?_, refilled.sized⟩, ?_⟩
    · exact refilled.sinks.trans (buffer_sinks event)
    · exact refilled.maxBuffer.trans (buffer_maxBuffer event)
    · exact (buffer_drops event).trans refilled.drops
    · rw [DropOldest.pushAll_cons, ← buffer_queue sized]
      rw [buffer_maxBuffer] at queue
      exact queue

theorem Refilled.trans {before between after : State} (first : before.Refilled between)
    (second : between.Refilled after) : before.Refilled after :=
  ⟨second.sinks.trans first.sinks, second.maxBuffer.trans first.maxBuffer, first.drops.trans second.drops, second.sized⟩

theorem deliverTo_refilled (sized : state.Sized) (events : List Event) (sinks : List Nat) :
    state.Refilled (deliverTo accepts events state sinks) := by
  induction sinks generalizing state with
  | nil => exact ⟨rfl, rfl, Nat.le_refl _, sized⟩
  | cons sink sinks ih =>
    rw [deliverTo, List.foldl_cons]
    split
    · exact ih sized
    · have refilled := (rebuffer_refilled sized events).1
      exact refilled.trans (ih refilled.sized)

/-- A buffer that is full of the events stays so, whoever fails. -/
theorem deliverTo_full (sized : state.Sized) (full : events.length = state.maxBuffer) (held : state.queue = events)
    (sinks : List Nat) : (deliverTo accepts events state sinks).queue = events := by
  induction sinks generalizing state with
  | nil => exact held
  | cons sink sinks ih =>
    rw [deliverTo, List.foldl_cons]
    split
    · exact ih sized full held
    · obtain ⟨refilled, queue⟩ := rebuffer_refilled sized events
      rw [DropOldest.pushAll_full sized.positive sized.bounded full] at queue
      exact ih refilled.sized (full.trans refilled.maxBuffer.symm) queue

theorem deliverTo_accepted (events : List Event) {sinks : List Nat} (accepted : ∀ sink ∈ sinks, accepts sink = true) :
    deliverTo accepts events state sinks = state := by
  induction sinks with
  | nil => rfl
  | cons sink sinks ih =>
    rw [deliverTo, List.foldl_cons, if_pos (accepted sink List.mem_cons_self)]
    exact ih fun other member => accepted other (List.mem_cons_of_mem _ member)

/-- The sinks that fail. -/
def failures (accepts : Nat → Bool) (sinks : List Nat) : Nat := sinks.countP fun sink => ! accepts sink

theorem deliverTo_drained (sized : state.Sized) (drained : state.queue = []) (fits : events.length ≤ state.maxBuffer)
    {sinks : List Nat} (few : failures accepts sinks ≤ 1 ∨ events = [] ∨ events.length = state.maxBuffer) :
    (deliverTo accepts events state sinks).queue = if failures accepts sinks = 0 then [] else events := by
  induction sinks with
  | nil => simpa [deliverTo, failures] using drained
  | cons sink sinks ih =>
    cases accepted : accepts sink with
    | true =>
      have same : failures accepts (sink :: sinks) = failures accepts sinks := by simp [failures, accepted]
      rw [same] at few ⊢
      rw [deliverTo, List.foldl_cons, if_pos accepted]
      exact ih few
    | false =>
      have one_more : failures accepts (sink :: sinks) = failures accepts sinks + 1 := by simp [failures, accepted]
      obtain ⟨refilled, queue⟩ := rebuffer_refilled sized events
      rw [drained, DropOldest.pushAll_room sized.positive (by simpa using fits), List.nil_append] at queue
      rw [one_more] at few ⊢
      rw [deliverTo, List.foldl_cons, if_neg (by simp [accepted]), if_neg (by omega)]
      rcases few with one | rfl | full
      · have rest : ∀ other ∈ sinks, accepts other = true := by
          have none_fail : failures accepts sinks = 0 := by omega
          simpa [failures, List.countP_eq_zero] using none_fail
        exact (congrArg State.queue (deliverTo_accepted events rest)).trans queue
      · have still : ∀ (sinks : List Nat) (state : State), deliverTo accepts [] state sinks = state := by
          intro sinks
          induction sinks with
          | nil => intro state; rfl
          | cons sink sinks ih => intro state; rw [deliverTo, List.foldl_cons]; split <;> exact ih _
        exact (congrArg State.queue (still sinks _)).trans queue
      · exact deliverTo_full refilled.sized (full.trans refilled.maxBuffer.symm) queue sinks

/-- Each failing sink puts all the events back. -/
theorem deliverTo_longer (sized : state.Sized) (events : List Event) (sinks : List Nat) :
    (deliverTo accepts events state sinks).queue ⊆ state.queue ++ events ∧
      min state.maxBuffer (state.queue.length + failures accepts sinks * events.length) ≤
        (deliverTo accepts events state sinks).queue.length := by
  induction sinks generalizing state with
  | nil => simp [deliverTo, failures]
  | cons sink sinks ih =>
    rw [deliverTo, List.foldl_cons]
    cases accepted : accepts sink with
    | true =>
      have same : failures accepts (sink :: sinks) = failures accepts sinks := by simp [failures, accepted]
      rw [if_pos rfl, same]
      exact ih sized
    | false =>
      have one_more : failures accepts (sink :: sinks) = failures accepts sinks + 1 := by simp [failures, accepted]
      obtain ⟨refilled, queue⟩ := rebuffer_refilled sized events
      obtain ⟨within, longer⟩ := ih refilled.sized
      have length : (state.rebuffer events).queue.length = min state.maxBuffer (state.queue.length + events.length) := by
        rw [queue, DropOldest.pushAll_length sized.positive sized.bounded]
      rw [if_neg (by simp), one_more]
      refine ⟨fun event member => ?_, ?_⟩
      · rcases List.mem_append.mp (within member) with old | new
        · rw [queue] at old
          exact DropOldest.pushAll_subset sized.positive sized.bounded old
        · exact List.mem_append_right _ new
      · refine Nat.le_trans ?_ longer
        rw [refilled.maxBuffer, length, Nat.succ_mul]
        omega

end State

/-! ## Runs -/

def numbers (state : State) : List Nat := state.queue.map Event.number

/-- The events that some sink was not given and that are not buffered any more. -/
def missing (world : World) (state : State) : Finset Nat :=
  (Finset.range world.arrivals).filter fun number =>
    number ∉ numbers state ∧ ∃ sink < state.sinks.length, number ∉ world.delivered sink

/-- Every event is with all sinks, buffered or counted as dropped; the buffer has its bound, and holds
the events once each and in the order of their arrival. -/
structure Accounted (world : World) (state : State) : Prop where
  counted : (missing world state).card ≤ state.drops
  bounded : state.queue.length ≤ state.maxBuffer
  ordered : (numbers state).Pairwise (· < ·)

/-- It has not crashed, and nothing is lost. -/
def Lossless (world : World) : Prop := ∃ state, world.server = some state ∧ Accounted world state

/-- The timer has no sink to flush to; an event for a sink can be converted; and where two sinks or
more fail, the buffer is empty or full. -/
def Steady (host : Host) (state : State) : Message → Prop
  | .event kind measurements metadata _ => state.sinks ≠ [] → Convertible host kind measurements metadata
  | .flush accepts => State.failures accepts (List.range state.sinks.length) ≤ 1 ∨ state.queue = [] ∨
      state.queue.length = state.maxBuffer
  | .tick _ => state.sinks = []
  | .other => True

def SteadyIn (host : Host) (world : World) (message : Message) : Prop :=
  ∀ state, world.server = some state → Steady host state message

inductive Reached (host : Host) (allowed : World → Message → Prop) : World → Prop where
  | started (sinks : List Sink) (maxBuffer : Int) : Reached host allowed { server := some (State.init sinks maxBuffer) }
  | step {world : World} (before : Reached host allowed world) (message : Message) (may : allowed world message) :
      Reached host allowed (world.step host message)

structure Sound (world : World) (state : State) : Prop where
  accounted : Accounted world state
  sized : state.Sized
  arrived : ∀ number ∈ numbers state, number < world.arrivals

/-- One more event, which pushes out the oldest one where there is no room. -/
theorem Sound.receive (sound : Sound world state) {event : Event}
    (fresh : event.number = world.arrivals) :
    Sound { world with server := some (state.buffer event), arrivals := world.arrivals + 1 } (state.buffer event) := by
  have queue := State.buffer_queue sound.sized event
  have listed : (numbers (state.buffer event)).Sublist (numbers state ++ [world.arrivals]) := by
    rw [numbers, queue, ← fresh]
    have kept : (DropOldest.push state.maxBuffer state.queue event).Sublist (state.queue ++ [event]) :=
      DropOldest.push_sublist
    simpa [numbers] using kept.map Event.number
  have ordered : (numbers state ++ [world.arrivals]).Pairwise (· < ·) := by
    refine List.pairwise_append.mpr ⟨sound.accounted.ordered, List.pairwise_singleton _ _, ?_⟩
    intro number earlier last member
    rw [List.mem_singleton.mp member]
    exact sound.arrived number earlier
  have held : world.arrivals ∈ numbers (state.buffer event) := by
    rw [numbers, queue, ← fresh]
    exact List.mem_map_of_mem DropOldest.mem_push
  refine ⟨⟨?_, (sound.sized.buffer event).bounded, ordered.sublist listed⟩, sound.sized.buffer event, ?_⟩
  · by_cases full : state.maxBuffer ≤ state.queue.length
    · have drops : (state.buffer event).drops = state.drops + 1 := by
        rw [State.buffer, sound.sized.size, if_pos full]
      cases oldest : state.queue with
      | nil =>
        rw [oldest] at full
        exact absurd sound.sized.positive (by simpa using full)
      | cons first rest =>
        have left : numbers (state.buffer event) = rest.map Event.number ++ [event.number] := by
          rw [numbers, queue, DropOldest.push_full full, oldest, List.tail_cons, List.map_append, List.map_singleton]
        have lost : missing { world with server := some (state.buffer event), arrivals := world.arrivals + 1 }
            (state.buffer event) ⊆ insert first.number (missing world state) := by
          intro number member
          simp only [missing, Finset.mem_filter, Finset.mem_range, State.buffer_sinks] at member
          obtain ⟨arrived, gone, undelivered⟩ := member
          have other : number ≠ world.arrivals := fun same => gone (same ▸ held)
          rw [left] at gone
          rw [Finset.mem_insert]
          by_cases head : number = first.number
          · exact .inl head
          · refine .inr ?_
            simp only [missing, Finset.mem_filter, Finset.mem_range]
            refine ⟨by omega, ?_, undelivered⟩
            simp only [numbers, oldest, List.map_cons, List.mem_cons, not_or]
            exact ⟨head, fun later => gone (List.mem_append_left _ later)⟩
        have more := (Finset.card_le_card lost).trans (Finset.card_insert_le _ _)
        have counted := sound.accounted.counted
        omega
    · have left : numbers (state.buffer event) = numbers state ++ [event.number] := by
        rw [numbers, queue, DropOldest.push_room (by omega), List.map_append, List.map_singleton, numbers]
      have lost : missing { world with server := some (state.buffer event), arrivals := world.arrivals + 1 }
          (state.buffer event) ⊆ missing world state := by
        intro number member
        simp only [missing, Finset.mem_filter, Finset.mem_range, State.buffer_sinks] at member ⊢
        obtain ⟨arrived, gone, undelivered⟩ := member
        have other : number ≠ world.arrivals := fun same => gone (same ▸ held)
        rw [left] at gone
        exact ⟨by omega, fun early => gone (List.mem_append_left _ early), undelivered⟩
      exact (Finset.card_le_card lost).trans (sound.accounted.counted.trans (State.buffer_drops event))
  · intro number member
    have among := listed.subset member
    rw [List.mem_append, List.mem_singleton] at among
    rcases among with early | rfl
    · exact (sound.arrived number early).trans (Nat.lt_succ_self _)
    · exact Nat.lt_succ_self _

/-- What a flush leaves: everything, or nothing when every sink has taken it. -/
theorem flush_cases (sized : state.Sized) (configured : state.sinks ≠ []) (steady : Steady host state (.flush accepts)) :
    ∃ after, state.flush accepts = some after ∧ state.Refilled after ∧
      after.queue = if State.failures accepts (List.range state.sinks.length) = 0 then [] else state.queue := by
  have emptied : ({ state with queue := [], size := 0 } : State).Sized :=
    ⟨rfl, sized.positive, Nat.zero_le _⟩
  simp only [State.flush, State.drain, State.deliver, configured, if_false]
  cases held : state.queue with
  | nil =>
    refine ⟨_, rfl, ⟨rfl, rfl, Nat.le_refl _, emptied⟩, ?_⟩
    split <;> rfl
  | cons first rest =>
    refine ⟨_, rfl, ?_, ?_⟩
    · have refilled : State.Refilled _ (State.deliverTo accepts _ _ _) :=
        State.deliverTo_refilled emptied (first :: rest) (List.range state.sinks.length)
      exact ⟨refilled.sinks, refilled.maxBuffer, refilled.drops, refilled.sized⟩
    · refine State.deliverTo_drained emptied rfl ?_ ?_
      · simpa [held] using sized.bounded
      · simpa [Steady, held] using steady

theorem Sound.flush (sound : Sound world state) {after : State}
    (refilled : state.Refilled after)
    (queue : after.queue = if State.failures accepts (List.range state.sinks.length) = 0 then [] else state.queue)
    (delivered : Nat → List Nat)
    (given : ∀ sink, delivered sink =
      if accepts sink then world.delivered sink ++ numbers state else world.delivered sink) :
    Sound { world with server := some after, delivered := delivered } after := by
  have among : ∀ number ∈ numbers after, number ∈ numbers state := by
    intro number member
    rw [numbers, queue] at member
    split at member
    · cases member
    · exact member
  refine ⟨⟨?_, refilled.sized.bounded, ?_⟩, refilled.sized, fun number member => sound.arrived number (among number member)⟩
  · have lost : missing { world with server := some after, delivered := delivered } after ⊆ missing world state := by
      intro number member
      simp only [missing, Finset.mem_filter, Finset.mem_range, refilled.sinks] at member ⊢
      obtain ⟨arrived, gone, sink, inside, unseen⟩ := member
      rw [given] at unseen
      refine ⟨arrived, ?_, sink, inside, ?_⟩
      · intro buffered
        by_cases none_failed : State.failures accepts (List.range state.sinks.length) = 0
        · have accepted : accepts sink = true := by
            have all := none_failed
            simp only [State.failures, List.countP_eq_zero, List.mem_range] at all
            simpa using all sink inside
          rw [if_pos accepted] at unseen
          exact unseen (List.mem_append_right _ buffered)
        · rw [numbers, queue, if_neg none_failed] at gone
          exact gone buffered
      · intro seen
        split at unseen
        · exact unseen (List.mem_append_left _ seen)
        · exact unseen seen
    exact (Finset.card_le_card lost).trans (sound.accounted.counted.trans refilled.drops)
  · rw [numbers, queue]
    split
    · exact List.Pairwise.nil
    · exact sound.accounted.ordered

/-- Without a sink nothing is kept, and there is nothing to account for. -/
theorem step_idle (running : world.server = some state) (idle : state.sinks = []) :
    (world.step host message).server = some state ∧ (world.step host message).arrivals = world.arrivals := by
  cases message with
  | event kind measurements metadata time => simp [World.step, running, State.receive, idle]
  | flush accepts => simp [World.step, running, State.flush, idle]
  | tick accepts => simp [World.step, running, State.tick, idle]
  | other => simp [World.step, running]

theorem Sound.idle (sound : Sound world state) (running : world.server = some state) (idle : state.sinks = []) :
    ∃ after, (world.step host message).server = some after ∧ Sound (world.step host message) after := by
  obtain ⟨same, arrivals⟩ : (world.step host message).server = some state ∧ _ := step_idle running idle
  have nothing : missing (world.step host message) state = ∅ := by simp [missing, idle]
  refine ⟨state, same, ⟨by simp [nothing], sound.accounted.bounded, sound.accounted.ordered⟩, sound.sized, ?_⟩
  rw [arrivals]
  exact sound.arrived

theorem Sound.step (sound : Sound world state) (running : world.server = some state)
    (steady : Steady host state message) :
    ∃ after, (world.step host message).server = some after ∧ Sound (world.step host message) after := by
  by_cases idle : state.sinks = []
  · exact sound.idle running idle
  · cases message with
    | event kind measurements metadata time =>
      obtain ⟨event, converted, fresh⟩ : ∃ event,
          toOcelEvent host world.arrivals time kind measurements metadata = .event event ∧
            event.number = world.arrivals := toOcelEvent_event_iff.mpr (steady idle)
      refine ⟨state.buffer event, by simp [World.step, running, State.receive, idle, converted], ?_⟩
      simpa [World.step, running, State.receive, idle, converted] using sound.receive fresh
    | flush accepts =>
      obtain ⟨after, flushed, refilled, queue⟩ := flush_cases sound.sized idle steady
      refine ⟨after, by simp [World.step, running, flushed], ?_⟩
      have kept := sound.flush refilled queue _ fun _ => rfl
      simpa [World.step, running, flushed, numbers] using kept
    | tick accepts => exact absurd steady idle
    | other => exact ⟨state, by simp [World.step, running], by simpa [World.step, running] using sound⟩

theorem Sound.of_reached (reached : Reached host (SteadyIn host) world) :
    ∃ state, world.server = some state ∧ Sound world state := by
  induction reached with
  | started sinks maxBuffer =>
    refine ⟨_, rfl, ⟨?_, Nat.zero_le _, List.Pairwise.nil⟩, ⟨rfl, ?_, Nat.zero_le _⟩, by simp [numbers, State.init]⟩
    · simp [missing]
    · simp only [State.init]
      omega
  | step before message may ih =>
    obtain ⟨state, running, sound⟩ := ih
    exact sound.step running (may state running)

/-- Whatever the number of sinks, the bound and the outcomes of the deliveries. -/
theorem steady_lossless (host : Host) {world : World} (reached : Reached host (SteadyIn host) world) : Lossless world := by
  obtain ⟨state, running, sound⟩ := Sound.of_reached reached
  exact ⟨state, running, sound.accounted⟩

/-- Atoms and binaries print. -/
def printing : Host where
  isResource _ := false
  shortName := utf8
  inspect _ := []
  text
    | .atom name => some (utf8 name)
    | .binary bytes => some bytes
    | _ => none
  receiptEvent _ time := ⟨0, [], time, [], none⟩

def ranPhase : Value := .map [(.atom "skill_name", .atom "run_phase")]

/-- The other way round: two sinks that fail over a buffer with room leave events in it twice. -/
theorem flush_repeats (sized : state.Sized) (held : state.queue ≠ []) (room : state.queue.length < state.maxBuffer)
    (failed : 2 ≤ State.failures accepts (List.range state.sinks.length)) :
    ∃ after, state.flush accepts = some after ∧ ¬ (numbers after).Nodup := by
  have configured : state.sinks ≠ [] := by
    intro idle
    simp [idle, State.failures] at failed
  have emptied : ({ state with queue := [], size := 0 } : State).Sized := ⟨rfl, sized.positive, Nat.zero_le _⟩
  have flushed : state.flush accepts = some (State.deliverTo accepts state.queue { state with queue := [], size := 0 }
      (List.range state.sinks.length)) := by
    obtain ⟨first, rest, shape⟩ := List.exists_cons_of_ne_nil held
    simp only [State.flush, State.drain, State.deliver, configured, if_false, shape]
  obtain ⟨within, longer⟩ : _ ∧ min state.maxBuffer (_ + State.failures accepts _ * _) ≤ _ :=
    State.deliverTo_longer emptied state.queue (List.range state.sinks.length)
  refine ⟨_, flushed, fun distinct => ?_⟩
  have few := (distinct.of_map _).length_le_of_subset (by simpa using within)
  have positive : 0 < state.queue.length := List.length_pos_of_ne_nil held
  have twice := Nat.mul_le_mul_right state.queue.length failed
  simp only [List.length_nil, Nat.zero_add] at longer
  omega

/-- A timer that finds a sink ends the process. -/
theorem tick_none (configured : state.sinks ≠ []) : state.tick accepts = none := by
  simp [State.tick, configured, State.deliver]

/-- One event and a flush that fails: the event is back in the buffer. -/
theorem failed_flush_lossless : Lossless
    ((World.step printing { server := some (State.init [⟨"chronicle", .nil⟩] 2) }
      (.event .dispatchStop (.map []) (.map ranPhase) 0)).step printing (.flush fun _ => false)) := by
  refine steady_lossless printing (.step (.step (.started _ 2) _ ?_) _ ?_)
  · rintro _ ⟨⟩ _
    exact ⟨.inl rfl, by constructor <;> simp [printing, ranPhase, textOrNil, Value.get, Value.member, Value.hasKey,
      Value.isMap, Value.nil]⟩
  · rintro state running
    refine .inl ?_
    simp [World.step, State.receive, State.init, toOcelEvent, Conversion.ofOption, dispatchEvent, dispatchEventType,
      stopEventType, dispatchAttributes, stopAttributes, printing, ranPhase, textOrNil, Value.get, Value.member,
      Value.hasKey, Value.isMap, Value.nil, State.buffer] at running
    subst running
    decide

/-- The first tick of the timer with a sink configured. -/
theorem tick_crashes : ¬ ∀ host world, Reached host (fun _ _ => True) world → Lossless world := by
  intro lossless
  obtain ⟨state, running, -⟩ := lossless printing _
    (.step (.started [⟨"chronicle", .nil⟩] 2) (.tick fun _ => true) trivial)
  have crashed : (State.init [⟨"chronicle", .nil⟩] 2).tick (fun _ => true) = none := tick_none (by decide)
  simp [World.step, crashed] at running

end AshA2A.Telemetry.OcelBroadcaster
