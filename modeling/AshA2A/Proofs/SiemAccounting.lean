import AshA2A.Proofs.SiemDelivery

/-! When the report of a delivery accounts for every event. -/

namespace AshA2A.Telemetry.SIEM

/-! ## The shape check -/

/-- The shape that an event has on the wire. -/
def WellShaped (event : Value) : Prop :=
  event.isMap = true ∧ (∀ key ∈ requiredKeys, (entry event key).isSome = true) ∧ shapeErrors event = []

theorem eventShapeErrors_wellShaped {event : Value} (shaped : WellShaped event) : eventShapeErrors event = some [] := by
  obtain ⟨isMap, required, shapes⟩ := shaped
  have present : requiredKeys.filter (fun key => (entry event key).isNone) = [] := by
    refine List.filter_eq_nil_iff.2 fun key mem absent => ?_
    rw [Option.isNone_iff_eq_none] at absent
    simpa [absent] using required key mem
  rw [eventShapeErrors, if_pos isMap, missingShape, if_pos shapes, present]
  rfl

theorem eventShapeErrors_misshapen {event : Value} (misshapen : ¬WellShaped event)
    (readable : event.isMap = true → shapeErrors event = []) : ∃ first more, eventShapeErrors event = some (first :: more) := by
  by_cases isMap : event.isMap = true
  · have missing : ∃ key ∈ requiredKeys, (entry event key).isNone = true := by
      by_contra none
      push Not at none
      refine misshapen ⟨isMap, fun key mem => ?_, readable isMap⟩
      rw [← Option.not_isNone]
      simp [none key mem]
    obtain ⟨key, mem, absent⟩ := missing
    have kept : key ∈ requiredKeys.filter fun key => (entry event key).isNone := List.mem_filter.2 ⟨mem, absent⟩
    obtain ⟨first, more, list⟩ := List.exists_cons_of_ne_nil (List.ne_nil_of_mem kept)
    rw [eventShapeErrors, if_pos isMap, missingShape, if_pos (readable isMap), list]
    exact ⟨first, more, congrArg some (List.append_nil _)⟩
  · rw [eventShapeErrors, if_neg isMap]
    exact ⟨_, _, rfl⟩

theorem eventShapeErrors_unreadable {event : Value} (isMap : event.isMap = true) (shapes : shapeErrors event ≠ []) :
    eventShapeErrors event = none := by
  rw [eventShapeErrors, if_pos isMap, missingShape, if_neg shapes]
  rfl

theorem validateEvents_after {before : List Value} (shaped : ∀ event ∈ before, WellShaped event) (rest : List Value) (ix : Nat) :
    validateEvents (before ++ rest) ix = validateEvents rest (ix + before.length) := by
  induction before generalizing ix with
  | nil => rfl
  | cons event before ih =>
    rw [List.cons_append, validateEvents, eventShapeErrors_wellShaped (shaped event List.mem_cons_self)]
    show validateEvents (before ++ rest) (ix + 1) = _
    rw [ih (fun other mem => shaped other (List.mem_cons_of_mem event mem)), List.length_cons, Nat.add_assoc, Nat.add_comm 1]

theorem validateEvents_wellShaped {events : List Value} (shaped : ∀ event ∈ events, WellShaped event) :
    validateEvents events 0 = some none := by
  have all := validateEvents_after shaped [] 0
  rwa [List.append_nil] at all

/-! ## The batches -/

/-- The events are cut into full batches, of which the last may be smaller. -/
structure Cut (size : Nat) (events : List Value) (batches : List (List Value)) : Prop where
  whole : batches.flatten = events
  within : ∀ batch ∈ batches, 0 < batch.length ∧ batch.length ≤ size
  full : ∀ batch ∈ batches.dropLast, batch.length = size

theorem chunkEvery_cut (size : Nat) (positive : 0 < size) (events : List Value) :
    Cut size events (chunkEvery size positive events) := by
  induction events using chunkEvery.induct size positive with
  | case1 =>
    rw [chunkEvery]
    exact ⟨rfl, fun batch mem => absurd mem List.not_mem_nil, fun batch mem => absurd mem List.not_mem_nil⟩
  | case2 event events ih =>
    rw [chunkEvery]
    refine ⟨?_, fun batch mem => ?_, fun batch mem => ?_⟩
    · rw [List.flatten_cons, ih.whole, List.take_append_drop]
    · rcases List.mem_cons.1 mem with rfl | mem
      · rw [List.length_take, List.length_cons]
        omega
      · exact ih.within batch mem
    · cases rest : chunkEvery size positive ((event :: events).drop size) with
      | nil =>
        rw [rest] at mem
        exact absurd mem List.not_mem_nil
      | cons next later =>
        rw [rest, List.dropLast_cons_cons] at mem
        rcases List.mem_cons.1 mem with rfl | mem
        · have more : 0 < ((event :: events).drop size).length := by
            rw [← ih.whole, rest, List.flatten_cons, List.length_append]
            exact Nat.add_pos_left (ih.within next (rest ▸ List.mem_cons_self)).1 _
          rw [List.length_drop] at more
          rw [List.length_take]
          omega
        · exact ih.full batch (rest ▸ mem)

theorem Cut.unique {size : Nat} {events : List Value} {batches : List (List Value)} (cut : Cut size events batches)
    (positive : 0 < size) : batches = chunkEvery size positive events := by
  induction events using chunkEvery.induct size positive generalizing batches with
  | case1 =>
    rw [chunkEvery]
    refine List.eq_nil_iff_forall_not_mem.2 fun batch mem => ?_
    have empty := List.flatten_eq_nil_iff.1 cut.whole batch mem
    exact absurd (cut.within batch mem).1 (by simp [empty])
  | case2 event events ih =>
    rw [chunkEvery]
    cases batches with
    | nil => exact absurd cut.whole (by simp)
    | cons batch rest =>
      obtain ⟨whole, within, full⟩ := cut
      rw [List.flatten_cons] at whole
      cases rest with
      | nil =>
        rw [List.flatten_nil, List.append_nil] at whole
        have short := (within batch List.mem_cons_self).2
        rw [← whole, List.take_of_length_le short, List.drop_of_length_le short, chunkEvery]
      | cons next later =>
        rw [List.dropLast_cons_cons] at full
        have size_eq := full batch List.mem_cons_self
        have rest_cut : Cut size ((event :: events).drop size) (next :: later) :=
          ⟨by rw [← whole, List.drop_left' size_eq], fun other mem => within other (List.mem_cons_of_mem batch mem),
            fun other mem => full other (List.mem_cons_of_mem batch mem)⟩
        rw [← ih rest_cut, ← whole, List.take_left' size_eq]

/-! ## The account -/

/-- What the answer tells when the attempts end so. -/
def Accounted (platform : String) (events : List Value) (batches : List (List Value)) (counts : List Nat) :
    Ending → Delivery → Prop
  | .flushed, delivery =>
      delivery = .delivered ⟨platform, events.length, batches.length, batches.length, counts.sum⟩
  | .failed reason, delivery => ∃ detail, delivery = .failed platform detail ∧ detail.batch = counts.length ∧
      detail.flushedBatches + 1 = counts.length ∧ detail.attempts = counts.sum ∧ detail.reason = reason ∧
      (batches.take detail.flushedBatches).flatten ++ events.drop (events.length - detail.unflushedEvents) = events
  | .raised summary, delivery => delivery = .raised platform summary

/-- A misshapen event is refused with its place before anything is sent; otherwise the events are sent in batches, in order, and
the answer accounts for all of them. -/
structure Exact (adapter : Adapter) (events : List Value) (own : Config) (outcome : List Effect × Delivery) : Prop where
  refused : ∀ before event after, events = before ++ event :: after → (∀ other ∈ before, WellShaped other) → ¬WellShaped event →
    sends outcome.1 = [] ∧ ∃ missing, outcome.2 = .invalidEvent adapter.platform (before.length + 1) missing
  sent : (∀ event ∈ events, WellShaped event) → ∃ batches counts ending, Cut own.batchSize events batches ∧
    Sends adapter.sendEvents own.maxRetries 0 batches counts ending ∧ (∀ count ∈ counts, count ≤ 1 + own.maxRetries) ∧
    sends outcome.1 = repeated batches counts ∧ Accounted adapter.platform events batches counts ending outcome.2

/-- The delivery is exact for every configuration that the adapter takes. -/
def Delivers (adapter : Adapter) (events : List Value) (config : Config) : Prop :=
  ∀ own, adapter.validateConfig config = .ok own → Exact adapter events own (deliver (some adapter) events config)

/-- The first misshapen event is no map or only lacks keys, and no batch is refused for good. -/
structure Unharmed (adapter : Adapter) (events : List Value) (own : Config) : Prop where
  readable : ∀ before event after, events = before ++ event :: after → (∀ other ∈ before, WellShaped other) →
    event.isMap = true → shapeErrors event = []
  flushes : (∀ event ∈ events, WellShaped event) → ∀ batches counts reason, Cut own.batchSize events batches →
    ¬Sends adapter.sendEvents own.maxRetries 0 batches counts (.failed reason)

section Delivered
variable {adapter : Adapter} {events : List Value} {config own : Config}

theorem deliver_validated (valid : adapter.validateConfig config = .ok own) : deliver (some adapter) events config =
      match validateEvents events 0 with
      | none => ([], .raised adapter.platform badMatch)
      | some (some (index, missing)) => ([], .invalidEvent adapter.platform index missing)
      | some none =>
        let batches := chunkEvery own.batchSize own.positive events
        runBatches adapter.sendEvents own batches ⟨adapter.platform, events.length, batches.length, 0, 0⟩ 1 batches := by
  simp only [deliver, doDeliver, valid]
  all_goals rfl

/-- How the batches were sent, and what is told of it. -/
theorem deliver_sends (valid : adapter.validateConfig config = .ok own) (shaped : ∀ event ∈ events, WellShaped event) :
    ∃ batches counts ending, Cut own.batchSize events batches ∧
      Sends adapter.sendEvents own.maxRetries 0 batches counts ending ∧
      sends (deliver (some adapter) events config).1 = repeated batches counts ∧
      (deliver (some adapter) events config).2 =
        told batches ⟨adapter.platform, events.length, batches.length, 0, 0⟩ 1 counts ending := by
  obtain ⟨counts, ending, sending, sent, delivery⟩ := @runBatches_spec adapter.sendEvents own
    (chunkEvery own.batchSize own.positive events) (chunkEvery own.batchSize own.positive events)
    ⟨adapter.platform, events.length, (chunkEvery own.batchSize own.positive events).length, 0, 0⟩ 1
  rw [deliver_validated valid, validateEvents_wellShaped shaped]
  exact ⟨_, counts, ending, chunkEvery_cut _ _ _, sending, sent, delivery⟩

/-- The batch that fails is counted neither among the flushed nor among the unflushed ones. -/
theorem failing_uncounted {size : Nat} {batches : List (List Value)} (cut : Cut size events batches) {place : Nat}
    (within : place < batches.length) :
    (batches.take place).flatten ++ events.drop (events.length - (batches.drop (place + 1)).flatten.length) ≠ events := by
  intro whole
  have parts := congrArg (fun list => list.flatten.length) (List.take_append_drop place batches)
  have lengths := congrArg List.length whole
  have lost := (cut.within batches[place] (List.getElem_mem within)).1
  simp only [List.drop_eq_getElem_cons within, List.flatten_append, List.flatten_cons, List.length_append, cut.whole] at parts
  rw [List.length_append, List.length_drop] at lengths
  omega

theorem exact_flushes (valid : adapter.validateConfig config = .ok own)
    (exact : Exact adapter events own (deliver (some adapter) events config)) (shaped : ∀ event ∈ events, WellShaped event)
    {batches : List (List Value)} {counts : List Nat} {reason : Reason} (cut : Cut own.batchSize events batches) :
    ¬Sends adapter.sendEvents own.maxRetries 0 batches counts (.failed reason) := by
  intro failed
  obtain ⟨cutSo, countsSo, endingSo, cutting, sending, sent, delivery⟩ := deliver_sends valid shaped
  obtain ⟨told, tolds, ending, cutTold, sendingTold, _, _, accounted⟩ := exact.sent shaped
  obtain rfl := (cutting.unique own.positive).trans (cut.unique own.positive).symm
  obtain rfl := (cutTold.unique own.positive).trans (cut.unique own.positive).symm
  obtain ⟨rfl, rfl⟩ := sending.unique failed
  obtain ⟨rfl, rfl⟩ := sendingTold.unique failed
  obtain ⟨detail, answer, _, _, _, _, whole⟩ := accounted
  rw [delivery] at answer
  obtain rfl := (Delivery.failed.inj answer).2
  obtain ⟨place, counts_eq⟩ := Nat.exists_eq_succ_of_ne_zero failed.failed_nonempty.ne'
  have within := failed.within.1
  rw [counts_eq] at whole within
  simp only [Nat.succ_eq_add_one, Nat.add_sub_cancel, Nat.add_comm 1] at whole
  exact failing_uncounted cut within whole

theorem exact_readable (valid : adapter.validateConfig config = .ok own)
    (exact : Exact adapter events own (deliver (some adapter) events config)) {before after : List Value} {event : Value}
    (events_eq : events = before ++ event :: after) (shaped : ∀ other ∈ before, WellShaped other) (isMap : event.isMap = true) :
    shapeErrors event = [] := by
  by_contra shapes
  obtain ⟨_, missing, answer⟩ := exact.refused before event after events_eq shaped fun whole => shapes whole.2.2
  have unreadable : validateEvents events 0 = none := by
    rw [events_eq, validateEvents_after shaped, validateEvents, eventShapeErrors_unreadable isMap shapes]
    rfl
  rw [deliver_validated valid, unreadable] at answer
  cases answer

theorem refused_unharmed (valid : adapter.validateConfig config = .ok own) {before after : List Value} {event : Value}
    (events_eq : events = before ++ event :: after) (shaped : ∀ other ∈ before, WellShaped other) (misshapen : ¬WellShaped event)
    (readable : event.isMap = true → shapeErrors event = []) : sends (deliver (some adapter) events config).1 = [] ∧
      ∃ missing, (deliver (some adapter) events config).2 = .invalidEvent adapter.platform (before.length + 1) missing := by
  obtain ⟨first, more, errors⟩ := eventShapeErrors_misshapen misshapen readable
  have refused : validateEvents events 0 = some (some (before.length + 1, first :: more)) := by
    rw [events_eq, validateEvents_after shaped, validateEvents, errors, Nat.zero_add]
    rfl
  rw [deliver_validated valid, refused]
  exact ⟨rfl, _, rfl⟩

theorem exact_unharmed (valid : adapter.validateConfig config = .ok own) (unharmed : Unharmed adapter events own) :
    Exact adapter events own (deliver (some adapter) events config) where
  refused before event after events_eq shaped misshapen :=
    refused_unharmed valid events_eq shaped misshapen (unharmed.readable before event after events_eq shaped)
  sent shaped := by
    obtain ⟨batches, counts, ending, cut, sending, sent, delivery⟩ := deliver_sends valid shaped
    refine ⟨batches, counts, ending, cut, sending, sending.within.2, sent, ?_⟩
    rw [delivery]
    cases ending with
    | flushed =>
      rw [Accounted, told, sending.flushed_all, Nat.zero_add, Nat.zero_add]
    | failed reason => exact absurd sending (unharmed.flushes shaped batches counts reason cut)
    | raised summary => rfl

end Delivered

/-- The report accounts for every event just when no batch fails and no shape is wrong in the first event that is refused. -/
theorem delivers_iff (adapter : Adapter) (events : List Value) (config : Config) :
    Delivers adapter events config ↔ ∀ own, adapter.validateConfig config = .ok own → Unharmed adapter events own := by
  constructor
  · intro delivers own valid
    have exact := delivers own valid
    exact ⟨fun before event after events_eq shaped => exact_readable valid exact events_eq shaped,
      fun shaped batches counts reason cut => exact_flushes valid exact shaped cut⟩
  · exact fun unharmed own valid => exact_unharmed valid (unharmed own valid)

/-- The second of three batches is refused. -/
def refusing : Adapter where
  platform := "splunk_hec"
  validateConfig config := .ok config
  sendEvents
    | 1 => .error (.httpStatus 400)
    | _ => .ok 200

def occurrence : Value :=
  .map (requiredKeys.map fun key => (.text key, .text key))

theorem second_uncounted : ¬Delivers refusing [occurrence, occurrence, occurrence] { batchSize := 1 } := by
  intro delivers
  have shaped : ∀ event ∈ [occurrence, occurrence, occurrence], WellShaped event := by
    intro event mem
    obtain rfl : event = occurrence := by simpa using mem
    exact ⟨rfl, by decide, by decide⟩
  have accepted : Refused refusing.sendEvents 0 0 ∧ Refused refusing.sendEvents 1 0 :=
    ⟨fun attempt less => absurd less (Nat.not_lt_zero _), fun attempt less => absurd less (Nat.not_lt_zero _)⟩
  refine exact_flushes rfl (delivers _ rfl) shaped (chunkEvery_cut 1 (by decide) _)
    (?_ : Sends _ _ _ _ [1, 1] (.failed (.httpStatus 400)))
  have batches : chunkEvery 1 (by decide) [occurrence, occurrence, occurrence] = [[occurrence], [occurrence], [occurrence]] := by
    simp [chunkEvery]
  rw [batches]
  exact .flush accepted.1 (Nat.zero_le _) rfl (.fail accepted.2 (Nat.zero_le _) rfl (.inr rfl))

end AshA2A.Telemetry.SIEM
