import AshA2A.PreparedEffectStore.Journal
import Mathlib.Tactic.Ring

/-! Reading back the log: frames, cut frames, and what one more operation adds. -/

namespace AshA2A.PreparedEffectStore.Journal

/-! ## Frames -/

@[simp] theorem field_length (width value : Nat) : (field width value).length = width := by
  induction width generalizing value with
  | zero => rfl
  | succ width ih => simp [field, ih]

theorem number_field_from (width value start : Nat) :
    (field width value).foldl (fun value byte => value * 256 + byte.toNat) start =
      start * 256 ^ width + value % 256 ^ width := by
  induction width generalizing start with
  | zero => simp [field, Nat.mod_one]
  | succ width ih =>
    have digits : value % 256 ^ (width + 1) =
        256 ^ width * (value / 256 ^ width % 256) + value % 256 ^ width := by
      rw [Nat.pow_succ, Nat.mod_mul, Nat.add_comm]
    simp only [field, List.foldl_cons, ih, UInt8.toNat_ofNat', digits]
    ring

theorem number_field {width value : Nat} (fits : value < 256 ^ width) :
    number (field width value) = value := by
  rw [number, number_field_from, Nat.zero_mul, Nat.zero_add, Nat.mod_eq_of_lt fits]

theorem split_append (first rest : Bytes) : split first.length (first ++ rest) = some (first, rest) := by
  simp [split]

theorem split_take {first : Bytes} {cut : Nat} (rest : Bytes) (reached : first.length ≤ cut) :
    split first.length ((first ++ rest).take cut) = some (first, rest.take (cut - first.length)) := by
  rw [List.take_append, List.take_of_length_le reached, split_append]

theorem split_cut {first : Bytes} {cut : Nat} (rest : Bytes) (short : cut < first.length) :
    split first.length ((first ++ rest).take cut) = none := by
  have length : ((first ++ rest).take cut).length < first.length := by
    simp only [List.length_take]
    omega
  simp only [split, Nat.not_le.mpr length, if_false]

theorem split_more {count : Nat} {bytes first rest more : Bytes}
    (found : split count bytes = some (first, rest)) :
    split count (bytes ++ more) = some (first, rest ++ more) := by
  unfold split at found ⊢
  split at found
  next enough =>
    cases found
    rw [if_pos (by simp only [List.length_append]; omega), List.take_append_of_le_length enough,
      List.drop_append_of_le_length enough]
  next => cases found

theorem split_length {count : Nat} {bytes first rest : Bytes}
    (found : split count bytes = some (first, rest)) : rest.length + count = bytes.length := by
  unfold split at found
  split at found
  · cases found
    simp only [List.length_drop]
    omega
  · cases found

section

variable {body : Bytes} {tag : Tag}

theorem frame_length : (frame body tag).length = 4 + (body.length + (2 + tag.length)) := by
  simp [frame]

theorem readFrame_frame (fits : body.length < 2 ^ 32) (short : tag.length < 2 ^ 16) (rest : Bytes) :
    readFrame (frame body tag ++ rest) = some (body, tag, rest) := by
  have size := split_append (field 4 body.length) (body ++ (field 2 tag.length ++ (tag ++ rest)))
  have tagged := split_append (field 2 tag.length) (tag ++ rest)
  have sized : number (field 4 body.length) = body.length := number_field fits
  have labelled : number (field 2 tag.length) = tag.length := number_field short
  simp only [field_length] at size tagged
  simp only [readFrame, frame, List.append_assoc, size, Option.bind_eq_bind, Option.bind_some,
    sized, split_append, tagged, labelled, pure]

/-- A frame that is not all there is not a frame. -/
theorem readFrame_cut (fits : body.length < 2 ^ 32) (short : tag.length < 2 ^ 16) {cut : Nat}
    (torn : cut < (frame body tag).length) : readFrame ((frame body tag).take cut) = none := by
  rw [frame_length] at torn
  have sized : number (field 4 body.length) = body.length := number_field fits
  have labelled : number (field 2 tag.length) = tag.length := number_field short
  have header := field_length 4 body.length
  have middle := field_length 2 tag.length
  simp only [readFrame, frame]
  by_cases one : cut < 4
  · have none := split_cut (body ++ (field 2 tag.length ++ tag)) (header.symm ▸ one)
    rw [header] at none
    simp [none]
  · have first := split_take (body ++ (field 2 tag.length ++ tag))
      (header.symm ▸ Nat.not_lt.mp one)
    rw [header] at first
    simp only [first, Option.bind_eq_bind, Option.bind_some, sized]
    by_cases two : cut - 4 < body.length
    · simp [split_cut _ two]
    · simp only [split_take _ (Nat.not_lt.mp two), Option.bind_some]
      by_cases three : cut - 4 - body.length < 2
      · have none := split_cut tag (middle.symm ▸ three)
        rw [middle] at none
        simp [none]
      · have last := split_take tag (middle.symm ▸ Nat.not_lt.mp three)
        rw [middle] at last
        have left : cut - 4 - body.length - 2 < tag.length := by omega
        have ended := split_cut [] left
        rw [List.append_nil] at ended
        simp [last, labelled, ended]

theorem readFrame_more {bytes rest : Bytes} (more : Bytes)
    (found : readFrame bytes = some (body, tag, rest)) :
    readFrame (bytes ++ more) = some (body, tag, rest ++ more) := by
  simp only [readFrame, Option.bind_eq_bind, Option.bind_eq_some_iff, pure] at found ⊢
  obtain ⟨⟨_, _⟩, one, ⟨_, _⟩, two, ⟨_, _⟩, three, ⟨_, _⟩, four, same⟩ := found
  cases same
  exact ⟨_, split_more one, _, split_more two, _, split_more three, _, split_more four, rfl⟩

theorem readFrame_shorter {bytes rest : Bytes} (found : readFrame bytes = some (body, tag, rest)) :
    rest.length < bytes.length := by
  simp only [readFrame, Option.bind_eq_bind, Option.bind_eq_some_iff, pure] at found
  obtain ⟨⟨_, _⟩, one, ⟨_, _⟩, two, ⟨_, _⟩, three, ⟨_, _⟩, four, same⟩ := found
  cases same
  have first := split_length one
  have second := split_length two
  have third := split_length three
  have fourth := split_length four
  dsimp only at first second third fourth ⊢
  omega

end

/-! ## Replaying more of the log -/

variable {host : Host} {disk : Disk} {loaded : Loaded}

theorem replay_enough {fuel other : Nat} {bytes : Bytes} (loaded : Loaded)
    (enough : bytes.length ≤ fuel) (also : bytes.length ≤ other) :
    replay host fuel bytes loaded = replay host other bytes loaded := by
  induction fuel generalizing other bytes loaded with
  | zero =>
    rw [List.eq_nil_of_length_eq_zero (Nat.le_zero.mp enough)]
    cases other <;> rfl
  | succ fuel ih =>
    match other, bytes with
    | other, [] => cases other <;> rfl
    | 0, _ :: _ => simp at also
    | other + 1, byte :: bytes =>
      simp only [replay]
      cases found : readFrame (byte :: bytes) with
      | none => rfl
      | some parts =>
        obtain ⟨body, tag, rest⟩ := parts
        have shorter := readFrame_shorter found
        simp only [List.length_cons] at shorter enough also
        dsimp only
        cases replayFrame host body tag loaded with
        | error code => rfl
        | ok next => exact ih next (by omega) (by omega)

/-- A log that replays can be continued where it ends. -/
theorem replay_append {fuel : Nat} {bytes : Bytes} {start : Loaded}
    (replayed : replay host fuel bytes start = .ok loaded) (more : Bytes) :
    replay host (bytes ++ more).length (bytes ++ more) start =
      replay host more.length more loaded := by
  induction fuel generalizing bytes start with
  | zero =>
    cases bytes with
    | nil => cases replayed; rfl
    | cons => cases replayed
  | succ fuel ih =>
    cases bytes with
    | nil => cases replayed; rfl
    | cons byte bytes =>
      simp only [replay] at replayed
      simp only [List.cons_append, List.length_cons, replay]
      cases found : readFrame (byte :: bytes) with
      | none => simp [found] at replayed
      | some parts =>
        obtain ⟨body, tag, rest⟩ := parts
        have continued := readFrame_more more found
        have shorter := readFrame_shorter found
        simp only [List.length_cons] at shorter
        rw [List.cons_append] at continued
        simp only [found] at replayed
        simp only [continued]
        cases step : replayFrame host body tag start with
        | error code => simp [step] at replayed
        | ok next =>
          simp only [step] at replayed ⊢
          rw [← ih replayed]
          refine replay_enough next ?_ le_rfl
          simp only [List.length_append]
          omega

theorem load_log (read : load host disk = .ok loaded) :
    replay host disk.log.length disk.log {} = .ok loaded := by
  simp only [load, bind, Except.bind] at read
  cases replayed : replay host disk.log.length disk.log {} with
  | error code => simp [replayed] at read
  | ok given =>
    simp only [replayed, checkHead] at read
    split at read
    · split at read <;> cases read; rfl
    · split at read
      · cases read
      · simp only [bind, Except.bind] at read
        split at read
        · cases read
        · split at read
          · cases read
          · split at read <;> cases read; rfl

/-! ## One more operation -/

/-- The two terms that the event makes the store write. -/
def entryBody (loaded : Loaded) (event : Event) : Body := .entry (loaded.seq + 1) loaded.tag event

def entryTag (host : Host) (loaded : Loaded) (event : Event) : Tag :=
  host.mac (host.encode (entryBody loaded event))

/-- The encoded terms are shorter than the 32-bit length fields can say. -/
def Fits (host : Host) (loaded : Loaded) (events : List Event) : Prop :=
  ∀ event ∈ events, (host.encode (entryBody loaded event)).length < 2 ^ 32 ∧
    (host.encode (.head (loaded.seq + 1) (entryTag host loaded event))).length < 2 ^ 32

/-- What a call wants appended is at most one event, and it does to the maps what the
in-memory store does. -/
theorem mutation_cases {state : State} {call : Call} {events : List Event}
    (wanted : mutation state call = some (.ok events)) :
    (events = [] ∧ (Memory.handle state call = some (.ok, state) ∨
      ∃ digest, call = .fetch digest ∧
        Memory.handle state call = some (Memory.fetch state digest, state))) ∨
    ∃ event next, events = [event] ∧ applyEvent state event = some next ∧
      Memory.handle state call = some (.ok, next) := by
  have claimed : ∀ key id owner, claim state key id owner = .ok events →
      (events = [] ∧ Memory.claim state key id owner = (.ok, state)) ∨
      ∃ event next, events = [event] ∧ applyEvent state event = some next ∧
        Memory.claim state key id owner = (.ok, next) := by
    intro key id owner wanted
    unfold claim at wanted
    unfold Memory.claim
    cases found : state.owner key id with
    | none =>
      simp only [found] at wanted
      cases wanted
      exact .inr ⟨_, _, rfl, rfl, rfl⟩
    | some current =>
      simp only [found] at wanted ⊢
      split at wanted
      next same =>
        cases wanted
        exact .inl ⟨rfl, if_pos same⟩
      next => cases wanted
  cases call with
  | put record =>
    simp only [mutation] at wanted
    split at wanted
    · cases wanted
    next fresh =>
      cases wanted
      exact .inr ⟨_, _, rfl, rfl, by simp [Memory.handle, Memory.put, fresh]⟩
  | fetch digest => cases wanted; exact .inl ⟨rfl, .inr ⟨digest, rfl, rfl⟩⟩
  | transition digest source target =>
    simp only [mutation] at wanted
    cases found : state.records digest with
    | none => simp [found] at wanted
    | some record =>
      simp only [found, Option.map_eq_some_iff] at wanted
      obtain ⟨current, given, wanted⟩ := wanted
      split at wanted
      next admitted =>
        cases wanted
        refine .inr ⟨_, state.putRecord digest { record with state := some (.atom target) }, rfl, ?_, ?_⟩
        · simp only [applyEvent, found, Option.map_some]
        · simp only [Memory.handle, Memory.transition, found, given, if_pos admitted]
      next => cases wanted
  | claimRequest id owner =>
    rcases claimed .requests id owner (Option.some.inj wanted) with
      ⟨none, same⟩ | ⟨event, next, one, applied, same⟩
    · exact .inl ⟨none, .inl (congrArg some same)⟩
    · exact .inr ⟨event, next, one, applied, congrArg some same⟩
  | claimEffect id owner =>
    rcases claimed .effects id owner (Option.some.inj wanted) with
      ⟨none, same⟩ | ⟨event, next, one, applied, same⟩
    · exact .inl ⟨none, .inl (congrArg some same)⟩
    · exact .inr ⟨event, next, one, applied, congrArg some same⟩
  | complete digest outcome =>
    simp only [mutation, Option.some.injEq] at wanted
    cases found : state.records digest with
    | none => simp [found] at wanted
    | some record =>
      simp only [found] at wanted
      split at wanted
      next completed =>
        cases wanted
        refine .inr ⟨_, state.putRecord digest { record with outcome := some outcome }, rfl, ?_, ?_⟩
        · simp only [applyEvent, found, Option.map_some]
        · simp only [Memory.handle, Memory.complete, found, if_pos completed]
      next => cases wanted

theorem replayFrame_entry {event : Event} {next : State}
    (applied : applyEvent loaded.state event = some next) :
    replayFrame host (host.encode (entryBody loaded event)) (entryTag host loaded event) loaded =
      .ok ⟨loaded.seq + 1, entryTag host loaded event, next⟩ := by
  simp [replayFrame, verify, decodeEntry, checkSeq, host.decode_encode, entryBody, entryTag, applied, bind,
    Except.bind]

section

variable {event : Event} {next : State}

/-- The log with the whole frame of the event. -/
theorem replay_entry (read : load host disk = .ok loaded) (fits : Fits host loaded [event])
    (applied : applyEvent loaded.state event = some next) :
    let log := disk.log ++ frame (host.encode (entryBody loaded event)) (entryTag host loaded event)
    replay host log.length log {} = .ok ⟨loaded.seq + 1, entryTag host loaded event, next⟩ := by
  intro log
  have short := (fits event (List.mem_singleton_self event)).1
  have framed : readFrame
      (frame (host.encode (entryBody loaded event)) (entryTag host loaded event) ++ []) =
        some (host.encode (entryBody loaded event), entryTag host loaded event, []) :=
    readFrame_frame short (host.mac_short _) []
  rw [List.append_nil] at framed
  rw [replay_append (load_log read)]
  obtain ⟨byte, bytes, shape⟩ : ∃ byte bytes,
      frame (host.encode (entryBody loaded event)) (entryTag host loaded event) = byte :: bytes := by
    refine List.exists_cons_of_length_pos ?_
    rw [frame_length]
    omega
  rw [shape, List.length_cons, replay, ← shape]
  simp only [framed, replayFrame_entry applied]
  cases bytes <;> rfl

/-- The log with a part of the frame. -/
theorem load_torn (read : load host disk = .ok loaded) (fits : Fits host loaded [event]) {cut : Nat}
    (begun : 0 < cut)
    (torn : cut < (frame (host.encode (entryBody loaded event)) (entryTag host loaded event)).length)
    (head : Option Bytes) :
    load host { log := disk.log ++
        (frame (host.encode (entryBody loaded event)) (entryTag host loaded event)).take cut
                head := head } = .error .journalCorrupt := by
  have short := (fits event (List.mem_singleton_self event)).1
  have unread : readFrame ((frame (host.encode (entryBody loaded event))
      (entryTag host loaded event)).take cut) = none := readFrame_cut short (host.mac_short _) torn
  simp only [load]
  rw [replay_append (load_log read)]
  obtain ⟨byte, bytes, shape⟩ : ∃ byte bytes, (frame (host.encode (entryBody loaded event))
      (entryTag host loaded event)).take cut = byte :: bytes := by
    refine List.exists_cons_of_length_pos ?_
    rw [List.length_take]
    omega
  rw [shape, List.length_cons, replay, ← shape]
  simp only [unread]
  rfl

theorem checkHead_headFile {seq : Nat} {tag : Tag} (fits : (host.encode (.head seq tag)).length < 2 ^ 32)
    (reached : seq ≤ loaded.seq) : checkHead host (some (headFile host seq tag)) loaded = .ok loaded := by
  have size := split_append (field 4 (host.encode (.head seq tag)).length)
    (host.encode (.head seq tag) ++ host.mac (host.encode (.head seq tag)))
  have sized : number (field 4 (host.encode (.head seq tag)).length) = (host.encode (.head seq tag)).length :=
    number_field fits
  rw [field_length] at size
  have read : readHead (headFile host seq tag) =
      some (host.encode (.head seq tag), host.mac (host.encode (.head seq tag))) := by
    simp only [readHead, headFile, size, Option.bind_eq_bind, Option.bind_some, sized, split_append]
  simp [checkHead, read, verify, decodeHead, host.decode_encode, bind, Except.bind, Nat.not_lt.mpr reached]

theorem load_append (read : load host disk = .ok loaded) (fits : Fits host loaded [event])
    (applied : applyEvent loaded.state event = some next) :
    load host (append host disk loaded [event]) =
      .ok ⟨loaded.seq + 1, entryTag host loaded event, next⟩ := by
  have replayed := replay_entry read fits applied
  have headed := (fits event (List.mem_singleton_self event)).2
  simp only [entryTag, entryBody] at replayed headed ⊢
  simp only [load, append, List.cons_ne_nil, if_false, frames, List.append_nil, replayed, bind, Except.bind]
  exact checkHead_headFile headed le_rfl

end

/-- A head that is there stays a lower bound of the log. -/
theorem checkHead_later {head : Option Bytes} {later : Loaded} (present : head ≠ none)
    (read : load host disk = .ok loaded) (same : disk.head = head) (reached : loaded.seq ≤ later.seq) :
    checkHead host head later = .ok later := by
  simp only [load, load_log read, bind, Except.bind, same] at read
  cases head with
  | none => exact absurd rfl present
  | some bytes =>
    simp only [checkHead] at read ⊢
    cases parsed : readHead bytes with
    | none => simp [parsed] at read
    | some parts =>
      obtain ⟨body, tag⟩ := parts
      simp only [parsed, bind, Except.bind] at read ⊢
      cases verified : verify host body tag with
      | error code => simp [verified] at read
      | ok _ =>
        simp only [verified] at read ⊢
        cases decoded : decodeHead host body with
        | error code => simp [decoded] at read
        | ok seq =>
          simp only [decoded] at read ⊢
          split at read
          · cases read
          next bound => rw [if_neg (by omega)]

end AshA2A.PreparedEffectStore.Journal
