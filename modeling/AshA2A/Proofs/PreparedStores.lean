import AshA2A.Crypto
import AshA2A.Proofs.PreparedJournal

/-! What the journalled store keeps of its promise: across a crash inside an operation, and
next to the in-memory store across whole sequences of calls. -/

namespace AshA2A.PreparedEffectStore

deriving instance Encodable for Record
deriving instance Encodable for Key
deriving instance Encodable for Journal.Event

namespace Journal

instance encodableByte : Encodable UInt8 := Encodable.ofLeftInverse UInt8.toNat UInt8.ofNat fun _ => UInt8.ofNat_toNat

deriving instance Encodable for Body

/-- A host that spells the terms of a table briefly and all others at length. -/
def Host.spelling (table : List Body) : Host where
  encode body :=
    if body ∈ table then List.replicate (table.idxOf body) 0 ++ [1]
    else List.replicate (Encodable.encode body) 0 ++ [2]
  decode bytes :=
    match bytes.getLast? with
    | some 1 => table[bytes.length - 1]?
    | some 2 => Encodable.decode (bytes.length - 1)
    | _ => none
  mac bytes := bytes.take 32
  decode_encode body := by
    by_cases known : body ∈ table
    · simp [known, List.getElem?_idxOf]
    · simp [known]
  mac_short bytes := by
    simp only [List.length_take]
    omega

variable {host : Host} {disk : Disk} {loaded : Loaded} {call : Call} {events : List Event}
  {answer : Answer} {after : State} {point : Point}

/-! ## A crash inside an operation -/

/-- The next load finds the state before the operation or the state after it, and the latter
once the call may have been acknowledged. -/
def Survives (host : Host) (disk : Disk) (loaded : Loaded) (events : List Event) (after : State)
    (point : Point) : Prop :=
  ∃ found, load host (crashed host disk loaded events point) = .ok found ∧
    (found.state = loaded.state ∨ found.state = after) ∧ (point = .renamed → found.state = after)

/-- Nothing of the frame is in the log, or all of it, with a head file beside it. -/
def Intact (host : Host) (disk : Disk) (loaded : Loaded) (events : List Event) : Point → Prop
  | .logged count => events = [] ∨ count = 0 ∨
    ((frames host events loaded.seq loaded.tag).1.length ≤ count ∧ disk.head ≠ none)
  | .renamed => True

theorem crashed_untouched : crashed host disk loaded events (.logged 0) = disk := by simp [crashed]

theorem crashed_idle (point : Point) : crashed host disk loaded [] point = disk := by
  cases point <;> simp [crashed, append, frames]

theorem frames_single (event : Event) : (frames host [event] loaded.seq loaded.tag).1 =
    frame (host.encode (entryBody loaded event)) (entryTag host loaded event) := by
  simp [frames, entryBody, entryTag]

/-- All of the frame is there. -/
theorem load_logged {event : Event} {next : State} (read : load host disk = .ok loaded)
    (fits : Fits host loaded [event]) (applied : applyEvent loaded.state event = some next) {count : Nat}
    (all : (frames host [event] loaded.seq loaded.tag).1.length ≤ count) :
    load host (crashed host disk loaded [event] (.logged count)) =
      if disk.head = none then .error .journalTruncated
      else .ok ⟨loaded.seq + 1, entryTag host loaded event, next⟩ := by
  have replayed := replay_entry read fits applied
  rw [frames_single] at all
  simp only [crashed, frames_single, List.take_of_length_le all, load, bind, Except.bind, replayed]
  split
  next absent => simp [checkHead, absent]
  next present => exact checkHead_later present read rfl (Nat.le_succ _)

theorem crash_survived_iff (read : load host disk = .ok loaded)
    (wanted : mutation loaded.state call = some (.ok events)) (fits : Fits host loaded events)
    (answered : Memory.handle loaded.state call = some (answer, after)) :
    Survives host disk loaded events after point ↔ Intact host disk loaded events point := by
  rcases mutation_cases wanted with ⟨rfl, idle⟩ | ⟨event, next, rfl, applied, same⟩
  · have unchanged : after = loaded.state := by
      rcases idle with same | ⟨digest, _, same⟩
      all_goals cases same.symm.trans answered; rfl
    subst unchanged
    have intact : Intact host disk loaded [] point := by cases point <;> simp [Intact]
    exact iff_of_true ⟨loaded, by rw [crashed_idle, read], .inl rfl, fun _ => rfl⟩ intact
  · cases same.symm.trans answered
    cases point with
    | renamed =>
      refine iff_of_true ⟨_, load_append read fits applied, .inr rfl, fun _ => rfl⟩ trivial
    | logged count =>
      by_cases all : (frames host [event] loaded.seq loaded.tag).1.length ≤ count
      · have found := load_logged read fits applied all
        have positive : count ≠ 0 := by
          rw [frames_single, frame_length] at all
          omega
        simp only [Survives, Intact, found, List.cons_ne_nil, positive, all, false_or, true_and]
        by_cases absent : disk.head = none
        · simp [absent]
        · simp only [absent, if_false, not_false_eq_true, ne_eq, iff_true]
          exact ⟨_, rfl, .inr rfl, fun impossible => by cases impossible⟩
      · by_cases begun : count = 0
        · subst begun
          refine iff_of_true ⟨loaded, by rw [crashed_untouched, read], .inl rfl, ?_⟩ (.inr (.inl rfl))
          intro impossible
          cases impossible
        · have torn : load host (crashed host disk loaded [event] (.logged count)) =
              .error .journalCorrupt := by
            rw [frames_single] at all
            simp only [crashed, frames_single]
            exact load_torn read fits (Nat.pos_of_ne_zero begun) (Nat.not_le.mp all) _
          simp [Survives, Intact, torn, begun, all]

/-- A record as it is sealed. -/
def sealed : Record := ⟨"effect", some (.atom "prepared"), none, []⟩

def putSealed : Event := .put { sealed with outcome := some .nil }

def sealedHost : Host :=
  Host.spelling [.entry 1 [] putSealed, .head 1 (.cons 1 [])]

theorem sealedHost_fits : Fits sealedHost {} [putSealed] := by
  intro event member
  rw [List.mem_singleton.mp member]
  decide

theorem crash_survived_iff_renamed : ∃ after, Memory.handle {} (.put sealed) = some (.ok, after) ∧
    (Survives sealedHost {} {} [putSealed] after .renamed ↔
      Intact sealedHost {} {} [putSealed] .renamed) :=
  have wanted : mutation ({} : State) (.put sealed) = some (.ok [putSealed]) := rfl
  have answered : Memory.handle {} (.put sealed) =
      some (.ok, ({} : State).putRecord "effect" { sealed with outcome := some .nil }) := rfl
  ⟨_, answered, crash_survived_iff rfl wanted sealedHost_fits answered⟩

/-- One byte of the first frame is enough, and so is the whole frame without a head file. -/
theorem put_torn : (¬ ∃ after, Survives sealedHost {} {} [putSealed] after (.logged 1)) ∧
    ¬ ∃ after, Survives sealedHost {} {} [putSealed] after
      (.logged (frames sealedHost [putSealed] 0 []).1.length) := by
  have torn : load sealedHost (crashed sealedHost {} {} [putSealed] (.logged 1)) =
      .error .journalCorrupt := rfl
  have unheaded : load sealedHost (crashed sealedHost {} {} [putSealed]
      (.logged (frames sealedHost [putSealed] 0 []).1.length)) = .error .journalTruncated :=
    load_logged rfl sealedHost_fits rfl le_rfl
  constructor
  · rintro ⟨_, found, loads, _⟩
    cases torn.symm.trans loads
  · rintro ⟨_, found, loads, _⟩
    cases unheaded.symm.trans loads

/-! ## Next to the in-memory store -/

/-- Everything that the steps append can be framed. -/
def Frames (host : Host) : Disk → List Step → Prop
  | _, [] => True
  | disk, .restart :: steps => Frames host disk steps
  | disk, .call call :: steps =>
    (∀ loaded events, load host disk = .ok loaded → mutation loaded.state call = some (.ok events) →
      Fits host loaded events) ∧ Frames host (serve host disk call).2 steps

def calls : List Step → List Call
  | [] => []
  | .restart :: steps => calls steps
  | .call call :: steps => call :: calls steps

/-- What the two stores decide is the same. -/
theorem mutation_refused {state : State} {code : Error}
    (refused : mutation state call = some (.error code)) :
    Memory.handle state call = some (.error code, state) := by
  have claimed : ∀ key id owner, claim state key id owner = .error code →
      Memory.claim state key id owner = (.error code, state) := by
    intro key id owner refused
    unfold claim at refused
    unfold Memory.claim
    cases found : state.owner key id with
    | none => simp [found] at refused
    | some current =>
      simp only [found] at refused ⊢
      split at refused
      · cases refused
      next different => cases refused; rw [if_neg different]
  cases call with
  | put record =>
    simp only [mutation] at refused
    split at refused
    next present => cases refused; simp [Memory.handle, Memory.put, present]
    · cases refused
  | fetch digest => cases refused
  | transition digest source target =>
    simp only [mutation] at refused
    cases found : state.records digest with
    | none =>
      simp only [found] at refused
      cases refused
      simp [Memory.handle, Memory.transition, found]
    | some record =>
      simp only [found, Option.map_eq_some_iff] at refused
      obtain ⟨current, given, refused⟩ := refused
      split at refused
      · cases refused
      next rejected =>
        cases refused
        simp only [Memory.handle, Memory.transition, found, given, if_neg rejected]
  | claimRequest id owner => exact congrArg some (claimed .requests id owner (Option.some.inj refused))
  | claimEffect id owner => exact congrArg some (claimed .effects id owner (Option.some.inj refused))
  | complete digest outcome =>
    simp only [mutation, Option.some.injEq] at refused
    cases found : state.records digest with
    | none =>
      simp only [found] at refused
      cases refused
      simp [Memory.handle, Memory.complete, found]
    | some record =>
      simp only [found] at refused
      split at refused
      · cases refused
      next rejected =>
        cases refused
        simp only [Memory.handle, Memory.complete, found, if_neg rejected]

theorem mutation_raised {state : State} (raised : mutation state call = none) :
    Memory.handle state call = none := by
  cases call with
  | transition digest source target =>
    simp only [mutation] at raised
    cases found : state.records digest with
    | none => simp [found] at raised
    | some record =>
      simp only [found, Option.map_eq_none_iff] at raised
      simp [Memory.handle, Memory.transition, found, raised]
  | _ => simp [mutation] at raised

/-- A call that is not a read answers as its events are journalled. -/
theorem serve_mutation (read : load host disk = .ok loaded) (other : ¬ ∃ digest, call = .fetch digest) :
    serve host disk call =
      match mutation loaded.state call with
      | none => (.raised, disk)
      | some (.error code) => (.error code, disk)
      | some (.ok events) => (.ok, append host disk loaded events) := by
  simp only [serve, read]
  cases call <;> first | rfl | exact absurd ⟨_, rfl⟩ other

/-- One call: the same answer, and the journal again holds what the agent does. -/
theorem serve_refines (read : load host disk = .ok loaded)
    (framed : ∀ events, mutation loaded.state call = some (.ok events) → Fits host loaded events)
    (handled : Memory.handle loaded.state call = some (answer, after)) :
    (serve host disk call).1 = answer ∧
      ∃ later, load host (serve host disk call).2 = .ok later ∧ later.state = after := by
  by_cases reading : ∃ digest, call = .fetch digest
  · obtain ⟨digest, rfl⟩ := reading
    cases handled
    refine ⟨?_, loaded, by simp [serve, read], rfl⟩
    cases found : loaded.state.records digest <;> simp only [serve, read, fetch, Memory.fetch, found]
  · rw [serve_mutation read reading]
    cases decided : mutation loaded.state call with
    | none => simp [mutation_raised decided] at handled
    | some decision =>
      cases decision with
      | error code =>
        cases (mutation_refused decided).symm.trans handled
        exact ⟨rfl, loaded, read, rfl⟩
      | ok events =>
        rcases mutation_cases decided with ⟨rfl, same | ⟨digest, rfl, _⟩⟩ | ⟨event, next, rfl, applied, same⟩
        · cases same.symm.trans handled
          exact ⟨rfl, loaded, by simp [append, read], rfl⟩
        · exact absurd ⟨digest, rfl⟩ reading
        · cases same.symm.trans handled
          exact ⟨rfl, _, load_append read (framed _ decided) applied, rfl⟩

/-- From equal states, as long as no call raises in the agent. -/
theorem answers_from (steps : List Step) (read : load host disk = .ok loaded)
    (framed : Frames host disk steps)
    (alive : .raised ∉ Memory.answers (some loaded.state) (calls steps)) :
    answers host disk steps = Memory.answers (some loaded.state) (calls steps) := by
  induction steps generalizing disk loaded with
  | nil => rfl
  | cons step steps ih =>
    cases step with
    | restart => exact ih read framed alive
    | call call =>
      simp only [calls, Memory.answers, Memory.serve, Option.bind_some] at alive ⊢
      cases handled : Memory.handle loaded.state call with
      | none => simp [handled] at alive
      | some served =>
        obtain ⟨answer, after⟩ := served
        obtain ⟨same, later, reads, state⟩ :=
          serve_refines read (fun events wanted => framed.1 loaded events read wanted) handled
        simp only [handled, List.mem_cons, not_or] at alive
        simp only [answers, same]
        rw [← state] at alive ⊢
        rw [ih reads framed.2 alive.2]

theorem answers_refine (steps : List Step) (framed : Frames host {} steps)
    (alive : .raised ∉ Memory.answers (some {}) (calls steps)) :
    answers host {} steps = Memory.answers (some {}) (calls steps) :=
  answers_from steps rfl framed alive

def sealedSteps : List Step := [.call (.put sealed), .restart, .call (.fetch "effect")]

theorem answers_refine_restarted :
    answers sealedHost {} sealedSteps = Memory.answers (some {}) (calls sealedSteps) := by
  have framed : Frames sealedHost {} sealedSteps := by
    refine ⟨?_, ?_, trivial⟩
    · intro loaded events read wanted
      cases read
      cases wanted
      exact sealedHost_fits
    · intro loaded events read wanted
      cases wanted
      intro event member
      cases member
  exact answers_refine sealedSteps framed (by decide)

/-- A record that is put without a state. -/
def stateless : Record := ⟨"effect", none, none, []⟩

def putStateless : Event := .put { stateless with outcome := some .nil }

/-- The transition raises in the agent, which is gone from then on; in the journalled store it
raises in the caller. -/
theorem stateless_differs :
    let host := Host.spelling [.entry 1 [] putStateless, .head 1 (.cons 1 [])]
    let steps := [.call (.put stateless), .call (.transition "effect" "prepared" "claimed"),
      .call (.fetch "effect")]
    answers host {} steps ≠ Memory.answers (some {}) (calls steps) := by
  decide

end Journal

end AshA2A.PreparedEffectStore
