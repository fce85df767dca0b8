import AshA2A.PreparedEffectStore
import Mathlib.Algebra.Group.Nat.Defs

/-! The journalled store: an append-only log of operations under a keyed chain, and a head
file that says how far the log must reach. Every call reads the log again. -/

namespace AshA2A.PreparedEffectStore.Journal

abbrev Bytes := List UInt8

abbrev Tag := Bytes

inductive Event where
  | put (record : Record)
  | transition (digest source target : String)
  | complete (digest : String) (outcome : Term)
  | claim (key : Key) (id : String) (owner : Term)
  deriving Repr, DecidableEq

/-- The terms that are written: an entry of the log, and the head. -/
inductive Body where
  | entry (seq : Nat) (previous : Tag) (event : Event)
  | head (seq : Nat) (tag : Tag)
  deriving Repr, DecidableEq

/-- What the code is given: the external term format, read back to the same term, and the
key custody, whose tags are short. -/
structure Host where
  encode : Body → Bytes
  decode : Bytes → Option Body
  mac : Bytes → Tag
  decode_encode : ∀ body, decode (encode body) = some body
  mac_short : ∀ bytes, (mac bytes).length < 2 ^ 16

structure Loaded where
  seq : Nat := 0
  tag : Tag := []
  state : State := {}

/-- The two files. -/
structure Disk where
  log : Bytes := []
  head : Option Bytes := none

/-! ## Bytes -/

/-- The big-endian field of so many bytes; a number that does not fit loses its upper part. -/
def field : Nat → Nat → Bytes
  | 0, _ => []
  | width + 1, number => UInt8.ofNat (number / 256 ^ width) :: field width number

def number (bytes : Bytes) : Nat := bytes.foldl (fun value byte => value * 256 + byte.toNat) 0

/-- `binary-size(count)` in a pattern. -/
def split (count : Nat) (bytes : Bytes) : Option (Bytes × Bytes) :=
  if count ≤ bytes.length then some (bytes.take count, bytes.drop count) else none

def frame (body : Bytes) (tag : Tag) : Bytes :=
  field 4 body.length ++ (body ++ (field 2 tag.length ++ tag))

def readFrame (bytes : Bytes) : Option (Bytes × Tag × Bytes) := do
  let (size, bytes) ← split 4 bytes
  let (body, bytes) ← split (number size) bytes
  let (size, bytes) ← split 2 bytes
  let (tag, rest) ← split (number size) bytes
  pure (body, tag, rest)

/-! ## Loading -/

/-- `put_in/3` below a key that is absent raises. -/
def applyEvent (state : State) : Event → Option State
  | .put record => some (state.putRecord record.digest record)
  | .transition digest _ target => (state.records digest).map fun record =>
    state.putRecord digest { record with state := some (.atom target) }
  | .complete digest outcome => (state.records digest).map fun record =>
    state.putRecord digest { record with outcome := some outcome }
  | .claim key id owner => some (state.putOwner key id owner)

variable (host : Host)

def verify (bytes : Bytes) (tag : Tag) : Except Error Unit :=
  if host.mac bytes = tag then .ok () else .error .preparedAuthenticationFailed

def decodeEntry (bytes : Bytes) : Except Error (Nat × Tag × Event) :=
  match host.decode bytes with
  | some (.entry seq previous event) => .ok (seq, previous, event)
  | _ => .error .journalCorrupt

def checkSeq (seq : Nat) (previous : Tag) (loaded : Loaded) : Except Error Unit :=
  if seq ≠ loaded.seq + 1 then .error .journalSequenceGap
  else if previous ≠ loaded.tag then .error .preparedAuthenticationFailed
  else .ok ()

/-- One frame of the log. -/
def replayFrame (body : Bytes) (tag : Tag) (loaded : Loaded) : Except Error Loaded := do
  verify host body tag
  let (seq, previous, event) ← decodeEntry host body
  checkSeq seq previous loaded
  match applyEvent loaded.state event with
  | some state => .ok ⟨seq, tag, state⟩
  | none => .error .journalCorrupt

/-- Each frame is longer than nothing, so the length of the log is fuel enough. -/
def replay : Nat → Bytes → Loaded → Except Error Loaded
  | _, [], loaded => .ok loaded
  | 0, _ :: _, _ => .error .journalCorrupt
  | fuel + 1, bytes@(_ :: _), loaded =>
    match readFrame bytes with
    | none => .error .journalCorrupt
    | some (body, tag, rest) =>
      match replayFrame host body tag loaded with
      | .ok loaded => replay fuel rest loaded
      | .error code => .error code

def decodeHead (bytes : Bytes) : Except Error Nat :=
  match host.decode bytes with
  | some (.head seq _) => .ok seq
  | _ => .error .journalCorrupt

def readHead (bytes : Bytes) : Option (Bytes × Tag) := do
  let (size, bytes) ← split 4 bytes
  split (number size) bytes

def checkHead (head : Option Bytes) (loaded : Loaded) : Except Error Loaded :=
  match head with
  | none => if loaded.seq = 0 then .ok loaded else .error .journalTruncated
  | some bytes =>
    match readHead bytes with
    | none => .error .journalCorrupt
    | some (body, tag) => do
      verify host body tag
      let seq ← decodeHead host body
      if loaded.seq < seq then .error .journalTruncated else .ok loaded

def load (disk : Disk) : Except Error Loaded := do
  let loaded ← replay host disk.log.length disk.log {}
  checkHead host disk.head loaded

/-! ## Operations -/

/-- What a call wants appended. `none` is a call that raises. -/
def claim (state : State) (key : Key) (id : String) (owner : Term) : Except Error (List Event) :=
  match state.owner key id with
  | none => .ok [.claim key id owner]
  | some current => if current = owner then .ok [] else .error .claimConflict

def mutation (state : State) : Call → Option (Except Error (List Event))
  | .put record => some (
    if (state.records record.digest).isSome then .error .preparedDuplicate
    else .ok [.put { record with outcome := some .nil }])
  | .transition digest source target =>
    match state.records digest with
    | none => some (.error .preparedTransitionRefused)
    | some record => record.state.map fun current =>
      if current = .atom source ∧ Transition.admit source target then
        .ok [.transition digest source target]
      else .error .preparedTransitionRefused
  | .claimRequest id owner => some (claim state .requests id owner)
  | .claimEffect id owner => some (claim state .effects id owner)
  | .complete digest outcome => some (
    match state.records digest with
    | some record =>
      if record.state = some (.atom "completed") then .ok [.complete digest outcome]
      else .error .preparedNotCompleted
    | none => .error .preparedRecordMissing)
  | .fetch _ => some (.ok [])

/-- The frames of the events, and where they leave the chain. -/
def frames : List Event → Nat → Tag → Bytes × Nat × Tag
  | [], seq, tag => ([], seq, tag)
  | event :: events, seq, tag =>
    let body := host.encode (.entry (seq + 1) tag event)
    let (bytes, last) := frames events (seq + 1) (host.mac body)
    (frame body (host.mac body) ++ bytes, last)

def headFile (seq : Nat) (tag : Tag) : Bytes :=
  let body := host.encode (.head seq tag)
  field 4 body.length ++ (body ++ host.mac body)

/-- The bytes of the log come first; the head is replaced in one step when they are synced. -/
def append (disk : Disk) (loaded : Loaded) (events : List Event) : Disk :=
  if events = [] then disk
  else
    let (bytes, seq, tag) := frames host events loaded.seq loaded.tag
    { log := disk.log ++ bytes, head := some (headFile host seq tag) }

def fetch (state : State) (digest : String) : Answer :=
  match state.records digest with
  | some record => .found record
  | none => .notFound

def serve (disk : Disk) (call : Call) : Answer × Disk :=
  match load host disk with
  | .error code => (.error code, disk)
  | .ok loaded =>
    match call with
    | .fetch digest => (fetch loaded.state digest, disk)
    | call =>
      match mutation loaded.state call with
      | none => (.raised, disk)
      | some (.error code) => (.error code, disk)
      | some (.ok events) => (.ok, append host disk loaded events)

/-- What a caller does with a handle. A restart opens the same directory with the same key:
the handle holds nothing else. -/
inductive Step where
  | call (call : Call)
  | restart
  deriving Repr, DecidableEq

def answers : Disk → List Step → List Answer
  | _, [] => []
  | disk, .restart :: steps => answers disk steps
  | disk, .call call :: steps =>
    let (answer, disk) := serve host disk call
    answer :: answers disk steps

/-- How far a call came before the process stopped. -/
inductive Point where
  /-- So many bytes of the frames are in the log; whatever there is of the new head is in
  its temporary file. -/
  | logged (count : Nat)
  /-- The new head is in place: the call may have been acknowledged. -/
  | renamed

/-- The files that are left. -/
def crashed (disk : Disk) (loaded : Loaded) (events : List Event) : Point → Disk
  | .logged count =>
    { disk with log := disk.log ++ (frames host events loaded.seq loaded.tag).1.take count }
  | .renamed => append host disk loaded events

end AshA2A.PreparedEffectStore.Journal
