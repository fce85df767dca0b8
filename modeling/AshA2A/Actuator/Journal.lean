import AshA2A.Actuator.Fence
import AshA2A.AppendLog
import AshA2A.Sa2aCrypto
import Mathlib.Data.List.AList
import Mathlib.Logic.Function.Basic

/-! Hash-chained lines: the effect ledger, and the chain check that the write-ahead journal
shares with it. -/

namespace AshA2A.Actuator

open Sa2aCrypto AppendLog

/-! ## Chains -/

/-- A chain of lines as far as it was checked, oldest first. -/
structure Chain where
  events : List Json := []
  hashes : List String := []
  head : String
  deriving Repr

/-- Where a chain breaks, and why. -/
structure Broken where
  index : Nat
  why : String
  deriving Repr, DecidableEq

namespace Ledger

def zero : String := String.ofList (List.replicate 64 '0')

variable (host : Host)

/-- The hash of a line without its hash, unless it cannot be encoded. -/
def hash (prev : String) (body : Json) : Option String :=
  (host.library.encode body).map fun text => host.sha256 (prev.toUTF8.toList ++ text)

/-- The last line of a chain with its position and its hash. -/
def chained (entries : List (String × Json)) (seq : Nat) (prev : String) : Option (Json × String) :=
  let body := entries ++ [("seq", .int seq), ("prev", .string prev)]
  (hash host prev (.object body)).map fun hash => (.object (body ++ [("hash", .string hash)]), hash)

/-- The decoded lines, if every one of them can be decoded. -/
def read (file : File Json) : Option (List Json) := file.lines.mapM fun line => line.map Json.lastWins

def link (chain : Chain) (event : Json) : Except Broken Chain :=
  let count := chain.events.length
  if event.number? "seq" ≠ some (count : Rat) then .error ⟨count, "seq"⟩
  else if event.string? "prev" ≠ some chain.head then .error ⟨count, "prev"⟩
  else match hash host chain.head (event.without "hash") with
    | none => .error ⟨0, "unparseable"⟩
    | some hash =>
      if event.string? "hash" = some hash then
        .ok ⟨chain.events ++ [event], chain.hashes ++ [hash], hash⟩
      else .error ⟨count, "hash"⟩

def links (chain : Chain) : List Json → Except Broken Chain
  | [] => .ok chain
  | event :: events =>
    match link host chain event with
    | .ok chain => links chain events
    | .error broken => .error broken

/-- The whole chain of a file, derived again. -/
def verify (file : File Json) : Except Broken Chain :=
  match read file with
  | none => .error ⟨0, "unparseable"⟩
  | some events => links host ⟨[], [], zero⟩ events

end Ledger

/-! ## The effect ledger -/

/-- The position of the open ledger. -/
structure Ledger where
  seq : Nat := 0
  head : String := Ledger.zero
  deriving Repr, DecidableEq

/-- What `append/2` is given. -/
structure Ledger.Entry where
  effectInstanceId : String
  effectDigest : String
  entry : String
  deriving Repr, DecidableEq

def Ledger.Entry.fields (entry : Ledger.Entry) : List (String × Json) :=
  [("effect_instance_id", .string entry.effectInstanceId), ("effect_digest", .string entry.effectDigest),
    ("entry", .string entry.entry)]

end AshA2A.Actuator

/-! The write-ahead journal: its events, the checks that tie it to the ledger and to the
anchor, and the records it folds to. -/

namespace AshA2A.Actuator

open Sa2aCrypto AppendLog

inductive Resolution where
  | confirmedPerformed | confirmedNotPerformed
  deriving Repr, DecidableEq

def Resolution.name : Resolution → String
  | .confirmedPerformed => "confirmed_performed"
  | .confirmedNotPerformed => "confirmed_not_performed"

def Resolution.state : Resolution → RecordState
  | .confirmedPerformed => .completed
  | .confirmedNotPerformed => .reconciledNotPerformed

/-- What the store journals, without its time. -/
inductive Event where
  | executing (instanceId : String) (generation : Nat) (effectDigest : String) (nonces : List (String × String))
  | completed (instanceId : String) (ledgerSeq : Option Nat) (ledgerHash : Option String)
  | unknownOutcome (instanceId reason : String)
  | reconciled (instanceId : String) (resolution : Resolution) (note : String)
  deriving Repr, DecidableEq

namespace Event

def instanceId : Event → String
  | .executing instanceId _ _ _ | .completed instanceId _ _ | .unknownOutcome instanceId _
  | .reconciled instanceId _ _ => instanceId

def fields (time : Int) : Event → List (String × Json)
  | .executing instanceId generation effectDigest nonces =>
    [("t", .string "executing"), ("instance_id", .string instanceId), ("generation", .int generation),
      ("effect_digest", .string effectDigest),
      ("nonces", .array (nonces.map fun (kid, nonce) => .array [.string kid, .string nonce])),
      ("at", .int time)]
  | .completed instanceId ledgerSeq ledgerHash =>
    [("t", .string "completed"), ("instance_id", .string instanceId),
      ("ledger_seq", (ledgerSeq.map fun seq => .int seq).getD .null),
      ("ledger_hash", (ledgerHash.map .string).getD .null), ("at", .int time)]
  | .unknownOutcome instanceId reason =>
    [("t", .string "unknown_outcome"), ("instance_id", .string instanceId), ("reason", .string reason),
      ("at", .int time)]
  | .reconciled instanceId resolution note =>
    [("t", .string "reconciled"), ("instance_id", .string instanceId), ("resolution", .string resolution.name),
      ("note", .string note), ("at", .int time)]

end Event

/-! ## The anchor -/

structure Anchor where
  journalSeq : Nat
  journalHead : String
  ledgerSeq : Nat
  ledgerHead : String
  deriving Repr, DecidableEq

namespace Anchor

/-- What is read where the anchor stands. -/
inductive Found where
  | missing | corrupt
  | found (anchor : Anchor)
  deriving Repr, DecidableEq

/-- The file still has the anchored head at the anchored position. -/
def prefixOk (code : String) (count : Nat) (head : String) (hashes : List String) : Except String Unit :=
  if count = 0 then if head = Ledger.zero then .ok () else .error code
  else if hashes[count - 1]? = some head then .ok ()
  else .error code

def check (journalHashes ledgerHashes : List String) : Found → Except String Unit
  | .missing => if journalHashes = [] ∧ ledgerHashes = [] then .ok () else .error "anchor_missing"
  | .corrupt => .error "anchor_corrupt"
  | .found anchor => do
    prefixOk "journal_truncated" anchor.journalSeq anchor.journalHead journalHashes
    prefixOk "ledger_truncated" anchor.ledgerSeq anchor.ledgerHead ledgerHashes

end Anchor

/-! ## Journal and ledger -/

namespace Journal

def matchEntry (entries : List Json) (seq : Int) (instanceId hash : Option String) : Bool :=
  match seq with
  | .ofNat seq =>
    match entries[seq]? with
    | some entry => entry.string? "effect_instance_id" = instanceId ∧ entry.string? "hash" = hash
    | none => false
  | .negSucc _ => false

/-- The claims met so far; a value that is no string is one identifier. -/
def crossEvents (entries : List Json) (claims : List (Option String)) :
    List Json → Except String (List (Option String))
  | [] => .ok claims
  | event :: events =>
    let instanceId := event.string? "instance_id"
    if event.string? "t" = some "executing" then crossEvents entries (instanceId :: claims) events
    else if instanceId ∉ claims then .error "journal_orphan_event"
    else if event.string? "t" = some "completed" ∧
        (event.int? "ledger_seq").any (fun seq =>
          !matchEntry entries seq instanceId (event.string? "ledger_hash")) then
      .error "journal_ledger_mismatch"
    else crossEvents entries claims events

def crossCheck (events entries : List Json) : Except String Unit :=
  match crossEvents entries [] events with
  | .error code => .error code
  | .ok claims =>
    if entries.all fun entry => entry.string? "effect_instance_id" ∈ claims then .ok ()
    else .error "ledger_without_claim"

end Journal

/-! ## Records -/

abbrev Records := AList fun _ : String => Record

abbrev Owners := String × String → Option String

structure Folded where
  records : Records := ∅
  owners : Owners := fun _ => none

namespace Folded

def nonce : Json → Option (String × String)
  | .array [.string kid, .string nonce] => some (kid, nonce)
  | _ => none

def nonces (event : Json) : Option (List (String × String)) :=
  match event.get? "nonces" with
  | some (.array items) => items.mapM nonce
  | _ => none

/-- `Map.put(owners, nonce, id)` for every nonce of a claim. -/
def own (owners : Owners) (instanceId : String) (nonces : List (String × String)) : Owners :=
  nonces.foldl (fun owners nonce => Function.update owners nonce (some instanceId)) owners

/-- `Map.update!/3`: an unknown instance raises. -/
def update (folded : Folded) (instanceId : String) (change : Record → Record) : Option Folded :=
  (folded.records.lookup instanceId).map fun record =>
    { folded with records := folded.records.insert instanceId (change record) }

/-- One event. Nothing comes of an event that makes the fold raise. -/
def apply (folded : Folded) (event : Json) : Option Folded := do
  let instanceId ← event.string? "instance_id"
  match ← event.string? "t" with
  | "executing" => do
    let generation ← event.nat? "generation"
    let effectDigest ← event.string? "effect_digest"
    let nonces ← nonces event
    pure ⟨folded.records.insert instanceId
      { instanceId := instanceId, state := .executing, generation := generation, effectDigest := effectDigest },
      own folded.owners instanceId nonces⟩
  | "completed" =>
    folded.update instanceId fun record =>
      { record with
        state := .completed
        ledgerSeq := event.nat? "ledger_seq"
        ledgerHash := event.string? "ledger_hash" }
  | "unknown_outcome" => folded.update instanceId fun record => { record with state := .unknownOutcome }
  | "reconciled" =>
    folded.update instanceId fun record =>
      { record with
        state :=
          if event.string? "resolution" = some "confirmed_performed" then .completed
          else .reconciledNotPerformed }
  | _ => none

def fold (events : List Json) : Option Folded := events.foldlM apply {}

end Folded

end AshA2A.Actuator
