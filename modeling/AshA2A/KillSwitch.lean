import AshA2A.Concurrency.Server
import AshA2A.Term

/-! The kill switch: which classes of workers are halted. The state stands in the memory of
the process, in a term that every process of the machine reads, and, where a path is
configured, in a file. -/

namespace AshA2A.KillSwitch
open Concurrency

structure TripInfo where
  reason : Term
  trippedAt : Int
  deriving Repr, DecidableEq

/-- One entry a class. -/
abbrev Trips := List (String × TripInfo)

namespace Trips

def put (trips : Trips) (className : String) (info : TripInfo) : Trips :=
  (className, info) :: trips.filter fun entry => entry.1 ≠ className

def delete (trips : Trips) (className : String) : Trips := trips.filter fun entry => entry.1 ≠ className

def insert (trips : Trips) (rows : Trips) : Trips := rows.foldr (fun row trips => trips.put row.1 row.2) trips

end Trips

/-- What is written to the file and not yet synced. -/
inductive Change where
  | insert (rows : Trips)
  | delete (className : String)
  | deleteAllObjects
  deriving Repr, DecidableEq

def Change.apply (trips : Trips) : Change → Trips
  | .insert rows => trips.insert rows
  | .delete className => trips.delete className
  | .deleteAllObjects => []

inductive Call where
  | trip (className : String) (reason : Term) (trippedAt : Int)
  | tripped (className : String)
  | reset (className : String)
  deriving Repr, DecidableEq

inductive Answer where
  | ok
  | tripped (reason : Option Term)
  deriving Repr, DecidableEq

/-! ## Surroundings -/

inductive Op where
  /-- A request is taken from the mailbox. -/
  | receive (call : Call)
  /-- Its answer is sent. -/
  | reply
  | getTerm
  | putTerm (trips : Trips)
  | foldl
  | write (change : Change)
  | sync
  deriving Repr, DecidableEq

abbrev Op.Reply : Op → Type
  | .getTerm => Option Trips
  | .foldl => Trips
  | _ => Unit

abbrev Code (α : Type) := Program Op Op.Reply α

namespace Code

def receive (call : Call) : Code Unit := Program.ask (Op.receive call)

def reply : Code Unit := Program.ask Op.reply

def getTerm : Code (Option Trips) := Program.ask Op.getTerm

def putTerm (trips : Trips) : Code Unit := Program.ask (Op.putTerm trips)

def foldl : Code Trips := Program.ask Op.foldl

def write (change : Change) : Code Unit := Program.ask (Op.write change)

def sync : Code Unit := Program.ask Op.sync

end Code

/-- The term and the file, and beside them what is only kept for the reader of a run: the
request in hand and what was done for it, whether the file is being rewritten, and the classes
whose trip is owed. -/
structure World where
  term : Option Trips := none
  file : Trips := []
  unsynced : List Change := []
  serving : Option Call := none
  written : Bool := false
  published : Bool := false
  rewriting : Bool := false
  owed : List String := []
  deriving Repr, DecidableEq

namespace World

/-- What the open table reads. -/
def table (world : World) : Trips := world.unsynced.foldl Change.apply world.file

/-- A trip in hand that has reached the file is owed from there on. -/
def landed (world : World) (file : Trips) : List String :=
  match world.serving with
  | some (.trip className _ _) =>
    if world.written ∧ (file.lookup className).isSome then className :: world.owed else world.owed
  | _ => world.owed

/-- A trip is owed once it is acknowledged, until a reset is. -/
def acknowledge (world : World) : List String :=
  match world.serving with
  | some (.trip className _ _) => className :: world.owed
  | some (.reset className) => world.owed.filter (· ≠ className)
  | _ => world.owed

def exec (op : Op) (world : World) : op.Reply × World :=
  match op with
  | .receive call => ((), { world with serving := some call, written := false, published := false })
  | .reply =>
    ((), { world with owed := world.acknowledge, serving := none, written := false, published := false })
  | .getTerm => (world.term, world)
  | .putTerm trips => ((), { world with term := some trips, published := true })
  | .foldl => (world.table, world)
  | .write change =>
    ((), { world with
      unsynced := world.unsynced ++ [change]
      written := true
      rewriting := world.rewriting || change = .deleteAllObjects })
  | .sync =>
    ((), { world with
      file := world.table, unsynced := [], rewriting := false, owed := world.landed world.table })

/-- What is there when the process is started again. -/
def left (world : World) (term : Option Trips) (file : Trips) : World where
  term
  file
  rewriting := world.rewriting
  owed := world.landed file

/-- Each class stands in the file as some part of the unsynced changes leaves it. -/
def Lands (world : World) (file : Trips) : Prop :=
  ∀ className, ∃ count,
    file.lookup className = ((world.unsynced.take count).foldl Change.apply world.file).lookup className

/-- When the process dies, its table is closed and the term stays. When the machine does, the
term is lost. -/
inductive Survives (world : World) : World → Prop where
  | process : Survives world (world.left world.term world.table)
  | machine {file : Trips} (lands : world.Lands file) : Survives world (world.left none file)

end World

def machine : Machine Unit Op Op.Reply Unit World where
  exec _ op _ world := some (world.exec op)

/-! ## The process -/

structure Switch where
  dets : Bool
  trips : Trips
  deriving Repr, DecidableEq

def publish (switch : Switch) : Code Unit := Code.putTerm switch.trips

def persist (dets : Bool) (change : Change) : Code Unit :=
  if dets then do
    Code.write change
    Code.sync
  else pure ()

def readDets (dets : Bool) : Code Trips := if dets then Code.foldl else pure []

def persistAll (switch : Switch) : Code Unit :=
  if switch.dets then do
    Code.write .deleteAllObjects
    Code.write (.insert switch.trips)
    Code.sync
  else pure ()

/-- The term of an earlier process of this machine goes before the file. -/
def init (dets : Bool) : Code (Option Switch) := do
  let disk ← readDets dets
  let found ← Code.getTerm
  let switch : Switch := ⟨dets, found.getD disk⟩
  publish switch
  persistAll switch
  pure (some switch)

def handle (call : Call) (switch : Switch) : Code (Answer × Option Switch) := do
  Code.receive call
  match call with
  | .trip className reason trippedAt => do
    persist switch.dets (.insert [(className, ⟨reason, trippedAt⟩)])
    let switch := { switch with trips := switch.trips.put className ⟨reason, trippedAt⟩ }
    publish switch
    Code.reply
    pure (.ok, some switch)
  | .tripped className => do
    Code.reply
    pure (.tripped ((switch.trips.lookup className).map TripInfo.reason), some switch)
  | .reset className => do
    let switch := { switch with trips := switch.trips.delete className }
    publish switch
    persist switch.dets (.delete className)
    Code.reply
    pure (.ok, some switch)

/-- What any process reads: without a term the switch cannot be consulted. -/
def tripped (className : String) (world : World) : Option (Option Term) :=
  world.term.map fun trips => (trips.lookup className).map TripInfo.reason

def server (dets : Bool) (survives : World → World → Prop) : Server machine Switch Call Answer where
  boot := init dets
  handle := handle
  survives

end AshA2A.KillSwitch
