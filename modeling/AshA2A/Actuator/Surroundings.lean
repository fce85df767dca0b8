import AshA2A.Actuator.Journal
import AshA2A.Concurrency.Server

/-! What the store asks of its surroundings, one request at a time: its state directory and
the clock. -/

namespace AshA2A.Actuator

open Sa2aCrypto Concurrency AppendLog

/-- The two files of chained lines. -/
inductive Which where
  | journal | ledger
  deriving Repr, DecidableEq

inductive Op where
  | clock
  | trim (which : Which)
  | read (which : Which)
  | readAnchor
  | «open» (which : Which)
  | write (which : Which) (line : Json)
  | sync (which : Which)
  | writeAnchor (anchor : Anchor)
  /-- The nonces of a claim are taken. Only the reader of a run cares. -/
  | own (instanceId : String) (nonces : List (String × String))
  /-- The effector is entered. Only the reader of a run cares. -/
  | perform (instanceId : String)
  /-- An exception that nobody rescues. -/
  | raise

abbrev Op.Reply : Op → Type
  | .clock => Int
  | .trim _ | .open _ | .write _ _ | .sync _ | .writeAnchor _ => Bool
  | .read _ => Option (File Json)
  | .readAnchor => Anchor.Found
  | .own _ _ | .perform _ => Unit
  | .raise => Empty

/-- Code of the actuator. -/
abbrev Code (α : Type) := Program Op Op.Reply α

/-- What a request meets that is not decided by the code. -/
inductive Choice where
  | served
  /-- The file operation fails; of a line that it writes, this much has landed. -/
  | fails (landed : Landed)
  | clock (time : Int)
  deriving Repr, DecidableEq

namespace Choice

/-- How much of a line a write leaves that meets this. -/
def landed : Choice → Landed
  | .served => .whole
  | .fails landed => landed
  | .clock _ => .nothing

end Choice

/-- The state directory, and beside it what is only kept for the reader of a run: the nonces
taken, the effects entered and the lines handed to a write, whatever became of them. -/
structure Disk where
  journal : Log Json := {}
  ledger : Log Json := {}
  anchor : Option Anchor := none
  owned : List ((String × String) × String) := []
  performed : List String := []
  journaled : List Json := []
  ledgered : List Json := []

namespace Disk

def log (disk : Disk) : Which → Log Json
  | .journal => disk.journal
  | .ledger => disk.ledger

def setLog (disk : Disk) (log : Log Json) : Which → Disk
  | .journal => { disk with journal := log }
  | .ledger => { disk with ledger := log }

def hand (disk : Disk) (line : Json) : Which → Disk
  | .journal => { disk with journaled := disk.journaled ++ [line] }
  | .ledger => { disk with ledgered := disk.ledgered ++ [line] }

/-- As much of a line as lands. -/
def write (disk : Disk) (which : Which) (line : Json) (landed : Landed) : Disk :=
  (disk.setLog ((disk.log which).write line landed) which).hand line which

def sync (disk : Disk) (which : Which) : Disk := disk.setLog (disk.log which).sync which

/-- The file that a torn tail was cut off from is synced. -/
def trim (disk : Disk) (which : Which) : Disk :=
  if (disk.log which).file.torn then
    disk.setLog ⟨(disk.log which).file.trim, (disk.log which).file.trim⟩ which
  else disk

def readAnchor (disk : Disk) : Anchor.Found :=
  match disk.anchor with
  | some anchor => .found anchor
  | none => .missing

/-- The anchor is replaced by a rename: it is the old one or the new one. -/
structure Survives (disk left : Disk) : Prop where
  journal : disk.journal.Survives left.journal
  ledger : disk.ledger.Survives left.ledger
  anchor : left.anchor = disk.anchor
  owned : left.owned = disk.owned
  performed : left.performed = disk.performed
  journaled : left.journaled = disk.journaled
  ledgered : left.ledgered = disk.ledgered

end Disk

/-- One request. A choice that does not fit the request leaves it unserved. -/
def exec (op : Op) (choice : Choice) (disk : Disk) : Option (op.Reply × Disk) :=
  match op, choice with
  | .clock, .clock time => some (time, disk)
  | .trim which, .served => some (true, disk.trim which)
  | .trim _, .fails _ => some (false, disk)
  | .read which, .served => some (some (disk.log which).file, disk)
  | .read _, .fails _ => some (none, disk)
  | .readAnchor, .served => some (disk.readAnchor, disk)
  | .readAnchor, .fails _ => some (.corrupt, disk)
  | .open _, .served => some (true, disk)
  | .open _, .fails _ => some (false, disk)
  | .write which line, .served => some (true, disk.write which line .whole)
  | .write which line, .fails landed => some (false, disk.write which line landed)
  | .sync which, .served => some (true, disk.sync which)
  | .sync _, .fails _ => some (false, disk)
  | .writeAnchor anchor, .served => some (true, { disk with anchor := some anchor })
  | .writeAnchor _, .fails _ => some (false, disk)
  | .own instanceId nonces, .served =>
    some ((), { disk with owned := nonces.map (·, instanceId) ++ disk.owned })
  | .perform instanceId, .served => some ((), { disk with performed := instanceId :: disk.performed })
  | _, _ => none

/-- Nothing fails. -/
def Served : Op → Choice → Disk → Prop
  | .clock, .clock _, _ => True
  | .clock, _, _ => False
  | _, .served, _ => True
  | _, _, _ => False

def machine : Machine Unit Op Op.Reply Choice Disk := ⟨fun _ => exec⟩

namespace Code

def clock : Code Int := Program.ask Op.clock

def trim (which : Which) : Code Bool := Program.ask (Op.trim which)

def read (which : Which) : Code (Option (File Json)) := Program.ask (Op.read which)

def readAnchor : Code Anchor.Found := Program.ask Op.readAnchor

def «open» (which : Which) : Code Bool := Program.ask (Op.open which)

def write (which : Which) (line : Json) : Code Bool := Program.ask (Op.write which line)

def sync (which : Which) : Code Bool := Program.ask (Op.sync which)

def writeAnchor (anchor : Anchor) : Code Bool := Program.ask (Op.writeAnchor anchor)

def own (instanceId : String) (nonces : List (String × String)) : Code Unit :=
  Program.ask (Op.own instanceId nonces)

def perform (instanceId : String) : Code Unit := Program.ask (Op.perform instanceId)

def raise {α : Type} : Code α := .request .raise nofun

end Code

end AshA2A.Actuator
