import AshA2A.AuthorityService.Journal
import AshA2A.Concurrency.Server

/-! What the issuer asks of its surroundings, one request at a time: the journal and its
anchor on the disk, the clock, the registry, the approvers, randomness, the signing key. -/

namespace AshA2A.AuthorityService

open Sa2aCrypto Concurrency AppendLog

/-- A registry view files every key under the key's own identifier. -/
structure View where
  keys : Registry
  filed : ∀ kid key, keys kid = some key → key.kid = kid

/-- What an approver is shown. -/
structure Solicitation where
  effect : Bytes
  effectDigest : String
  principal : String
  policyEpoch : Nat
  generation : Nat
  audience : String
  deriving Repr, DecidableEq

inductive Op where
  | clock
  | registry
  | solicit (approver : String) (request : Solicitation)
  /-- Random bytes, drawn until a nonce is found that was not seen. -/
  | strongRandBytes
  | sign (alg : String) (bytes : Bytes)
  | readJournal
  | readAnchor
  | openJournal
  | write (line : Entry)
  | sync
  | writeAnchor (anchor : Anchor)
  /-- An exception that nobody rescues, or a loop that does not end. -/
  | raise

abbrev Op.Reply : Op → Type
  | .clock => Int
  | .registry => View
  | .solicit _ _ => Except String (Envelope × Bytes)
  | .strongRandBytes => List Bytes
  | .sign _ _ => Except String Bytes
  | .readJournal => Option (File Entry)
  | .readAnchor => Journal.AnchorFile
  | .openJournal | .write _ | .sync | .writeAnchor _ => Bool
  | .raise => Empty

/-- Code of the service. -/
abbrev Service (α : Type) := Program Op Op.Reply α

/-- What a request meets that is not decided by the code. -/
inductive Choice where
  | served
  /-- The file operation fails; of a line that it writes, this much has landed. -/
  | fails (landed : Landed)
  | clock (time : Int)
  | registry (view : View)
  | solicit (answer : Except String (Envelope × Bytes))
  | strongRandBytes (draws : List Bytes)
  | sign (answer : Except String Bytes)

structure Disk where
  journal : Log Entry := {}
  anchor : Option Anchor := none
  deriving Repr, DecidableEq

/-- The anchor is replaced by a rename: it is the old one or the new one. -/
def Disk.Survives (disk left : Disk) : Prop :=
  disk.journal.Survives left.journal ∧ left.anchor = disk.anchor

def Disk.readAnchor (disk : Disk) : Journal.AnchorFile :=
  match disk.anchor with
  | some anchor => .found anchor
  | none => .missing

/-- One request. A choice that does not fit the request leaves it unserved. -/
def exec (op : Op) (choice : Choice) (disk : Disk) : Option (op.Reply × Disk) :=
  match op, choice with
  | .clock, .clock time => some (time, disk)
  | .registry, .registry view => some (view, disk)
  | .solicit _ _, .solicit answer => some (answer, disk)
  | .strongRandBytes, .strongRandBytes draws => some (draws, disk)
  | .sign _ _, .sign answer => some (answer, disk)
  | .readJournal, .served => some (some disk.journal.file, disk)
  | .readJournal, .fails _ => some (none, disk)
  | .readAnchor, .served => some (disk.readAnchor, disk)
  | .readAnchor, .fails _ => some (.corrupt, disk)
  | .openJournal, .served => some (true, disk)
  | .openJournal, .fails _ => some (false, disk)
  | .write line, .served => some (true, { disk with journal := disk.journal.write line .whole })
  | .write line, .fails landed => some (false, { disk with journal := disk.journal.write line landed })
  | .sync, .served => some (true, { disk with journal := disk.journal.sync })
  | .sync, .fails _ => some (false, disk)
  | .writeAnchor anchor, .served => some (true, { disk with anchor := some anchor })
  | .writeAnchor _, .fails _ => some (false, disk)
  | _, _ => none

def machine : Machine Unit Op Op.Reply Choice Disk := ⟨fun _ => exec⟩

namespace Service

def clock : Service Int := Program.ask Op.clock

def registry : Service View := Program.ask Op.registry

def solicit (approver : String) (request : Solicitation) : Service (Except String (Envelope × Bytes)) :=
  Program.ask (Op.solicit approver request)

def strongRandBytes : Service (List Bytes) := Program.ask Op.strongRandBytes

def sign (alg : String) (bytes : Bytes) : Service (Except String Bytes) := Program.ask (Op.sign alg bytes)

def readJournal : Service (Option (File Entry)) := Program.ask Op.readJournal

def readAnchor : Service Journal.AnchorFile := Program.ask Op.readAnchor

def openJournal : Service Bool := Program.ask Op.openJournal

def write (line : Entry) : Service Bool := Program.ask (Op.write line)

def sync : Service Bool := Program.ask Op.sync

def raise {α : Type} : Service α := .request .raise nofun

end Service

namespace Journal

variable (host : Host)

def writeAnchor (journal : Journal) : Service Bool :=
  Program.ask (Op.writeAnchor ⟨journal.seq, journal.head⟩)

/-- `open/2`. A new file is empty. -/
def «open» : Service (Except String Journal) := do
  match ← Service.readJournal with
  | none => pure (.error "journal_unopenable")
  | some file =>
    match replay host file with
    | .error reason => pure (.error reason)
    | .ok journal =>
      match checkAnchor journal (← Service.readAnchor) with
      | .error reason => pure (.error reason)
      | .ok () =>
        if ← Service.openJournal then
          if ← writeAnchor journal.opened then pure (.ok journal.opened)
          else pure (.error "journal_unopenable")
        else pure (.error "journal_unopenable")

/-- `append/2` returns only when the line is on the disk and the anchor names it. -/
def append (journal : Journal) (body : Body) : Service (Option Journal) :=
  match link host journal.head (journal.seq + 1) body with
  | none => Service.raise
  | some hash => do
    let (line, after) := journal.next body hash
    if ← Service.write line then
      if ← Service.sync then
        if ← writeAnchor after then pure (some (after.applyEntry body)) else pure none
      else pure none
    else pure none

end Journal

end AshA2A.AuthorityService
