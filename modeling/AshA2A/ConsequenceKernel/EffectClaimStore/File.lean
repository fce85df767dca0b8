import AshA2A.ConsequenceKernel.EffectClaim
import Mathlib.Data.List.AList

/-! The store of the claims on effects that keeps its tables in a file: every change writes all of
them next to the file and renames what it wrote. -/

namespace AshA2A.ConsequenceKernel.EffectClaimStore.File

abbrev Bytes := List UInt8

structure Tables where
  claims : AList fun _ : String => EffectClaim := ∅
  effects : AList fun _ : String => String := ∅
  receipts : AList fun _ : String => List ClaimReceipt := ∅

/-- What the bytes of a file may decode to. -/
inductive Content where
  | tables (tables : Tables)
  /-- The three keys are there, and what is under them is no such table: a call may raise on it. -/
  | misshapen
  | other

/-- The external term format. A safe decoding also needs the atoms in the bytes to exist. -/
structure Host where
  encode : Tables → Bytes
  decode : Bytes → Option Content
  decode_encode : ∀ tables, decode (encode tables) = some (.tables tables)

/-! ## Operations -/

namespace Tables

def put (tables : Tables) (claim : EffectClaim) : Answer × Tables :=
  if claim.claimId ∈ tables.claims then (.error .effectClaimDuplicate, tables)
  else if claim.effectId ∈ tables.effects then (.error .effectAlreadyClaimed, tables)
  else (.ok, ⟨tables.claims.insert claim.claimId claim, tables.effects.insert claim.effectId claim.claimId,
    tables.receipts.insert claim.claimId []⟩)

def transition (tables : Tables) (id : String) (source target : ClaimState) : Answer × Tables :=
  match tables.claims.lookup id with
  | some claim =>
    if claim.state = source ∧ ClaimTransition.admit source target then
      (.ok, { tables with claims := tables.claims.insert id { claim with state := target } })
    else (.error .effectClaimTransitionRefused, tables)
  | none => (.error .effectClaimTransitionRefused, tables)

def appendReceipt (tables : Tables) (id : String) (receipt : ClaimReceipt) : Answer × Tables :=
  if id ∈ tables.claims then
    (.ok, { tables with receipts := tables.receipts.insert id ((tables.receipts.lookup id).getD [] ++ [receipt]) })
  else (.error .effectClaimNotFound, tables)

def found : Option EffectClaim → Answer
  | some claim => .found claim
  | none => .notFound

/-- The answer, and the tables that have to be written when the call changes something. -/
def handle (tables : Tables) : Call → Answer × Tables
  | .put claim => tables.put claim
  | .fetch id => (found (tables.claims.lookup id), tables)
  | .fetchEffect id => (found ((tables.effects.lookup id).bind tables.claims.lookup), tables)
  | .transition id source target => tables.transition id source target
  | .appendReceipt id receipt => tables.appendReceipt id receipt
  | .receipts id =>
    (if id ∈ tables.claims then .receipts ((tables.receipts.lookup id).getD []) else .notFound, tables)

end Tables

/-- Only an accepted change is answered with `ok`, and only then is anything written. -/
def writes (answer : Answer) : Bool := answer = .ok

/-! ## The file -/

/-- What a load finds: the file cannot always be read, and the node may lack an atom of it. -/
structure Reading where
  readable : Bool
  atomsKnown : Bool
  deriving Repr, DecidableEq

inductive Server where
  | tables (tables : Tables)
  | misshapen

/-- `load/1`: whatever cannot be read as tables is taken for empty ones. -/
def load (host : Host) (file : Option Bytes) (reading : Reading) : Server :=
  match (if reading.readable then file else none) with
  | none => .tables {}
  | some bytes =>
    match (if reading.atomsKnown then host.decode bytes else none) with
    | some (.tables tables) => .tables tables
    | some .misshapen => .misshapen
    | some .other | none => .tables {}

structure Disk where
  file : Option Bytes := none
  /-- What is written before it is renamed. -/
  tmp : Option Bytes := none

/-- Where a `persist/1` is cut off: by a stop of the process, or by an operation that fails. -/
inductive Cut where
  | start
  | writing (bytes : Nat)
  | written
  | renamed
  deriving Repr, DecidableEq

def persist (host : Host) (tables : Tables) : Disk := ⟨some (host.encode tables), none⟩

def persistCut (host : Host) (tables : Tables) (disk : Disk) : Cut → Disk
  | .start => disk
  | .writing bytes => { disk with tmp := some ((host.encode tables).take bytes) }
  | .written => { disk with tmp := some (host.encode tables) }
  | .renamed => persist host tables

/-! ## Runs -/

structure World where
  disk : Disk := {}
  /-- `none` while it does not run. -/
  server : Option Server := none
  /-- The claims whose put was answered with `ok`. -/
  acknowledged : List EffectClaim := []
  /-- What the last rename left. -/
  persisted : Option Bytes := none

inductive Event where
  | call (call : Call)
  /-- The server stops in the middle of a call, before it has answered. -/
  | cut (call : Call) (point : Cut)
  | stop
  | start (reading : Reading)
  /-- Anything else leaves other bytes in the file, or none. -/
  | outside (file : Option Bytes)

def acknowledge : Call → Answer → List EffectClaim
  | .put claim, .ok => [claim]
  | _, _ => []

def World.step (host : Host) (world : World) : Event → World
  | .call call =>
    match world.server with
    | some (.tables tables) =>
      let (answer, after) := tables.handle call
      if writes answer then
        { disk := persist host after
          server := some (.tables after)
          acknowledged := world.acknowledged ++ acknowledge call answer
          persisted := some (host.encode after) }
      else world
    | some .misshapen => { world with server := none }
    | none => world
  | .cut call point =>
    match world.server with
    | some (.tables tables) =>
      let (answer, after) := tables.handle call
      if writes answer then
        { world with
          disk := persistCut host after world.disk point
          server := none
          persisted := if point = .renamed then some (host.encode after) else world.persisted }
      else { world with server := none }
    | some .misshapen => { world with server := none }
    | none => world
  | .stop => { world with server := none }
  | .start reading =>
    match world.server with
    | none => { world with server := some (load host world.disk.file reading) }
    | some _ => world
  | .outside file => { world with disk := { world.disk with file } }

end AshA2A.ConsequenceKernel.EffectClaimStore.File
