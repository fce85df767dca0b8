import AshA2A.CommandBus
import AshA2A.Reconciliation

/-! The processes of one node over one in-memory store and one journal. -/

namespace AshA2A

open Concurrency

/-- What a process does. A process that crashes or stalls is one that is not scheduled. -/
inductive Role where
  | run (command : Command) (opts : CommandBus.Opts)
  | drain (leaseMs : Nat)
  | classify (commandId : Identity .command)
  /-- The wall clock, as far as nobody sleeps. -/
  | clock (ticks : List Nat)

namespace Role

def tick : List Nat → Bus Unit
  | [] => pure ()
  | ms :: rest => do
    Bus.sleep ms
    tick rest

def classifyMarked (host : Host) (commandId : Identity .command) : Bus Unit := do
  Bus.mark .begun
  match ← Reconciliation.classify host (memoryStore host) commandId with
  | none => pure ()
  | some classification => Bus.mark (.classified (classification.state = .notAttempted))

def program (host : Host) : Role → Bus Unit
  | .run command opts => do
    let _ ← CommandBus.run host (memoryStore host) command opts
    pure ()
  | .drain leaseMs => do
    let _ ← ReceiptOutbox.reconcile host (memoryStore host) leaseMs
    pure ()
  | .classify commandId => classifyMarked host commandId
  | .clock ticks => tick ticks

end Role

abbrev Node := Config Pid Op Op.Reply World Unit

/-- Every process is at its beginning, and nothing has happened yet. -/
def Node.start (host : Host) (world : World) (roles : Pid → Role) : Node :=
  ⟨⟨world, []⟩, fun pid => (roles pid).program host⟩

end AshA2A
