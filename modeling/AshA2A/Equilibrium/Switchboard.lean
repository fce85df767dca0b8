import AshA2A.Passport.Encoding

/-! The queue of the switchboard: work orders that wait, that are leased to an owner, and that are completed. -/

namespace AshA2A.Equilibrium.Switchboard

variable {κ ο τ : Type} [DecidableEq κ]

/-- The fields but the id are carried along. -/
structure WorkOrder (κ τ : Type) where
  id : κ
  fields : τ

structure Lease (κ ο τ : Type) where
  owner : ο
  epoch : Nat
  token : String
  expiresAt : Nat
  workOrder : WorkOrder κ τ

/-- The leases are enumerated in an order of the runtime's own. -/
structure Host (κ ο τ : Type) where
  sha256 : Bytes → Bytes
  /-- `:erlang.term_to_binary/2` of the pairs, sorted by their keys. -/
  external : (epoch : Nat) → (id : κ) → (owner : ο) → Bytes
  enumerate : List (κ × Lease κ ο τ) → List (κ × Lease κ ο τ)
  enumerated : ∀ leases, (enumerate leases).Perm leases

structure Queue (κ ο τ : Type) where
  pending : List (WorkOrder κ τ) := []
  known : List κ := []
  leases : List (κ × Lease κ ο τ) := []
  completed : List κ := []
  limit : Nat := 128

inductive Refusal where
  | duplicate | backpressure | staleLease
  deriving DecidableEq, Repr

variable (host : Host κ ο τ) (queue : Queue κ ο τ)

def canonicalDigest (id : κ) (owner : ο) (epoch : Nat) : String :=
  Base16.encode (host.sha256 (host.external epoch id owner))

def enqueue (order : WorkOrder κ τ) : Except Refusal (Queue κ ο τ) :=
  if order.id ∈ queue.known then .error .duplicate
  else if queue.limit ≤ queue.pending.length then .error .backpressure
  else .ok { queue with pending := queue.pending ++ [order], known := order.id :: queue.known }

/-- There is no clause for a `ttl` of 0. -/
def lease (owner : ο) (epoch ttl : Nat) : Option (Option (WorkOrder κ τ × Lease κ ο τ) × Queue κ ο τ) :=
  if 0 < ttl then
    match queue.pending with
    | [] => some (none, queue)
    | order :: rest =>
      let lease : Lease κ ο τ := ⟨owner, epoch, canonicalDigest host order.id owner epoch, epoch + ttl, order⟩
      let leases := (order.id, lease) :: queue.leases.filter fun entry => entry.1 ≠ order.id
      some (some (order, lease), { queue with pending := rest, leases })
  else none

def expired (now : Nat) (entry : κ × Lease κ ο τ) : Bool := entry.2.expiresAt ≤ now

def reclaim (now : Nat) : Queue κ ο τ :=
  let (expired, live) := (host.enumerate queue.leases).partition (expired now)
  { queue with pending := queue.pending ++ expired.map fun entry => entry.2.workOrder, leases := live }

def complete (id : κ) (token : String) (epoch : Nat) : Except Refusal (Queue κ ο τ) :=
  match queue.leases.lookup id with
  | some lease =>
    if lease.token = token ∧ lease.epoch = epoch then
      .ok { queue with leases := queue.leases.filter fun entry => entry.1 ≠ id, completed := id :: queue.completed }
    else .error .staleLease
  | none => .error .staleLease

/-! ## Runs -/

inductive Call (κ ο τ : Type) where
  | enqueue (order : WorkOrder κ τ)
  | lease (owner : ο) (epoch ttl : Nat)
  | reclaim (now : Nat)
  | complete (id : κ) (token : String) (epoch : Nat)

/-- The epoch that a call is made in. -/
def Call.clock : Call κ ο τ → Option Nat
  | .lease _ epoch _ => some epoch
  | .reclaim now => some now
  | _ => none

/-- What a call did. -/
inductive Event (κ ο τ : Type) where
  | accepted (order : WorkOrder κ τ)
  | leased (order : WorkOrder κ τ) (lease : Lease κ ο τ)
  | reclaimed (lease : Lease κ ο τ)
  | completed (id : κ) (token : String) (epoch : Nat)

/-- A call that is refused, or that raises, leaves the queue as it is. -/
def step : Call κ ο τ → List (Event κ ο τ) × Queue κ ο τ
  | .enqueue order =>
    match enqueue queue order with
    | .ok queue => ([.accepted order], queue)
    | .error _ => ([], queue)
  | .lease owner epoch ttl =>
    match lease host queue owner epoch ttl with
    | some (some (order, lease), queue) => ([.leased order lease], queue)
    | some (none, queue) => ([], queue)
    | none => ([], queue)
  | .reclaim now =>
    (((host.enumerate queue.leases).filter (expired now)).map fun entry => .reclaimed entry.2, reclaim host queue now)
  | .complete id token epoch =>
    match complete queue id token epoch with
    | .ok queue => ([.completed id token epoch], queue)
    | .error _ => ([], queue)

/-- The queue after some calls, with all that they did. -/
def run (state : List (Event κ ο τ) × Queue κ ο τ) (calls : List (Call κ ο τ)) : List (Event κ ο τ) × Queue κ ο τ :=
  calls.foldl (fun state call =>
    let (events, queue) := step host state.2 call
    (state.1 ++ events, queue)) state

end AshA2A.Equilibrium.Switchboard
