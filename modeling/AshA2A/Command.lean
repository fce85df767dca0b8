import AshA2A.Term

/-! The command envelope, the typed machine identity of its sender and the authority it may carry. -/

namespace AshA2A

inductive Identity.Kind where
  | principal | agent | task | command | execution | runtime | actuation | idempotency
  deriving Repr, DecidableEq

/-- Kinds are deliberately not interchangeable, so the kind is part of the type. -/
structure Identity (kind : Identity.Kind) where
  value : String
  deriving Repr, DecidableEq

namespace Identity

def Kind.name : Kind → String
  | .principal => "principal"
  | .agent => "agent"
  | .task => "task"
  | .command => "command"
  | .execution => "execution"
  | .runtime => "runtime"
  | .actuation => "actuation"
  | .idempotency => "idempotency"

def external {kind : Kind} (identity : Identity kind) : String :=
  kind.name ++ ":" ++ identity.value

end Identity

/-- Exact semantic identity bound to a command. It grants nothing. -/
structure SemanticSubject where
  graphDigest : String
  projectionDigest : String
  manufacturerDigest : String
  ephemeral : Bool := true
  deriving Repr, DecidableEq

structure SpgIdentity where
  graphId : String
  graphVersion : String
  nodeId : String
  edgeId : Option String
  projectionFamily : Option String
  deriving Repr, DecidableEq

/-! ## The envelope -/

inductive Consequence where
  | observe | change | externalDo | unknown
  deriving Repr, DecidableEq

/-- The two consequences for which the code anchors a receipt before acting. -/
def Consequence.bearing : Consequence → Bool
  | .change | .externalDo => true
  | _ => false

structure Authority where
  tokenId : Identity .runtime
  subject : Identity .principal
  capabilityId : String
  source : String
  issuedAt : Nat
  expiresAt : Option Nat := none
  admittedBy : Option Term := none
  evidence : Term
  constraints : TermMap
  deriving Repr, DecidableEq

structure Command where
  commandId : Identity .command
  agentId : Identity .agent
  principalId : Identity .principal
  taskId : Option (Identity .task) := none
  capabilityId : String
  input : Term
  authority : Option Authority := none
  semanticSubject : Option SemanticSubject := none
  spgIdentity : Option SpgIdentity := none
  submittedAt : Nat
  fingerprint : String
  metadata : TermMap := []
  deriving Repr, DecidableEq

/-- `a || b`: the atoms `nil` and `false` count as absent. -/
def Term.truthy : Term → Option Term
  | .atom "nil" => none
  | .atom "false" => none
  | term => some term

/-- The first key under which the map carries a value. -/
def TermMap.first (map : TermMap) (keys : List Term) : Option Term :=
  keys.findSome? fun key => (map.get? key).bind Term.truthy

namespace Command

/-- The canonical key first; the older spelling stays readable. -/
def candidateDigest (command : Command) : Option Term :=
  command.metadata.first [.atom "candidate_digest", .binary "candidate_digest",
    .atom "gall_029_candidate_digest", .binary "gall_029_candidate_digest"]

def workOrderDigest (command : Command) : Option Term :=
  command.metadata.first [.atom "work_order_digest", .binary "work_order_digest"]

end Command

end AshA2A
