import AshA2A.CommandBus.Gate
import AshA2A.Postcondition
import AshA2A.Proofs.Binding
import AshA2A.Reconciliation.Evidence
import Mathlib.Algebra.GroupWithZero.Nat

/-! Every receipt that lawful mutations build from a prepared anchor verifies. -/

namespace AshA2A.Receipt

/-- What the command bus, the outbox and the reconciliation do to a receipt. -/
inductive Mutation where
  | finalize (reply : Reply) (stamp : Stamp)
  | postcondition (observation : Option Observation)
  | deduplicate (prior : Receipt)
  | markStanding (durable : Bool)
  | replay
  | markUnknownOutcome (reason : Option Code)
  | reconcile (detail : Term) (now : Nat)
  | compensate (detail : Term) (now : Nat)
  | markReconciled (resolvedAs : ResolvedAs) (evidence : Term) (now : Nat)
  | markCompensated (compensation : Receipt) (now : Nat)

namespace Mutation

/-- A receipt that is no longer pending cannot be finalized. -/
def apply (host : Host) (receipt : Receipt) : Mutation → Option Receipt
  | .finalize reply stamp =>
    if pending : receipt.status = .pending then
      some (Receipt.finalize host ⟨receipt, pending⟩ reply stamp)
    else none
  | .postcondition observation => some (Postcondition.applyToReceipt host receipt observation)
  | .deduplicate prior => some (CommandBus.deduplicate host prior receipt)
  | .markStanding durable => some (CommandBus.markStanding durable receipt)
  | .replay => some (Receipt.replay receipt)
  | .markUnknownOutcome reason => some (Receipt.markUnknownOutcome host receipt reason)
  | .reconcile detail now => some (Receipt.reconcile host receipt detail now)
  | .compensate detail now => some (Receipt.compensate host receipt detail now)
  | .markReconciled resolvedAs evidence now =>
    some (Reconciliation.markReconciled host receipt resolvedAs evidence now)
  | .markCompensated compensation now =>
    some (Reconciliation.markCompensated host receipt compensation now)

def applyAll (host : Host) (mutations : List Mutation) (receipt : Receipt) : Option Receipt :=
  mutations.foldlM (apply host) receipt

/-- How many links a mutation appends. -/
def transitions : Mutation → Nat
  | .markStanding _ | .replay | .postcondition none => 0
  | _ => 1

def transitionsOf (mutations : List Mutation) : Nat := (mutations.map transitions).sum

end Mutation

variable {host : Host} {receipt next : Receipt} {binding : Binding} {root : Link} {rest : List Link}

/-- What one mutation does to a chain that verifies. -/
def Extended (host : Host) (receipt next : Receipt) (root : Link) (rest : List Link) (added : Nat) : Prop :=
  ∃ binding more, Verifies host.crypto host.key next binding root (rest ++ more) ∧
    more.length = added ∧ SameIdentity next receipt

theorem Verifies.extend {stage : Stage}
    (verifies : Verifies host.crypto host.key receipt binding root rest)
    (lawful : stage ∈ transitionStages) (same : SameIdentity next receipt) :
    Extended host receipt (transition host.crypto host.key receipt next stage) root rest 1 :=
  ⟨_, _, verifies.sealed lawful same, rfl, fun field => by
    rw [fieldValue_transition]
    exact same field⟩

theorem Verifies.keep (verifies : Verifies host.crypto host.key receipt binding root rest)
    (bound : next.binding = receipt.binding)
    (same : ∀ stage field, fieldValue next stage field = fieldValue receipt stage field) :
    Extended host receipt next root rest 0 :=
  ⟨binding, [], by simpa using verifies.congr bound same, rfl, same .prepared⟩

/-- A mutation either seals a lawful transition or touches nothing that is bound. -/
theorem Mutation.apply_cases {mutation : Mutation} (applied : mutation.apply host receipt = some next) :
    (mutation.transitions = 0 ∧ next.binding = receipt.binding ∧
      ∀ stage field, fieldValue next stage field = fieldValue receipt stage field) ∨
    (mutation.transitions = 1 ∧ ∃ changed stage, stage ∈ transitionStages ∧
      SameIdentity changed receipt ∧ next = transition host.crypto host.key receipt changed stage) := by
  cases mutation with
  | finalize reply stamp =>
    simp only [apply] at applied
    split at applied
    · cases applied
      exact .inr ⟨rfl, _, .final, by decide, fun field => by cases field <;> rfl, rfl⟩
    · cases applied
  | postcondition observation =>
    cases applied
    cases observation with
    | none => exact .inl ⟨rfl, rfl, fun _ _ => rfl⟩
    | some observation =>
      rcases observation with ⟨status, reason, id, verifier, independent, evidence⟩
      cases status <;>
        exact .inr ⟨rfl, _, .postcondition, by decide, fun field => by cases field <;> rfl, rfl⟩
  | markStanding durable =>
    cases applied
    cases durable with
    | false => exact .inl ⟨rfl, rfl, fun _ _ => rfl⟩
    | true => exact .inl ⟨rfl, rfl, fun _ field => by cases field <;> rfl⟩
  | replay =>
    cases applied
    exact .inl ⟨rfl, rfl, fun _ field => by cases field <;> rfl⟩
  | deduplicate _ | markUnknownOutcome _ | reconcile _ _ | compensate _ _ | markReconciled _ _ _
  | markCompensated _ _ =>
    cases applied
    exact .inr ⟨rfl, _, _, by decide, fun field => by cases field <;> rfl, rfl⟩

theorem Mutation.apply_extends {mutation : Mutation}
    (verifies : Verifies host.crypto host.key receipt binding root rest)
    (applied : mutation.apply host receipt = some next) :
    Extended host receipt next root rest mutation.transitions := by
  rcases apply_cases applied with ⟨none, bound, same⟩ | ⟨one, changed, stage, lawful, same, rfl⟩
  · rw [none]
    exact verifies.keep bound same
  · rw [one]
    exact verifies.extend lawful same

theorem Mutation.applyAll_extends {mutations : List Mutation}
    (verifies : Verifies host.crypto host.key receipt binding root rest)
    (ran : applyAll host mutations receipt = some next) :
    Extended host receipt next root rest (transitionsOf mutations) := by
  induction mutations generalizing receipt binding rest with
  | nil =>
    cases ran
    exact verifies.keep rfl fun _ _ => rfl
  | cons mutation mutations ih =>
    obtain ⟨middle, applied, ran⟩ := Option.bind_eq_some_iff.mp ran
    obtain ⟨_, more, kept, length, same⟩ := apply_extends verifies applied
    obtain ⟨final, last, verified, lengths, identity⟩ := ih kept ran
    refine ⟨final, more ++ last, by rwa [← List.append_assoc], ?_, identity.trans same⟩
    simp only [List.length_append, length, lengths, transitionsOf, List.map_cons, List.sum_cons]

theorem follows_iff : follows root rest ↔
    (∀ link ∈ rest, link.stage ∈ transitionStages) ∧
      (root :: rest).IsChain fun previous link => link.predecessor = some previous.digest := by
  induction rest generalizing root with
  | nil => simp [follows]
  | cons link rest ih =>
    simp only [follows, Bool.and_eq_true, decide_eq_true_eq, ih, List.forall_mem_cons,
      List.isChain_cons_cons]
    tauto

theorem pending_verifies (host : Host) (command : Command) (executionId : Identity .execution)
    (consequence : Consequence) (opts : Opts) (stamp : Stamp) :
    ∃ binding root, Verifies host.crypto host.key
      (pending host command executionId consequence opts stamp).1 binding root [] := by
  obtain ⟨binding, verifies⟩ := bind_verifies host.crypto host.key opts.chainPredecessor
    (pending host command executionId consequence opts stamp).1 rfl
  exact ⟨binding, _, verifies⟩

/-- Whatever lawful mutations follow an anchor, in any order: the receipt is accepted, its
chain has one link for each transition, and it still binds the identity of the anchor. -/
theorem lawful_receipt_verifies (host : Host) (command : Command) (executionId : Identity .execution)
    (consequence : Consequence) (opts : Opts) (stamp : Stamp) (mutations : List Mutation)
    (receipt : Receipt)
    (ran : Mutation.applyAll host mutations
      (pending host command executionId consequence opts stamp).1 = some receipt) :
    (∃ report, check host.crypto host.key receipt = .ok report) ∧
    (∃ root rest, (pending host command executionId consequence opts stamp).1.links = [root] ∧
      root.stage = .prepared ∧ receipt.links = root :: rest ∧
      rest.length = Mutation.transitionsOf mutations ∧
      (root :: rest).IsChain fun previous link => link.predecessor = some previous.digest) ∧
    (∀ mutation next, Mutation.apply host receipt mutation = some next →
      ∃ added, next.links = receipt.links ++ added ∧ added.length = mutation.transitions) ∧
    ∀ field, fieldValue receipt .prepared field =
      fieldValue (pending host command executionId consequence opts stamp).1 .prepared field := by
  obtain ⟨_, root, anchored⟩ := pending_verifies host command executionId consequence opts stamp
  obtain ⟨binding, rest, verifies, length, same⟩ := Mutation.applyAll_extends anchored ran
  refine ⟨⟨_, check_iff.mpr ⟨binding, root, _, verifies, rfl⟩⟩,
    ⟨root, rest, anchored.links_eq, anchored.anchored, verifies.links_eq, length,
      (follows_iff.mp verifies.follows).2⟩, ?_, same⟩
  intro mutation next applied
  obtain ⟨_, more, extended, grown, _⟩ := Mutation.apply_extends verifies applied
  exact ⟨more, by rw [extended.links_eq, verifies.links_eq]; rfl, grown⟩

/-- A host with a key, whose hash functions are constant. -/
def keyedHost : Host where
  crypto := ⟨fun _ => "", fun _ _ => ""⟩
  key := some ⟨"secret", by decide⟩
  evidenceClass := .nil

def transferCommand : Command where
  commandId := ⟨"transfer"⟩
  agentId := ⟨"agent"⟩
  principalId := ⟨"principal"⟩
  capabilityId := "Account.transfer"
  input := .integer 10
  submittedAt := 0
  fingerprint := "transfer"

theorem lawful_receipt_verifies_drained :
    ∃ receipt, Mutation.applyAll keyedHost
        [.finalize (.reply (.atom "ok")) ⟨"second", 2, 2⟩, .markStanding true,
          .reconcile (.atom "receipt_outbox") 3]
        (pending keyedHost transferCommand ⟨"execution"⟩ .change {} ⟨"first", 1, 1⟩).1 = some receipt ∧
      ∃ report, check keyedHost.crypto keyedHost.key receipt = .ok report := by
  refine ⟨_, rfl, ?_⟩
  exact (lawful_receipt_verifies keyedHost transferCommand ⟨"execution"⟩ .change {} ⟨"first", 1, 1⟩
    [.finalize (.reply (.atom "ok")) ⟨"second", 2, 2⟩, .markStanding true,
      .reconcile (.atom "receipt_outbox") 3] _ rfl).1

end AshA2A.Receipt
