import AshA2A.Receipt.Record
import Mathlib.Logic.Equiv.List
import Mathlib.Tactic.DeriveEncodable

/-! The digests the code takes. The hash functions themselves are not part of this
repository and stay parameters. -/

namespace AshA2A

namespace Receipt

/-- The term digested for one bound field. -/
inductive FieldValue where
  | receiptIdentity (receiptId : Identity .runtime) (commandId : Identity .command)
      (executionId : Identity .execution) (taskId : Option (Identity .task))
      (agentId : Identity .agent) (principalId : Identity .principal)
  | actor (actor : Identity .principal)
  | semanticSubject (subject : Option SemanticSubject)
  | capabilityAction (capabilityId : String) (consequence : Consequence) (fingerprint : String)
  | inputDigest (digest : String)
  | planDigest (digest : Option Term)
  | projectionDigest (digest : Option String)
  | authorityGrant (grant : Option AuthorityGrant)
  | idempotencyIdentity (actuationId : Identity .actuation) (idempotencyKey : Identity .idempotency)
  | intendedEffect (effect : TermMap)
  | notYetObserved
  | resultIdentity (status : Status) (terminalStatus : Option TerminalStatus) (reply : Reply)
      (postcondition : Option Observation)
  | absent
  deriving Repr, DecidableEq

/-- The term digested for one link. -/
structure LinkPayload where
  stage : Stage
  predecessor : Option String
  fields : List (Field × String)
  keyed : Bool
  keyId : Option String
  deriving Repr, DecidableEq

end Receipt

/-- Every term this repository hands to a hash function. -/
inductive Preimage where
  | text (text : String)
  | term (term : Term)
  | effect (capabilityId principal : String) (subject : Option SemanticSubject)
      (inputDigest : String) (external : Option String)
  | field (field : Receipt.Field) (value : Receipt.FieldValue)
  | link (payload : Receipt.LinkPayload)
  | keyName (key : String)
  deriving Repr, DecidableEq

/-- Lower-case hexadecimal digests of the deterministic encoding of a term. -/
structure Crypto where
  sha256 : Preimage → String
  hmac : String → Preimage → String

/-- `Actuation.digest/1`, and the same expression in `Receipt.Binding`. -/
def Crypto.digest (crypto : Crypto) (preimage : Preimage) : String :=
  "sha256:" ++ crypto.sha256 preimage

/-- A configured MAC key is a non-empty binary. -/
abbrev Key := { text : String // text ≠ "" }

end AshA2A

/-! A stand-in for the hash functions that never collides: it spells out the term. -/

namespace AshA2A

instance encodableChar : Encodable Char := Encodable.ofLeftInverse Char.toNat Char.ofNat Char.ofNat_toNat

instance encodableString : Encodable String := Encodable.ofLeftInverse String.toList String.ofList fun _ => String.ofList_toList

instance {kind : Identity.Kind} : Encodable (Identity kind) :=
  Encodable.ofLeftInverse Identity.value Identity.mk fun _ => rfl

deriving instance Encodable for Term
instance : Encodable TermMap := inferInstanceAs (Encodable (List (Term × Term)))
deriving instance Encodable for SemanticSubject
deriving instance Encodable for Consequence
deriving instance Encodable for Code
deriving instance Encodable for Fault
deriving instance Encodable for Reply
deriving instance Encodable for Receipt.Status
deriving instance Encodable for Receipt.TerminalStatus
deriving instance Encodable for Receipt.AuthorityGrant
deriving instance Encodable for Receipt.Observation.Status
deriving instance Encodable for Receipt.Observation
deriving instance Encodable for Receipt.Stage
deriving instance Encodable for Receipt.Field
deriving instance Encodable for Receipt.FieldValue
deriving instance Encodable for Receipt.LinkPayload
deriving instance Encodable for Preimage

namespace Crypto

/-- The code number of the term, in unary. -/
def spell (preimage : Preimage) : String := String.ofList (List.replicate (Encodable.encode preimage) 'f')

theorem spell_injective : Function.Injective spell := by
  intro left right same
  have digits := congrArg (fun text => text.toList.length) same
  simp only [spell, String.toList_ofList, List.length_replicate] at digits
  exact Encodable.encode_injective digits

def spelled : Crypto := ⟨spell, fun _ => spell⟩

end Crypto

end AshA2A
