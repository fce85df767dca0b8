import AshA2A.ConsequenceKernel.EffectClaim
import AshA2A.ConsequenceKernel.PreparedStore
import AshA2A.Concurrency.Program

/-! What a run of the kernel meets: two stores, the authority, the keys, the clock, and the
effector. -/

namespace AshA2A.ConsequenceKernel
open Concurrency

structure Prepared where
  requestId : String
  effectId : String
  subjectDigest : String
  preparedDigest : String
  consequenceClass : Term
  deriving Repr, DecidableEq

structure EffectorToken where
  requestId : String
  effectId : String
  preparedDigest : String
  owner : Term
  deriving Repr, DecidableEq

/-- How an effector comes back. -/
inductive Applied where
  | ok (value : Term)
  | unknown (reason : Term)
  | error (reason : Term)
  /-- It raised, threw or exited. -/
  | raised (reason : Term)
  | other (value : Term)
  deriving Repr, DecidableEq

inductive Op where
  | prepared (call : PreparedEffectStore.Call)
  | claims (call : EffectClaimStore.Call)
  | revalidate (principal : Term) (prepared : Prepared)
  /-- The sealed bytes and their tag, from the provider of the keys. -/
  | seal (prepared : Prepared)
  | verify (record : PreparedEffectStore.Record)
  | now
  | apply (prepared : Prepared) (token : EffectorToken)
  deriving Repr, DecidableEq

def Reply : Op → Type
  | .prepared _ => PreparedEffectStore.Answer
  | .claims _ => EffectClaimStore.Answer
  | .revalidate _ _ => Term
  | .seal _ => Except Term (Term × Term)
  | .verify _ => Except Term Unit
  | .now => Int
  | .apply _ _ => Applied

/-- What is decided outside. -/
structure Choice where
  verdict : Term := .atom "ok"
  sealed : Except Term (Term × Term) := .ok (.empty, .empty)
  verified : Except Term Unit := .ok ()
  now : Int := 0
  applied : Applied := .ok .nil

structure World (Store : Type) where
  prepared : Store
  claims : EffectClaimStore.State := {}

variable {Pid Store : Type}

def exec (store : PreparedStore Store) (choice : Choice) (world : World Store) : (op : Op) → Reply op × World Store
  | .prepared call => ((store.serve world.prepared call).1, { world with prepared := (store.serve world.prepared call).2 })
  | .claims call =>
    ((EffectClaimStore.Memory.handle world.claims call).1,
      { world with claims := (EffectClaimStore.Memory.handle world.claims call).2 })
  | .revalidate _ _ => (choice.verdict, world)
  | .seal _ => (choice.sealed, world)
  | .verify _ => (choice.verified, world)
  | .now => (choice.now, world)
  | .apply _ _ => (choice.applied, world)

/-- Every request can be served at any time; which process asks makes no difference. -/
def machine (store : PreparedStore Store) : Machine Pid Op Reply Choice (World Store) where
  exec _ op choice world := some (exec store choice world op)

end AshA2A.ConsequenceKernel
