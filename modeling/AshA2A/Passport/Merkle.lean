import AshA2A.Json
import Mathlib.Algebra.Group.Nat.Defs

/-! The tree over the pinned entries. A leaf and a node are hashed under different first
bytes; a level of odd length repeats its last node. -/

namespace AshA2A.Passport.Merkle

/-- `:crypto.hash(:sha256, data)`. -/
abbrev Hash := Bytes → Bytes

variable (hash : Hash)

def leaf (data : Bytes) : Bytes := hash (0 :: data)

def node (left right : Bytes) : Bytes := hash (1 :: (left ++ right))

def levelUp : List Bytes → List Bytes
  | first :: second :: rest => node hash first second :: levelUp rest
  | [last] => [node hash last last]
  | [] => []

theorem levelUp_length (level : List Bytes) : (levelUp hash level).length = (level.length + 1) / 2 := by
  fun_induction levelUp hash level with
  | case1 first second rest ih =>
    simp only [List.length_cons, ih]
    omega
  | case2 last => simp
  | case3 => rfl

/-- The empty level never gets here. -/
def build : List Bytes → Bytes
  | [] => []
  | [root] => root
  | first :: second :: rest => build (levelUp hash (first :: second :: rest))
termination_by level => level.length
decreasing_by
  rw [levelUp_length]
  simp only [List.length_cons]
  omega

/-- There is no root of nothing. -/
def root (leaves : List Bytes) : Option Bytes :=
  match leaves with
  | [] => none
  | leaves => some (build hash leaves)

inductive Side where
  | left | right
  deriving Repr, DecidableEq

structure Step where
  side : Side
  hash : Bytes
  deriving Repr, DecidableEq

inductive ProofError where
  | empty
  | outOfRange (length : Nat)
  deriving Repr, DecidableEq

/-- The neighbour on one level; the last node of an odd level is its own. -/
def step (level : List Bytes) (index : Nat) : Step :=
  let length := level.length
  let (sibling, side) :=
    if length % 2 = 1 ∧ index = length - 1 then (index, Side.right)
    else if index % 2 = 0 then (index + 1, .right)
    else (index - 1, .left)
  ⟨side, level.getD sibling []⟩

def doProof : List Bytes → Nat → List Step
  | first :: second :: rest, index =>
    step (first :: second :: rest) index :: doProof (levelUp hash (first :: second :: rest)) (index / 2)
  | _, _ => []
termination_by level => level.length
decreasing_by
  rw [levelUp_length]
  simp only [List.length_cons]
  omega

def proof (leaves : List Bytes) (index : Int) : Except ProofError (List Step) :=
  if leaves = [] then .error .empty
  else if index < 0 ∨ leaves.length ≤ index then .error (.outOfRange leaves.length)
  else .ok (doProof hash leaves index.toNat)

/-- What is hashed at a step; the sibling has 32 bytes. -/
def input (current : Bytes) (step : Step) : Option Bytes :=
  if step.hash.length = 32 then
    match step.side with
    | .left => some (1 :: (step.hash ++ current))
    | .right => some (1 :: (current ++ step.hash))
  else none

def advance (current : Bytes) (step : Option Step) : Option Bytes := (step.bind (input current)).map hash

/-- `valid_proof?/3`; a step of another shape is none. -/
def validProof (leafHash : Bytes) (proof : List (Option Step)) (root : Bytes) : Bool :=
  leafHash.length = 32 && root.length = 32 && proof.foldlM (advance hash) leafHash = some root

end AshA2A.Passport.Merkle
