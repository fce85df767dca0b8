import AshA2A.Json
import Mathlib.Data.List.Nodup
import Mathlib.Data.List.Sort
import Mathlib.Data.String.Basic
import Mathlib.Logic.Relation

/-! Delegation chains: what a child may do is never more than what its parents may do. -/

namespace AshA2A.AuthZEN.Monotonic

/-- What the functions take for a capability set: a list of ids, or one id. -/
inductive Ids (α : Type) where
  | list (ids : List α)
  | one (id : α)

section
variable {α : Type} [ToString α]

/-- Deduplicated and sorted. -/
def set : Ids α → List String
  | .list ids => (ids.map toString).eraseDups.insertionSort (· ≤ ·)
  | .one id => [toString id].eraseDups.insertionSort (· ≤ ·)

/-- `--` takes one occurrence away for each element, and associates to the right. -/
def narrow {β : Type} [ToString β] (parent : Ids α) (requested : Ids β) : List String :=
  (set requested).diff ((set requested).diff (set parent))

end

def intersect (first second : List String) : List String := narrow (.list first) (.list second)

def intersection : List (List String) → List String
  | [] => []
  | first :: rest => rest.foldl intersect (set (.list first))

end Monotonic

/-- A node of a delegation chain. -/
structure Monotonic where
  effective : List String
  depth : Nat
  parents : List Monotonic

namespace Monotonic

inductive RefusalCode where
  | refusedNonMonotonicGrant
  deriving Repr, DecidableEq

def RefusalCode.name : RefusalCode → String
  | .refusedNonMonotonicGrant => "refused_non_monotonic_grant"

structure Refusal where
  code : RefusalCode
  parentEffective : List String
  requested : List String
  excess : List String
  depth : Nat
  digest : String
  refusedAt : Int
  deriving Repr, DecidableEq

/-- The clock, and the digest of the canonical text: it is defined for all that is digested
here. -/
structure Host where
  digest : Json → String
  utcNow : Int

def Refusal.body (parentEffective requested : List String) (depth : Nat) : Json :=
  .object
    [("schema", .string "sa2a.monotonic-grant-refusal.v1"),
      ("code", .string RefusalCode.refusedNonMonotonicGrant.name),
      ("parent_effective", .array (parentEffective.map .string)),
      ("requested", .array (requested.map .string)),
      ("excess", .array ((requested.diff parentEffective).map .string)),
      ("depth", .int depth)]

def refusalReceipt (host : Host) (parentEffective requested : List String) (depth : Nat) : Refusal where
  code := .refusedNonMonotonicGrant
  parentEffective
  requested
  excess := requested.diff parentEffective
  depth
  digest := host.digest (Refusal.body parentEffective requested depth)
  refusedAt := host.utcNow

section
variable {α : Type} [ToString α]

def root (capabilities : Ids α) : Monotonic := ⟨set capabilities, 0, []⟩

/-- With one parent, a request for more than it holds is refused. -/
def delegate (host : Host) (parent : Monotonic) (requested : Ids α) : Except Refusal Monotonic :=
  if (set requested).diff parent.effective = [] then .ok ⟨set requested, parent.depth + 1, [parent]⟩
  else .error (refusalReceipt host parent.effective (set requested) (parent.depth + 1))

/-- `Enum.max` of a list that is not empty. -/
def maxDepth (first : Monotonic) (rest : List Monotonic) : Nat :=
  rest.foldl (fun depth parent => max depth parent.depth) first.depth

/-- With a list of parents, the request is cut down to what they all hold. -/
def delegateAll (first : Monotonic) (rest : List Monotonic) (requested : Ids α) : Except Refusal Monotonic :=
  let covered := intersection ((first :: rest).map Monotonic.effective)
  .ok ⟨narrow (.list covered) requested, maxDepth first rest + 1, first :: rest⟩

def authorize (host : Host) (chain : Monotonic) (capability : Ids α) : Except Refusal Unit :=
  if (set capability).diff chain.effective = [] then .ok ()
  else .error (refusalReceipt host chain.effective (set capability) (chain.depth + 1))

end

/-- The nodes that calls build, each out of nodes built before. -/
inductive Built (host : Host) : Monotonic → Prop
  | root {α : Type} [ToString α] (capabilities : Ids α) : Built host (root capabilities)
  | delegated {α : Type} [ToString α] {parent child : Monotonic} {requested : Ids α}
      (built : Built host parent) (granted : delegate host parent requested = .ok child) : Built host child
  | joined {α : Type} [ToString α] {first child : Monotonic} {rest : List Monotonic} {requested : Ids α}
      (built : ∀ parent ∈ first :: rest, Built host parent)
      (granted : delegateAll first rest requested = .ok child) : Built host child

def Parent (parent child : Monotonic) : Prop := parent ∈ child.parents

/-- At any distance. -/
def Ancestor : Monotonic → Monotonic → Prop := Relation.TransGen Parent

/-! ### Sets -/

section
variable {α β : Type} [ToString α] [ToString β]

/-- The ids before they are put in order. -/
def Ids.names : Ids α → List String
  | .list ids => ids.map toString
  | .one id => [toString id]

theorem set_eq (ids : Ids α) : set ids = ids.names.eraseDups.insertionSort (· ≤ ·) := by
  cases ids <;> simp only [set, Ids.names]

@[simp]
theorem mem_set {ids : Ids α} {name : String} : name ∈ set ids ↔ name ∈ ids.names := by
  rw [set_eq, List.mem_insertionSort, List.mem_eraseDups]

@[simp]
theorem mem_set_list {names : List String} {name : String} : name ∈ set (.list names) ↔ name ∈ names := by
  rw [mem_set]
  simp [Ids.names, toString]

theorem nodup_eraseDups : ∀ names : List String, names.eraseDups.Nodup
  | [] => by simp
  | name :: names => by
    rw [List.eraseDups_cons, List.nodup_cons]
    refine ⟨fun member => ?_, nodup_eraseDups _⟩
    rw [List.mem_eraseDups, List.mem_filter] at member
    simp at member
termination_by names => names.length
decreasing_by
  simp only [List.length_cons]
  have shorter := List.length_filter_le (fun other => !other == name) names
  omega

theorem nodup_set (ids : Ids α) : (set ids).Nodup := by
  rw [set_eq]
  exact (List.perm_insertionSort _ _).nodup_iff.mpr (nodup_eraseDups _)

theorem diff_set_nil (ids : Ids α) (held : List String) : (set ids).diff held = [] ↔ set ids ⊆ held := by
  rw [List.eq_nil_iff_forall_not_mem]
  constructor
  · intro none name member
    by_contra outside
    exact none name ((nodup_set ids).mem_sdiff_iff.mpr ⟨member, outside⟩)
  · intro inside name member
    obtain ⟨member, outside⟩ := (nodup_set ids).mem_sdiff_iff.mp member
    exact outside (inside member)

theorem narrow_eq (parent : Ids α) (requested : Ids β) :
    narrow parent requested = (set requested).filter (· ∈ set parent) := by
  rw [narrow, (nodup_set requested).sdiff_eq_filter]
  apply List.filter_congr
  intro name member
  simp [(nodup_set requested).mem_sdiff_iff, member]

theorem mem_narrow {parent : Ids α} {requested : Ids β} {name : String} :
    name ∈ narrow parent requested ↔ name ∈ set requested ∧ name ∈ set parent := by
  simp [narrow_eq, List.mem_filter]

theorem mem_intersect {first second : List String} {name : String} :
    name ∈ intersect first second ↔ name ∈ first ∧ name ∈ second := by
  rw [intersect, mem_narrow, mem_set_list, mem_set_list, and_comm]

private theorem mem_intersected (sets : List (List String)) (covered : List String) (name : String) :
    name ∈ sets.foldl intersect covered ↔ name ∈ covered ∧ ∀ set ∈ sets, name ∈ set := by
  induction sets generalizing covered with
  | nil => simp
  | cons next rest hypothesis => rw [List.foldl_cons, hypothesis, mem_intersect, List.forall_mem_cons, and_assoc]

theorem mem_intersection {first : List String} {rest : List (List String)} {name : String} :
    name ∈ intersection (first :: rest) ↔ ∀ set ∈ first :: rest, name ∈ set := by
  rw [intersection, mem_intersected, mem_set_list, List.forall_mem_cons]

end

/-! ### What a node holds -/

section
variable {α : Type} [ToString α] {host : Host}

theorem delegate_ok {parent child : Monotonic} {requested : Ids α}
    (granted : delegate host parent requested = .ok child) :
    child = ⟨set requested, parent.depth + 1, [parent]⟩ ∧ set requested ⊆ parent.effective := by
  unfold delegate at granted
  split at granted
  case isTrue inside =>
    cases granted
    exact ⟨rfl, (diff_set_nil requested parent.effective).mp inside⟩
  case isFalse => cases granted

theorem delegateAll_effective {first child : Monotonic} {rest : List Monotonic} {requested : Ids α}
    (granted : delegateAll first rest requested = .ok child) :
    child.effective = (set requested).filter (fun id => ∀ parent ∈ first :: rest, id ∈ parent.effective) := by
  cases granted
  simp only [narrow_eq, mem_set_list]
  apply List.filter_congr
  intro id _
  rw [decide_eq_decide, List.map_cons, mem_intersection, ← List.map_cons, List.forall_mem_map]

/-- One step down the chain. -/
theorem Built.parent {parent child : Monotonic} (built : Built host child) (edge : Parent parent child) :
    Built host parent ∧ child.effective ⊆ parent.effective := by
  cases built with
  | root capabilities => cases edge
  | delegated built granted =>
    obtain ⟨rfl, inside⟩ := delegate_ok granted
    cases List.mem_singleton.mp edge
    exact ⟨built, inside⟩
  | joined built granted =>
    have effective := delegateAll_effective granted
    cases granted
    refine ⟨built parent edge, fun id member => ?_⟩
    rw [effective, List.mem_filter, decide_eq_true_iff] at member
    exact member.2 parent edge

theorem Built.ancestor {ancestor node : Monotonic} (built : Built host node) (above : Ancestor ancestor node) :
    Built host ancestor ∧ node.effective ⊆ ancestor.effective := by
  induction above with
  | single edge => exact built.parent edge
  | tail _ edge hypothesis =>
    obtain ⟨parent, inside⟩ := built.parent edge
    obtain ⟨ancestor, above⟩ := hypothesis parent
    exact ⟨ancestor, List.Subset.trans inside above⟩

theorem delegate_refused (parent : Monotonic) (requested : Ids α) :
    (∃ refusal, delegate host parent requested = .error refusal) ↔ ∃ id ∈ set requested, id ∉ parent.effective := by
  unfold delegate
  split
  case isTrue inside =>
    have inside := (diff_set_nil requested parent.effective).mp inside
    simp only [reduceCtorEq, exists_false, false_iff]
    rintro ⟨id, member, outside⟩
    exact outside (inside member)
  case isFalse outside =>
    simp only [Except.error.injEq, exists_eq', true_iff]
    by_contra! inside
    exact outside ((diff_set_nil requested parent.effective).mpr inside)

/-- A refusal says what was asked for beyond what is held. -/
theorem mem_excess {held : List String} {requested : Ids α} {depth : Nat} {id : String} :
    id ∈ (refusalReceipt host held (set requested) depth).excess ↔ id ∈ set requested ∧ id ∉ held :=
  (nodup_set requested).mem_sdiff_iff

theorem authorize_ok (chain : Monotonic) (capability : Ids α) :
    authorize host chain capability = .ok () ↔ set capability ⊆ chain.effective := by
  rw [← diff_set_nil]
  unfold authorize
  split
  case isTrue inside => simp [inside]
  case isFalse outside => simp [outside]

end

/-- Whatever calls built a node, it holds no more than any node above it, and what is asked of
it is granted exactly as far as it and its fellows hold it. -/
theorem Built.narrows {host : Host} {node : Monotonic} (built : Built host node) :
    (∀ ancestor, Ancestor ancestor node → node.effective ⊆ ancestor.effective) ∧
      (∀ (α : Type) [ToString α] (requested : Ids α),
        (∃ refusal, delegate host node requested = .error refusal) ↔
          ∃ id ∈ set requested, id ∉ node.effective) ∧
      (∀ (α : Type) [ToString α] (requested : Ids α) (rest : List Monotonic),
        ∃ child, delegateAll node rest requested = .ok child ∧
          child.effective =
            (set requested).filter (fun id => ∀ parent ∈ node :: rest, id ∈ parent.effective)) ∧
      ∀ (α : Type) [ToString α] (capability : Ids α),
        authorize host node capability = .ok () ↔ set capability ⊆ node.effective :=
  ⟨fun _ above => (built.ancestor above).2, fun _ _ requested => delegate_refused node requested,
    fun _ _ _ _ => ⟨_, rfl, delegateAll_effective rfl⟩, fun _ _ capability => authorize_ok node capability⟩

theorem narrows_joined :
    let host : Host := ⟨fun _ => "sha256:00", 0⟩
    let reader := root (Ids.list ["read", "list"])
    let writer := root (Ids.list ["write", "read"])
    ∃ child, delegateAll reader [writer] (Ids.list ["write", "read"]) = .ok child ∧
      child.effective ⊆ reader.effective ∧ child.effective ⊆ writer.effective ∧
      (authorize host child (Ids.one "read") = .ok () ↔ set (Ids.one "read") ⊆ child.effective) := by
  intro host reader writer
  have roots : ∀ parent ∈ [reader, writer], Built host parent := by
    intro parent member
    rcases List.mem_pair.mp member with rfl | rfl
    · exact .root _
    · exact .root _
  have granted : ∃ child, delegateAll reader [writer] (Ids.list ["write", "read"]) = .ok child := ⟨_, rfl⟩
  obtain ⟨child, granted⟩ := granted
  have parents : child.parents = [reader, writer] := by cases granted; rfl
  refine ⟨child, granted, ?_⟩
  obtain ⟨above, -, -, authorized⟩ := Built.narrows (.joined roots granted)
  refine ⟨above reader (.single ?_), above writer (.single ?_), authorized String (Ids.one "read")⟩
  · simp [Parent, parents]
  · simp [Parent, parents]

end AshA2A.AuthZEN.Monotonic
