import Mathlib.Algebra.Group.Nat.Defs
import Mathlib.Data.List.Basic
import Mathlib.Data.Nat.Init

/-! Lists that are joined in pairs, level by level, up to one item; an odd level joins its last item with itself. The result
is the value of a tree. Nothing here names a particular system. -/

namespace Climb

variable {α β γ : Type}

def pairUp (join : β → β → β) : List β → List β
  | first :: second :: rest => join first second :: pairUp join rest
  | [last] => [join last last]
  | [] => []

theorem pairUp_length (join : β → β → β) (level : List β) : (pairUp join level).length = (level.length + 1) / 2 := by
  fun_induction pairUp join level with
  | case1 first second rest ih =>
    simp only [List.length_cons, ih]
    omega
  | case2 last => simp
  | case3 => simp

/-- Up to one item; there is none of nothing. -/
def climb (join : β → β → β) : List β → Option β
  | [] => none
  | [top] => some top
  | first :: second :: rest => climb join (pairUp join (first :: second :: rest))
termination_by level => level.length
decreasing_by
  rw [pairUp_length]
  simp only [List.length_cons]
  omega

theorem pairUp_map {join : β → β → β} {join' : γ → γ → γ} {value : β → γ}
    (joins : ∀ first second, value (join first second) = join' (value first) (value second)) (level : List β) :
    pairUp join' (level.map value) = (pairUp join level).map value := by
  fun_induction pairUp join level with
  | case1 first second rest ih => simp only [List.map_cons, pairUp, ih, joins]
  | case2 last => simp only [List.map_cons, List.map_nil, pairUp, joins]
  | case3 => rfl

theorem climb_map {join : β → β → β} {join' : γ → γ → γ} {value : β → γ}
    (joins : ∀ first second, value (join first second) = join' (value first) (value second)) (level : List β) :
    climb join' (level.map value) = (climb join level).map value := by
  fun_induction climb join level with
  | case1 => simp [climb]
  | case2 top => simp [climb]
  | case3 first second rest ih =>
    rw [← ih, ← pairUp_map joins]
    simp only [List.map_cons, climb]

theorem climb_some (join : β → β → β) {level : List β} (given : level ≠ []) : ∃ top, climb join level = some top := by
  fun_induction climb join level with
  | case1 => exact absurd rfl given
  | case2 top => exact ⟨top, rfl⟩
  | case3 first second rest ih => exact ih (by rw [pairUp]; exact List.cons_ne_nil _ _)

/-! ## Trees -/

inductive Tree (α : Type) where
  | leaf (item : α)
  | node (left right : Tree α)

namespace Tree

def value (join : β → β → β) (item : α → β) : Tree α → β
  | leaf given => item given
  | node left right => join (left.value join item) (right.value join item)

/-- What stands at its leaves, from the left to the right. -/
def leaves : Tree α → List α := value (· ++ ·) fun item => [item]

def Perfect : Nat → Tree α → Prop
  | 0, leaf _ => True
  | depth + 1, node left right => Perfect depth left ∧ Perfect depth right
  | _, _ => False

variable {first second : Tree α} {depth other : Nat}

theorem Perfect.leaves_length (perfect : first.Perfect depth) : first.leaves.length = 2 ^ depth := by
  induction first generalizing depth with
  | leaf item =>
    cases depth with
    | zero => rfl
    | succ depth => exact perfect.elim
  | node left right ihLeft ihRight =>
    cases depth with
    | zero => exact perfect.elim
    | succ depth =>
      have size : (left.leaves ++ right.leaves).length = 2 ^ (depth + 1) := by
        rw [List.length_append, ihLeft perfect.1, ihRight perfect.2]
        omega
      exact size

theorem Perfect.eq_of_leaves (perfect : first.Perfect depth) (perfect' : second.Perfect depth)
    (same : first.leaves = second.leaves) : first = second := by
  induction first generalizing second depth with
  | leaf item =>
    cases depth with
    | succ depth => exact perfect.elim
    | zero =>
      cases second with
      | leaf item' => exact congrArg leaf (List.singleton_injective same)
      | node => exact perfect'.elim
  | node left right ihLeft ihRight =>
    cases depth with
    | zero => exact perfect.elim
    | succ depth =>
      cases second with
      | leaf => exact perfect'.elim
      | node left' right' =>
        have halves : left.leaves ++ right.leaves = left'.leaves ++ right'.leaves := same
        obtain ⟨lefts, rights⟩ := List.append_inj halves (by rw [perfect.1.leaves_length, perfect'.1.leaves_length])
        rw [ihLeft perfect.1 perfect'.1 lefts, ihRight perfect.2 perfect'.2 rights]

/-- A perfect tree is known by its leaves. -/
theorem Perfect.leaves_inj (perfect : first.Perfect depth) (perfect' : second.Perfect other) :
    first.leaves = second.leaves ↔ first = second := by
  refine ⟨fun same => ?_, fun same => same ▸ rfl⟩
  have sizes : 2 ^ depth = 2 ^ other := by rw [← perfect.leaves_length, same, perfect'.leaves_length]
  obtain rfl := (Nat.pow_right_inj (by decide : 1 < 2)).mp sizes
  exact perfect.eq_of_leaves perfect' same

end Tree

/-- The tree over the items. -/
def tree (items : List α) : Option (Tree α) := climb .node (items.map .leaf)

theorem climb_tree (join : β → β → β) (item : α → β) (items : List α) :
    climb join (items.map item) = (tree items).map (Tree.value join item) := by
  have joined := @climb_map _ _ Tree.node join (Tree.value join item) (fun _ _ => rfl) (items.map .leaf)
  rw [List.map_map] at joined
  exact joined

/-- How often a list of this length is joined. -/
def rounds (length : Nat) : Nat := if length ≤ 1 then 0 else rounds ((length + 1) / 2) + 1
termination_by length

theorem pairUp_perfect {level : List (Tree α)} {depth : Nat} (each : ∀ tree ∈ level, tree.Perfect depth) :
    ∀ tree ∈ pairUp .node level, tree.Perfect (depth + 1) := by
  fun_induction pairUp Tree.node level with
  | case1 first second rest ih =>
    obtain ⟨one, others⟩ := List.forall_mem_cons.mp each
    obtain ⟨two, others⟩ := List.forall_mem_cons.mp others
    exact List.forall_mem_cons.mpr ⟨⟨one, two⟩, ih others⟩
  | case2 last =>
    have one := each last List.mem_cons_self
    exact List.forall_mem_singleton.mpr ⟨one, one⟩
  | case3 => exact fun _ none => absurd none List.not_mem_nil

theorem climb_perfect {level : List (Tree α)} {depth : Nat} {top : Tree α} (each : ∀ tree ∈ level, tree.Perfect depth)
    (grown : climb .node level = some top) : top.Perfect (depth + rounds level.length) := by
  fun_induction climb Tree.node level generalizing depth with
  | case1 => cases grown
  | case2 tree =>
    cases grown
    rw [rounds, if_pos (by simp)]
    exact each top List.mem_cons_self
  | case3 first second rest ih =>
    have higher := ih (pairUp_perfect each) grown
    rw [pairUp_length] at higher
    rw [rounds, if_neg (by simp), Nat.add_comm (rounds _), ← Nat.add_assoc]
    exact higher

/-- The depth of the tree depends on the number of items only. -/
theorem tree_perfect {items : List α} {top : Tree α} (grown : tree items = some top) : top.Perfect (rounds items.length) := by
  have perfect := @climb_perfect _ _ 0 _ (fun tree member => ?_) grown
  · rwa [Nat.zero_add, List.length_map] at perfect
  · obtain ⟨item, -, rfl⟩ := List.mem_map.mp member
    trivial

theorem pairUp_begins (level : List (List α)) : level.flatten <+: (pairUp (· ++ ·) level).flatten := by
  fun_induction pairUp (· ++ · : List α → List α → List α) level with
  | case1 first second rest ih =>
    simp only [List.flatten_cons, List.append_assoc]
    exact (List.prefix_append_right_inj _).mpr ((List.prefix_append_right_inj _).mpr ih)
  | case2 last =>
    simp only [List.flatten_cons, List.flatten_nil, List.append_nil]
    exact List.prefix_append _ _
  | case3 => exact List.prefix_refl _

theorem climb_begins {level : List (List α)} {top : List α} (grown : climb (· ++ ·) level = some top) :
    level.flatten <+: top := by
  fun_induction climb (· ++ · : List α → List α → List α) level with
  | case1 => cases grown
  | case2 last =>
    cases grown
    simp
  | case3 first second rest ih => exact (pairUp_begins _).trans (ih grown)

theorem pairUp_among (level : List (List α)) : (pairUp (· ++ ·) level).flatten ⊆ level.flatten := by
  fun_induction pairUp (· ++ · : List α → List α → List α) level with
  | case1 first second rest ih =>
    simp only [List.flatten_cons, List.append_assoc]
    exact List.append_subset.mpr ⟨List.subset_append_left _ _, List.append_subset.mpr
      ⟨List.Subset.trans (List.subset_append_left _ _) (List.subset_append_right _ _),
        List.Subset.trans (List.Subset.trans ih (List.subset_append_right _ _)) (List.subset_append_right _ _)⟩⟩
  | case2 last => simp
  | case3 => exact List.nil_subset _

theorem climb_among {level : List (List α)} {top : List α} (grown : climb (· ++ ·) level = some top) : top ⊆ level.flatten := by
  fun_induction climb (· ++ · : List α → List α → List α) level with
  | case1 => cases grown
  | case2 last =>
    cases grown
    simp
  | case3 first second rest ih => exact List.Subset.trans (ih grown) (pairUp_among _)

/-- The leaves of the tree are items. -/
theorem tree_leaves {items : List α} {top : Tree α} (grown : tree items = some top) : top.leaves ⊆ items := by
  have joined := climb_tree (· ++ ·) (fun item : α => [item]) items
  rw [grown] at joined
  have among := climb_among joined
  rwa [← List.flatMap_def, List.flatMap_singleton'] at among

/-- The leaves of the tree begin with the items. -/
theorem tree_begins {items : List α} {top : Tree α} (grown : tree items = some top) : items <+: top.leaves := by
  have joined := climb_tree (· ++ ·) (fun item : α => [item]) items
  rw [grown] at joined
  have begins := climb_begins joined
  rwa [← List.flatMap_def, List.flatMap_singleton'] at begins

/-- Trees over as many items are the same where their leaves are those of one list. -/
theorem tree_inj {items others : List α} {top : Tree α} (sizes : items.length = others.length)
    (grown : tree items = some top) (grown' : tree others = some top) : items = others := by
  have first := List.prefix_iff_eq_take.mp (tree_begins grown)
  have second := List.prefix_iff_eq_take.mp (tree_begins grown')
  rw [first, second, sizes]

end Climb
