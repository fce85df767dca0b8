import AshA2A.Climb
import AshA2A.Passport.Merkle
import Mathlib.Tactic.Tauto

/-! What a proof of inclusion shows, and what a root tells of its leaves. -/

namespace AshA2A.Passport.Merkle
open Climb

variable {hash : Hash} {level leaves : List Bytes} {index : Nat}

/-- A hash of 32 bytes. -/
def Sized (hash : Hash) : Prop := ∀ bytes, (hash bytes).length = 32

/-- These inputs are hashed to different values. -/
def Apart (hash : Hash) (inputs : List Bytes) : Prop := ∀ first ∈ inputs, ∀ second ∈ inputs, hash first = hash second → first = second

/-- What is hashed for the nodes over a level. -/
def levelInputs : List Bytes → List Bytes
  | first :: second :: rest => (1 :: (first ++ second)) :: levelInputs rest
  | [last] => [1 :: (last ++ last)]
  | [] => []

theorem levelUp_inputs (level : List Bytes) : levelUp hash level = (levelInputs level).map hash := by
  fun_induction levelInputs level with
  | case1 first second rest ih => rw [levelUp, ih, List.map_cons, node]
  | case2 last => rfl
  | case3 => rfl

/-- What is hashed for the root. -/
def inputs (hash : Hash) : List Bytes → List Bytes
  | first :: second :: rest =>
    levelInputs (first :: second :: rest) ++ inputs hash (levelUp hash (first :: second :: rest))
  | _ => []
termination_by level => level.length
decreasing_by
  rw [levelUp_length]
  simp only [List.length_cons]
  omega

/-- What is hashed when a proof is followed. -/
def followed (hash : Hash) : Bytes → List (Option Step) → List Bytes
  | _, [] => []
  | current, step :: proof =>
    match step.bind (input current) with
    | some bytes => bytes :: followed hash (hash bytes) proof
    | none => []

theorem levelInputs_get (level : List Bytes) (index : Nat) : (levelInputs level)[index]? =
    level[2 * index]?.map fun first => 1 :: (first ++ level.getD (2 * index + 1) first) := by
  fun_induction levelInputs level generalizing index with
  | case1 first second rest ih =>
    cases index with
    | zero => rfl
    | succ index => exact ih index
  | case2 last =>
    cases index with
    | zero => rfl
    | succ index => rfl
  | case3 => rfl

theorem levelUp_sized (sized : Sized hash) : ∀ node ∈ levelUp hash level, node.length = 32 := by
  rw [levelUp_inputs]
  intro node member
  obtain ⟨bytes, -, rfl⟩ := List.mem_map.mp member
  exact sized bytes

/-! ## One level -/

/-- A node and its neighbour, in the order of the level. -/
def pair (side : Side) (own sibling : Bytes) : Bytes :=
  match side with
  | .left => 1 :: (sibling ++ own)
  | .right => 1 :: (own ++ sibling)

theorem input_some {current bytes : Bytes} {step : Step} : input current step = some bytes ↔
    step.hash.length = 32 ∧ pair step.side current step.hash = bytes := by
  obtain ⟨side, sibling⟩ := step
  cases side <;> simp only [input, pair, Option.ite_none_right_eq_some, Option.some.injEq]

theorem pair_own {side : Side} {own sibling current other : Bytes} (sizes : own.length = current.length)
    (siblings : sibling.length = other.length) (same : pair side own sibling = pair side current other) : own = current := by
  cases side with
  | left => exact (List.append_inj (List.cons.inj same).2 siblings).2
  | right => exact (List.append_inj (List.cons.inj same).2 sizes).1

/-- What is hashed over a node. -/
theorem levelInputs_step {own : Bytes} (here : level[index]? = some own) :
    (levelInputs level)[index / 2]? = some (pair (step level index).side own (step level index).hash) ∧
      (step level index).hash ∈ level := by
  obtain ⟨inside, at_⟩ := List.getElem?_eq_some_iff.mp here
  rw [levelInputs_get]
  simp only [step]
  split
  case isTrue last =>
    have double : 2 * (index / 2) = index := by omega
    have outside : level[index + 1]? = none := List.getElem?_eq_none (by omega)
    simp only [double, here, List.getD, outside, Option.map_some, Option.getD_some, Option.getD_none, pair]
    exact ⟨trivial, at_ ▸ List.getElem_mem _⟩
  case isFalse other =>
    split
    case isTrue even =>
      have double : 2 * (index / 2) = index := by omega
      have next : level[index + 1]? = some level[index + 1] := List.getElem?_eq_getElem (by omega)
      simp only [double, here, List.getD, next, Option.map_some, Option.getD_some, pair]
      exact ⟨trivial, List.getElem_mem _⟩
    case isFalse odd =>
      have double : 2 * (index / 2) = index - 1 := by omega
      have again : index - 1 + 1 = index := by omega
      have before : level[index - 1]? = some level[index - 1] := List.getElem?_eq_getElem (by omega)
      simp only [double, again, here, List.getD, before, Option.map_some, Option.getD_some, pair]
      exact ⟨trivial, List.getElem_mem _⟩

theorem levelUp_get (index : Nat) : (levelUp hash level)[index]? = (levelInputs level)[index]?.map hash := by
  rw [levelUp_inputs, List.getElem?_map]

/-! ## Completeness -/

theorem doProof_follows (sized : Sized hash) (each : ∀ leaf ∈ level, leaf.length = 32) {own : Bytes}
    (here : level[index]? = some own) :
    ((doProof hash level index).map some).foldlM (advance hash) own = some (build hash level) := by
  fun_induction doProof hash level index generalizing own with
  | case1 first second rest index ih =>
    obtain ⟨above, sibling⟩ := levelInputs_step here
    have stepped : input own (step (first :: second :: rest) index) = some _ := input_some.mpr ⟨each _ sibling, rfl⟩
    have next := @levelUp_get hash (first :: second :: rest) (index / 2)
    rw [above] at next
    rw [List.map_cons, List.foldlM_cons, advance, Option.bind_some, stepped]
    show List.foldlM _ _ _ = _
    rw [ih (levelUp_sized sized) next, build]
  | case2 level index other =>
    cases level with
    | nil => cases here
    | cons top rest =>
      cases rest with
      | nil =>
        have only : index = 0 := by
          have inside := (List.getElem?_eq_some_iff.mp here).1
          simp only [List.length_singleton] at inside
          omega
        rw [only] at here
        cases here
        rw [build]
        rfl
      | cons second rest => exact absurd rfl (other top second rest)

theorem build_sized (sized : Sized hash) (each : ∀ leaf ∈ level, leaf.length = 32) (given : level ≠ []) :
    (build hash level).length = 32 := by
  fun_induction build hash level with
  | case1 => exact absurd rfl given
  | case2 root => exact each root List.mem_cons_self
  | case3 first second rest ih => exact ih (levelUp_sized sized) (by rw [levelUp]; exact List.cons_ne_nil _ _)

/-! ## Soundness -/

theorem Apart.mono {inputs more : List Bytes} (apart : Apart hash more) (among : inputs ⊆ more) : Apart hash inputs :=
  fun first one second two => apart first (among one) second (among two)

theorem followed_own (sized : Sized hash) (each : ∀ leaf ∈ level, leaf.length = 32) {own : Bytes} (long : own.length = 32)
    (inside : index < level.length) {proof : List (Option Step)}
    (sides : proof.map (Option.map Step.side) = (doProof hash level index).map fun step => some step.side)
    (apart : Apart hash (inputs hash level ++ followed hash own proof))
    (follows : proof.foldlM (advance hash) own = some (build hash level)) : level[index]? = some own := by
  fun_induction doProof hash level index generalizing own proof with
  | case1 first second rest index ih =>
    obtain ⟨given, proof, rfl, one, others⟩ := List.map_eq_cons_iff.mp sides
    obtain ⟨given, rfl, side⟩ := Option.map_eq_some_iff.mp one
    obtain ⟨node, stepped, follows⟩ := Option.bind_eq_some_iff.mp ((List.foldlM_cons ..).symm.trans follows)
    obtain ⟨bytes, input, rfl⟩ := Option.map_eq_some_iff.mp stepped
    have all : inputs hash (first :: second :: rest) ++ followed hash own (some given :: proof) =
        (levelInputs (first :: second :: rest) ++ inputs hash (levelUp hash (first :: second :: rest))) ++
          bytes :: followed hash (hash bytes) proof := by
      rw [inputs, followed, input]
    rw [all] at apart
    have above : (levelUp hash (first :: second :: rest))[index / 2]? = some (hash bytes) := by
      refine ih (levelUp_sized sized) (sized bytes) ?_ others (apart.mono ?_) (by rw [build] at follows; exact follows)
      · rw [levelUp_length]
        simp only [List.length_cons] at inside ⊢
        omega
      · exact List.append_subset.mpr ⟨List.Subset.trans (List.subset_append_right _ _) (List.subset_append_left _ _),
          List.Subset.trans (List.subset_cons_self _ _) (List.subset_append_right _ _)⟩
    have here := List.getElem?_eq_getElem inside
    obtain ⟨hashed, sibling⟩ := levelInputs_step here
    rw [levelUp_get, hashed, Option.map_some, Option.some.injEq] at above
    obtain ⟨size, rfl⟩ := input_some.mp input
    have same := apart _ (List.mem_append_left _ (List.mem_append_left _ (List.mem_of_getElem? hashed))) _
      (List.mem_append_right _ List.mem_cons_self) above
    rw [side] at same
    rw [here, pair_own ((each _ (List.getElem_mem _)).trans long.symm) ((each _ sibling).trans size.symm) same]
  | case2 level index other =>
    cases level with
    | nil => exact absurd inside (Nat.not_lt_zero _)
    | cons top rest =>
      cases rest with
      | nil =>
        obtain rfl : index = 0 := by
          simp only [List.length_singleton] at inside
          omega
        have none : proof = [] := List.map_eq_nil_iff.mp sides
        rw [none, build] at follows
        cases follows
        rfl
      | cons second rest => exact absurd rfl (other top second rest)

/-! ## Roots -/

theorem levelUp_pairUp (level : List Bytes) : levelUp hash level = pairUp (node hash) level := by
  fun_induction levelUp hash level with
  | case1 first second rest ih => rw [pairUp, ih]
  | case2 last => rfl
  | case3 => rfl

theorem build_climb (given : leaves ≠ []) : climb (node hash) leaves = some (build hash leaves) := by
  fun_induction build hash leaves with
  | case1 => exact absurd rfl given
  | case2 top => rw [climb]
  | case3 first second rest ih =>
    rw [climb, ← levelUp_pairUp]
    exact ih (by rw [levelUp]; exact List.cons_ne_nil _ _)

theorem root_climb (leaves : List Bytes) : root hash leaves = climb (node hash) leaves := by
  cases leaves with
  | nil => rw [climb, root]
  | cons first rest => exact (build_climb (List.cons_ne_nil _ _)).symm

section Trees
variable {α : Type} {item : α → Bytes} {own : α → List Bytes}

/-- What is hashed for the root of a tree. -/
def treeInputs (hash : Hash) (item : α → Bytes) (own : α → List Bytes) : Climb.Tree α → List Bytes
  | .leaf given => own given
  | .node left right => (1 :: (left.value (node hash) item ++ right.value (node hash) item)) ::
      (treeInputs hash item own left ++ treeInputs hash item own right)

theorem pairUp_inputs (level : List (Climb.Tree α)) : (pairUp .node level).flatMap (treeInputs hash item own) ⊆
    level.flatMap (treeInputs hash item own) ++ levelInputs (level.map (Climb.Tree.value (node hash) item)) := by
  fun_induction pairUp Climb.Tree.node level with
  | case1 first second rest ih =>
    intro bytes member
    have known := @ih bytes
    simp only [List.flatMap_cons, List.mem_append, treeInputs, List.mem_cons, List.map_cons, levelInputs] at member known ⊢
    tauto
  | case2 last =>
    intro bytes member
    simp only [List.flatMap_cons, List.flatMap_nil, List.mem_append, treeInputs, List.mem_cons, List.map_cons, List.map_nil,
      levelInputs] at member ⊢
    tauto
  | case3 => exact List.nil_subset _

theorem climb_inputs {level : List (Climb.Tree α)} {top : Climb.Tree α} (grown : climb .node level = some top) :
    treeInputs hash item own top ⊆
      level.flatMap (treeInputs hash item own) ++ inputs hash (level.map (Climb.Tree.value (node hash) item)) := by
  fun_induction climb Climb.Tree.node level with
  | case1 => cases grown
  | case2 tree =>
    cases grown
    rw [List.flatMap_singleton]
    exact List.subset_append_left _ _
  | case3 first second rest ih =>
    have up : levelUp hash ((first :: second :: rest).map (Climb.Tree.value (node hash) item)) =
        (pairUp .node (first :: second :: rest)).map (Climb.Tree.value (node hash) item) := by
      rw [levelUp_pairUp]
      exact pairUp_map (fun _ _ => rfl) _
    intro bytes member
    have below := @pairUp_inputs hash α item own (first :: second :: rest) bytes
    have all : inputs hash ((first :: second :: rest).map (Climb.Tree.value (node hash) item)) =
        levelInputs ((first :: second :: rest).map (Climb.Tree.value (node hash) item)) ++
          inputs hash ((pairUp .node (first :: second :: rest)).map (Climb.Tree.value (node hash) item)) := by
      rw [← up]
      simp only [List.map_cons, inputs]
    rw [all]
    have known := ih grown member
    rw [List.mem_append] at known
    simp only [List.mem_append] at below ⊢
    tauto

theorem tree_inputs {items : List α} {top : Climb.Tree α} (grown : tree items = some top) :
    treeInputs hash item own top ⊆ items.flatMap own ++ inputs hash (items.map item) := by
  have among := @climb_inputs hash α item own _ top grown
  rw [List.flatMap_map, List.map_map] at among
  exact among

theorem value_sized (sized : Sized hash) {given : Climb.Tree α} (fits : ∀ leaf ∈ given.leaves, (item leaf).length = 32) :
    (given.value (node hash) item).length = 32 := by
  cases given with
  | leaf given => exact fits given List.mem_cons_self
  | node left right => exact sized _

/-- Nodes with the same hash have the same parts. -/
theorem node_inj {all : List Bytes} (apart : Apart hash all) {left right left' right' : Bytes} (one : (1 :: (left ++ right)) ∈ all)
    (two : (1 :: (left' ++ right')) ∈ all) (sizes : left.length = left'.length) (same : node hash left right = node hash left' right') :
    left = left' ∧ right = right' :=
  List.append_inj (List.cons.inj (apart _ one _ two same)).2 sizes

/-- The inputs of both parts of two nodes are among those of the nodes. -/
theorem apart_parts {left right left' right' : Climb.Tree α}
    (apart : Apart hash (treeInputs hash item own (.node left right) ++ treeInputs hash item own (.node left' right'))) :
    Apart hash (treeInputs hash item own left ++ treeInputs hash item own left') ∧
      Apart hash (treeInputs hash item own right ++ treeInputs hash item own right') := by
  constructor
  · refine apart.mono fun bytes member => ?_
    simp only [treeInputs, List.mem_append, List.mem_cons] at member ⊢
    tauto
  · refine apart.mono fun bytes member => ?_
    simp only [treeInputs, List.mem_append, List.mem_cons] at member ⊢
    tauto

theorem nodes_inj {left right left' right' : Climb.Tree α}
    (apart : Apart hash (treeInputs hash item own (.node left right) ++ treeInputs hash item own (.node left' right')))
    (sizes : (left.value (node hash) item).length = (left'.value (node hash) item).length)
    (same : (Climb.Tree.node left right).value (node hash) item = (Climb.Tree.node left' right').value (node hash) item) :
    left.value (node hash) item = left'.value (node hash) item ∧ right.value (node hash) item = right'.value (node hash) item :=
  List.append_inj (List.cons.inj (apart _ (List.mem_append_left _ List.mem_cons_self) _
    (List.mem_append_right _ List.mem_cons_self) same)).2 sizes

/-- Trees of one depth with the same root have the same leaves. -/
theorem value_inj (sized : Sized hash) {first second : Climb.Tree Bytes} {depth : Nat} (perfect : first.Perfect depth)
    (perfect' : second.Perfect depth) (fits : ∀ leaf ∈ first.leaves, leaf.length = 32) (fits' : ∀ leaf ∈ second.leaves, leaf.length = 32)
    (apart : Apart hash (treeInputs hash id (fun _ => []) first ++ treeInputs hash id (fun _ => []) second))
    (same : first.value (node hash) id = second.value (node hash) id) : first = second := by
  induction first generalizing second depth with
  | leaf bytes =>
    cases depth with
    | succ depth => exact perfect.elim
    | zero =>
      cases second with
      | leaf bytes' => exact congrArg Climb.Tree.leaf same
      | node => exact perfect'.elim
  | node left right ihLeft ihRight =>
    cases depth with
    | zero => exact perfect.elim
    | succ depth =>
      cases second with
      | leaf => exact perfect'.elim
      | node left' right' =>
        obtain ⟨fitsLeft, fitsRight⟩ := List.forall_mem_append.mp fits
        obtain ⟨fitsLeft', fitsRight'⟩ := List.forall_mem_append.mp fits'
        have sizes := (value_sized sized fitsLeft).trans (value_sized sized fitsLeft').symm
        obtain ⟨lefts, rights⟩ := nodes_inj apart sizes same
        obtain ⟨apartLeft, apartRight⟩ := apart_parts apart
        rw [ihLeft perfect.1 perfect'.1 fitsLeft fitsLeft' apartLeft lefts,
          ihRight perfect.2 perfect'.2 fitsRight fitsRight' apartRight rights]

/-- What is hashed for a leaf. -/
def leafInput (data : Bytes) : List Bytes := [0 :: data]

/-- Leaves and nodes are hashed apart, so the root of a tree tells all of it. -/
theorem value_leaf_inj (sized : Sized hash) {first second : Climb.Tree Bytes}
    (apart : Apart hash (treeInputs hash (leaf hash) leafInput first ++ treeInputs hash (leaf hash) leafInput second))
    (same : first.value (node hash) (leaf hash) = second.value (node hash) (leaf hash)) : first = second := by
  have long : ∀ tree : Climb.Tree Bytes, (tree.value (node hash) (leaf hash)).length = 32 := fun tree =>
    value_sized sized fun data _ => sized _
  induction first generalizing second with
  | leaf data =>
    have own : (0 :: data) ∈ treeInputs hash (leaf hash) leafInput (.leaf data) := List.mem_cons_self
    cases second with
    | leaf data' =>
      have bytes := apart _ (List.mem_append_left _ own) (0 :: data') (List.mem_append_right _ List.mem_cons_self) same
      rw [(List.cons.inj bytes).2]
    | node left right =>
      have bytes := apart _ (List.mem_append_left _ own) _ (List.mem_append_right _ List.mem_cons_self) same
      exact absurd (List.cons.inj bytes).1 (by decide)
  | node left right ihLeft ihRight =>
    cases second with
    | leaf data' =>
      have bytes := apart _ (List.mem_append_left _ List.mem_cons_self) (0 :: data') (List.mem_append_right _ List.mem_cons_self) same
      exact absurd (List.cons.inj bytes).1 (by decide)
    | node left' right' =>
      obtain ⟨lefts, rights⟩ := nodes_inj apart ((long left).trans (long left').symm) same
      obtain ⟨apartLeft, apartRight⟩ := apart_parts apart
      rw [ihLeft apartLeft lefts, ihRight apartRight rights]

end Trees

/-- The leaves with each last node of an odd level repeated. -/
def spread (leaves : List Bytes) : Option (List Bytes) := climb (· ++ ·) (leaves.map fun leaf => [leaf])

theorem spread_tree : spread leaves = (tree leaves).map Climb.Tree.leaves := climb_tree _ _ _

theorem root_tree (item : Bytes → Bytes) : root hash (leaves.map item) = (tree leaves).map (Climb.Tree.value (node hash) item) := by
  rw [root_climb, climb_tree]

theorem root_leaf_inj (sized : Sized hash) {first second : List Bytes} (given : first ≠ [])
    (apart : Apart hash ((first.flatMap leafInput ++ inputs hash (first.map (leaf hash))) ++
      (second.flatMap leafInput ++ inputs hash (second.map (leaf hash))))) :
    root hash (first.map (leaf hash)) = root hash (second.map (leaf hash)) ↔ spread first = spread second := by
  rw [root_tree, root_tree, spread_tree, spread_tree]
  obtain ⟨one, grown⟩ : ∃ one, tree first = some one := climb_some _ fun none => given (List.map_eq_nil_iff.mp none)
  rw [grown]
  cases grown' : tree second with
  | none => exact iff_of_false nofun nofun
  | some two =>
    rw [Option.map_some, Option.map_some, Option.map_some, Option.map_some, Option.some.injEq, Option.some.injEq,
      (tree_perfect grown).leaves_inj (tree_perfect grown')]
    constructor
    · refine fun same => value_leaf_inj sized (apart.mono ?_) same
      exact List.append_subset.mpr ⟨List.Subset.trans (tree_inputs grown) (List.subset_append_left _ _),
        List.Subset.trans (tree_inputs grown') (List.subset_append_right _ _)⟩
    · exact fun same => same ▸ rfl

theorem root_inj (sized : Sized hash) {first second : List Bytes} (each : ∀ leaf ∈ first, leaf.length = 32)
    (each' : ∀ leaf ∈ second, leaf.length = 32) (sizes : first.length = second.length)
    (apart : Apart hash (inputs hash first ++ inputs hash second)) (same : root hash first = root hash second) : first = second := by
  rw [← List.map_id first, ← List.map_id second, root_tree, root_tree] at same
  cases grown : tree first with
  | none =>
    have none : first = [] := by
      by_contra given
      obtain ⟨one, grown'⟩ := climb_some Climb.Tree.node fun none => given (List.map_eq_nil_iff.mp none)
      cases grown.symm.trans grown'
    rw [none] at sizes ⊢
    exact (List.eq_nil_of_length_eq_zero sizes.symm).symm
  | some one =>
    obtain ⟨two, grown'⟩ : ∃ two, tree second = some two := by
      rw [grown] at same
      obtain ⟨two, grown', -⟩ := Option.map_eq_some_iff.mp same.symm
      exact ⟨two, grown'⟩
    rw [grown, grown'] at same
    have perfect' := tree_perfect grown'
    rw [← sizes] at perfect'
    have none : ∀ items : List Bytes, items.flatMap (fun _ => ([] : List Bytes)) = [] := fun items =>
      List.flatMap_eq_nil_iff.mpr fun _ _ => rfl
    have left := @tree_inputs hash Bytes id (fun _ => []) first one grown
    have right := @tree_inputs hash Bytes id (fun _ => []) second two grown'
    rw [none, List.map_id, List.nil_append] at left right
    have alike : one = two := by
      refine value_inj sized (tree_perfect grown) perfect' (fun leaf member => each leaf (tree_leaves grown member))
        (fun leaf member => each' leaf (tree_leaves grown' member)) (apart.mono ?_) (Option.some.inj same)
      exact List.append_subset.mpr ⟨List.Subset.trans left (List.subset_append_left _ _),
        List.Subset.trans right (List.subset_append_right _ _)⟩
    exact tree_inj sizes grown (alike ▸ grown')

/-! ## The law of the tree -/

/-- Every leaf has a proof that holds. -/
def Complete (hash : Hash) : Prop :=
  ∀ (leaves : List Bytes) (index : Int), (∀ leaf ∈ leaves, leaf.length = 32) → 0 ≤ index → index < leaves.length →
    ∃ steps top own, proof hash leaves index = .ok steps ∧ root hash leaves = some top ∧ leaves[index.toNat]? = some own ∧
      validProof hash own (steps.map some) top = true

/-- A proof with the sides of a leaf holds for this leaf only. -/
def Sound (hash : Hash) : Prop :=
  ∀ (leaves : List Bytes) (index : Nat) (own top : Bytes) (steps : List (Option Step)), (∀ leaf ∈ leaves, leaf.length = 32) →
    index < leaves.length → root hash leaves = some top →
    steps.map (Option.map Step.side) = (doProof hash leaves index).map (fun step => some step.side) →
    Apart hash (inputs hash leaves ++ followed hash own steps) → validProof hash own steps top = true →
    leaves[index]? = some own

/-- What is hashed for the root over some data. -/
def dataInputs (hash : Hash) (data : List Bytes) : List Bytes :=
  data.flatMap leafInput ++ inputs hash (data.map (leaf hash))

/-- Lists with one root are the same, but for what is repeated. -/
def Telling (hash : Hash) : Prop :=
  ∀ first second : List Bytes, first ≠ [] → Apart hash (dataInputs hash first ++ dataInputs hash second) →
    (root hash (first.map (leaf hash)) = root hash (second.map (leaf hash)) ↔ spread first = spread second)

/-- Lists of one length with one root are the same. -/
def Binding (hash : Hash) : Prop :=
  ∀ first second : List Bytes, (∀ leaf ∈ first, leaf.length = 32) → (∀ leaf ∈ second, leaf.length = 32) →
    first.length = second.length → Apart hash (inputs hash first ++ inputs hash second) → root hash first = root hash second →
    first = second

theorem proof_complete (sized : Sized hash) : Complete hash := by
  intro leaves index each positive inside
  have given : leaves ≠ [] := by
    rintro rfl
    simp only [List.length_nil] at inside
    omega
  have here : leaves[index.toNat]? = some leaves[index.toNat] := List.getElem?_eq_getElem (by omega)
  have follows := doProof_follows sized each here
  refine ⟨doProof hash leaves index.toNat, build hash leaves, _, ?_, (root_climb leaves).trans (build_climb given), here, ?_⟩
  · rw [proof, if_neg given, if_neg (by omega)]
  · rw [validProof, follows, each _ (List.getElem_mem _), build_sized sized each given]
    simp

theorem proof_sound (sized : Sized hash) : Sound hash := by
  intro leaves index own top steps each inside rooted sides apart valid
  have given : leaves ≠ [] := by
    rintro rfl
    exact Nat.not_lt_zero _ inside
  cases ((root_climb leaves).trans (build_climb given)).symm.trans rooted
  simp only [validProof, Bool.and_eq_true, decide_eq_true_eq] at valid
  exact followed_own sized each valid.1.1 inside sides apart valid.2

theorem leaves_pinned (sized : Sized hash) : Complete hash ∧ Sound hash ∧ Telling hash ∧ Binding hash :=
  ⟨proof_complete sized, proof_sound sized, fun _ _ given apart => root_leaf_inj sized given apart,
    fun _ _ each each' sizes apart same => root_inj sized each each' sizes apart same⟩

/-! ## Three entries -/

/-- A polynomial of the bytes, in place of a hash. -/
def checksum : Hash := fun bytes =>
  let sum := bytes.foldl (fun sum byte => (sum * 257 + byte.toNat + 1) % 18446744073709551557) 7
  (List.range 8).map (fun place => UInt8.ofNat (sum / 256 ^ place)) ++ List.replicate 24 0

theorem checksum_sized : Sized checksum := fun bytes => by simp [checksum]

def three : List Bytes := [[0x61], [0x62], [0x63]]

def four : List Bytes := [[0x61], [0x62], [0x63], [0x63]]

instance (inputs : List Bytes) : Decidable (Apart checksum inputs) := inferInstanceAs (Decidable (∀ first ∈ inputs, _))

theorem four_apart : Apart checksum (dataInputs checksum three ++ dataInputs checksum four) := by decide +kernel

/-- The third entry has its proof, and the proof is for no other. -/
theorem three_pinned :
    (∃ steps top own, proof checksum (three.map (leaf checksum)) 2 = .ok steps ∧
      root checksum (three.map (leaf checksum)) = some top ∧ (three.map (leaf checksum))[2]? = some own ∧
      validProof checksum own (steps.map some) top = true) ∧
    (three.map (leaf checksum))[2]? = some (leaf checksum [0x63]) ∧ spread three = spread four := by
  obtain ⟨complete, sound, telling, -⟩ := leaves_pinned checksum_sized
  have each : ∀ entry ∈ three.map (leaf checksum), entry.length = 32 := by decide
  refine ⟨complete _ 2 each (by decide) (by decide), ?_, ?_⟩
  · exact sound (three.map (leaf checksum)) 2 _ (build checksum (three.map (leaf checksum)))
      ((doProof checksum (three.map (leaf checksum)) 2).map some) each (by decide) (by decide +kernel) (by decide +kernel)
      (by decide +kernel) (by decide +kernel)
  · exact (telling three four (by decide) four_apart).mp (by decide +kernel)

/-- The last entry once more gives the same root. -/
theorem four_same_root : ¬ ∀ hash, Sized hash → ∀ first second : List Bytes, first ≠ [] → second ≠ [] →
    Apart hash (dataInputs hash first ++ dataInputs hash second) →
    root hash (first.map (leaf hash)) = root hash (second.map (leaf hash)) → first = second := by
  intro law
  have same := law checksum checksum_sized three four (by decide) (by decide) four_apart (by decide +kernel)
  exact absurd same (by decide)

end AshA2A.Passport.Merkle
