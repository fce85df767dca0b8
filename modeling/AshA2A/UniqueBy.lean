import Mathlib.Data.List.Sort

/-! Lists without repeated keys: what is kept of each key, and in which order it comes when it is sorted.
Nothing here names a particular system. -/

namespace UniqueBy

variable {α κ : Type}

/-- Keep the first item of each key that is not seen yet. -/
def uniqFrom [DecidableEq κ] (key : α → κ) (seen : List κ) : List α → List α
  | [] => []
  | item :: items =>
    if key item ∈ seen then uniqFrom key seen items else item :: uniqFrom key (key item :: seen) items

def uniqBy [DecidableEq κ] (key : α → κ) (items : List α) : List α := uniqFrom key [] items

def sortBy [LinearOrder κ] (key : α → κ) (items : List α) : List α :=
  items.insertionSort fun first second => key first ≤ key second

section Unique
variable [DecidableEq κ] {key : α → κ} {seen : List κ} {items : List α} {item : α}

theorem uniqFrom_sublist : (uniqFrom key seen items).Sublist items := by
  induction items generalizing seen with
  | nil => exact .slnil
  | cons item items ih =>
    rw [uniqFrom]
    split
    · exact ih.cons item
    · exact ih.cons_cons item

theorem uniqFrom_keys {name : κ} :
    name ∈ (uniqFrom key seen items).map key ↔ name ∈ items.map key ∧ name ∉ seen := by
  induction items generalizing seen with
  | nil => simp [uniqFrom]
  | cons item items ih =>
    rw [uniqFrom]
    split
    case isTrue known =>
      rw [ih, List.map_cons, List.mem_cons]
      constructor
      · rintro ⟨later, new⟩
        exact ⟨.inr later, new⟩
      · rintro ⟨rfl | later, new⟩
        · exact absurd known new
        · exact ⟨later, new⟩
    case isFalse unknown =>
      rw [List.map_cons, List.mem_cons, ih, List.map_cons, List.mem_cons, List.mem_cons]
      constructor
      · rintro (rfl | ⟨later, new⟩)
        · exact ⟨.inl rfl, unknown⟩
        · exact ⟨.inr later, fun known => new (.inr known)⟩
      · rintro ⟨rfl | later, new⟩
        · exact .inl rfl
        · by_cases same : name = key item
          · exact .inl same
          · exact .inr ⟨later, fun known => known.elim same new⟩

theorem uniqFrom_nodup : ((uniqFrom key seen items).map key).Nodup := by
  induction items generalizing seen with
  | nil => exact List.nodup_nil
  | cons item items ih =>
    rw [uniqFrom]
    split
    · exact ih
    · refine List.nodup_cons.mpr ⟨fun later => ?_, ih⟩
      exact (uniqFrom_keys.mp later).2 List.mem_cons_self

theorem uniqBy_sublist : (uniqBy key items).Sublist items := uniqFrom_sublist

theorem mem_of_uniqBy (member : item ∈ uniqBy key items) : item ∈ items := uniqBy_sublist.subset member

theorem uniqBy_nodup : ((uniqBy key items).map key).Nodup := uniqFrom_nodup

theorem uniqBy_keys {name : κ} : name ∈ (uniqBy key items).map key ↔ name ∈ items.map key := by
  rw [uniqBy, uniqFrom_keys]
  simp

/-- Only one item has its key. -/
theorem filter_key {items : List α} (distinct : (items.map key).Nodup) (member : item ∈ items) :
    (items.filter fun other => key other = key item) = [item] := by
  induction items with
  | nil => exact absurd member List.not_mem_nil
  | cons first rest ih =>
    obtain ⟨new, distinct⟩ := List.nodup_cons.mp distinct
    rcases List.mem_cons.mp member with rfl | later
    · rw [List.filter_cons_of_pos (by simp), List.filter_eq_nil_iff.mpr]
      intro other among same
      exact new (List.mem_map.mpr ⟨other, among, of_decide_eq_true same⟩)
    · have other : key first ≠ key item := fun same => new (List.mem_map.mpr ⟨item, later, same.symm⟩)
      rw [List.filter_cons_of_neg (by simpa using other), ih distinct later]

/-- The first item is kept. -/
theorem uniqBy_cons : ∃ rest, uniqBy key (item :: items) = item :: rest := ⟨_, by rw [uniqBy, uniqFrom, if_neg (by simp)]⟩

/-- Nothing is lost where a key belongs to one item. -/
theorem mem_uniqBy_iff (one : ∀ first ∈ items, ∀ second ∈ items, key first = key second → first = second) :
    item ∈ uniqBy key items ↔ item ∈ items := by
  refine ⟨mem_of_uniqBy, fun member => ?_⟩
  have known : key item ∈ (uniqBy key items).map key := uniqBy_keys.mpr (List.mem_map_of_mem member)
  obtain ⟨kept, among, same⟩ := List.mem_map.mp known
  rwa [← one kept (mem_of_uniqBy among) item member same]

end Unique

/-- Two lists with the same keys, compared item by item. -/
theorem forall₂_of_keys {β : Type} {key : α → κ} {name : β → κ} {Related : α → β → Prop} {items : List α} {others : List β}
    (same : items.map key = others.map name)
    (each : ∀ item ∈ items, ∀ other ∈ others, key item = name other → Related item other) :
    List.Forall₂ Related items others := by
  induction items generalizing others with
  | nil =>
    rw [List.map_nil, eq_comm, List.map_eq_nil_iff] at same
    exact same ▸ .nil
  | cons item items ih =>
    cases others with
    | nil => cases same
    | cons other others =>
      obtain ⟨one, rest⟩ := List.cons.inj same
      refine .cons (each item List.mem_cons_self other List.mem_cons_self one) (ih rest fun first among second member => ?_)
      exact each first (List.mem_cons_of_mem _ among) second (List.mem_cons_of_mem _ member)

section Sorted
variable [LinearOrder κ] {key : α → κ} {items others : List α}

theorem sortBy_perm : (sortBy key items).Perm items := List.perm_insertionSort _ _

theorem mem_sortBy {item : α} : item ∈ sortBy key items ↔ item ∈ items := sortBy_perm.mem_iff

theorem sortBy_sorted : ((sortBy key items).map key).Pairwise (· ≤ ·) := by
  have sorted : (sortBy key items).Pairwise fun first second => key first ≤ key second :=
    List.pairwise_insertionSort _ _
  exact List.pairwise_map.mpr sorted

/-- Once sorted, items of distinct keys come in an order that only the set of the keys decides. -/
theorem sortBy_keys_eq (first : (items.map key).Nodup) (second : (others.map key).Nodup)
    (same : ∀ name, name ∈ items.map key ↔ name ∈ others.map key) :
    (sortBy key items).map key = (sortBy key others).map key := by
  have left : ((sortBy key items).map key).Perm (items.map key) := sortBy_perm.map key
  have right : ((sortBy key others).map key).Perm (others.map key) := sortBy_perm.map key
  have perm : (items.map key).Perm (others.map key) := (List.perm_ext_iff_of_nodup first second).mpr same
  exact (left.trans (perm.trans right.symm)).eq_of_pairwise (fun _ _ _ _ => le_antisymm) sortBy_sorted sortBy_sorted

/-- Once sorted, lists of the same items are the same where the keys tell the items apart. -/
theorem sortBy_eq (first : items.Nodup) (second : others.Nodup) (same : ∀ item, item ∈ items ↔ item ∈ others)
    (one : ∀ first ∈ items, ∀ second ∈ items, key first = key second → first = second) :
    sortBy key items = sortBy key others := by
  have perm : (sortBy key items).Perm (sortBy key others) :=
    sortBy_perm.trans (((List.perm_ext_iff_of_nodup first second).mpr same).trans sortBy_perm.symm)
  refine perm.eq_of_pairwise (fun left right member among below above => ?_) (List.pairwise_map.mp sortBy_sorted)
    (List.pairwise_map.mp sortBy_sorted)
  exact one left (mem_sortBy.mp member) right ((same right).mpr (mem_sortBy.mp among)) (le_antisymm below above)

/-- The first item has the least key. -/
theorem sortBy_head {first item : α} {rest : List α} (sorted : sortBy key items = first :: rest) (member : item ∈ items) :
    key first ≤ key item := by
  have order := List.pairwise_map.mp (@sortBy_sorted _ _ _ key items)
  rw [sorted] at order
  rcases List.mem_cons.mp (sorted ▸ mem_sortBy.mpr member) with rfl | later
  · exact le_refl _
  · exact List.rel_of_pairwise_cons order later

end Sorted
end UniqueBy
