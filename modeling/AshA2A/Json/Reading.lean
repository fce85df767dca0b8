import AshA2A.Json
import AshA2A.Term
import Mathlib.Data.List.Nodup
import Mathlib.Tactic.Tauto

/-! Objects as the encoders build them, and rewritings of a value under which every member
is found where it was: keeping the last entry of a key, or the order and the spelling that a
comparison ignores. -/

namespace AshA2A.Json

/-- The members that are present. -/
def record (members : List (String × Option Json)) : Json :=
  .object (members.filterMap fun member => member.2.map (member.1, ·))

def isNumber : Json → Bool
  | .int _ | .float _ => true
  | _ => false

def isObject : Json → Bool
  | .object _ => true
  | _ => false

def isArray : Json → Bool
  | .array _ => true
  | _ => false

/-- The last entry of each key. -/
def lastEntries {α : Type} : List (String × α) → List (String × α)
  | [] => []
  | entry :: entries =>
    if entries.any fun other => other.1 = entry.1 then lastEntries entries else entry :: lastEntries entries

/-- The keys in order. -/
def sortEntries {α : Type} (entries : List (String × α)) : List (String × α) :=
  entries.mergeSort fun left right => left.1 ≤ right.1

/-! ## Lookups -/

section Lookup

variable {α β : Type} {entries : List (String × α)} {key : String}

theorem lookup_map (f : α → β) : (entries.map (Prod.map id f)).lookup key = (entries.lookup key).map f := by
  induction entries with
  | nil => rfl
  | cons entry rest ih =>
    obtain ⟨name, value⟩ := entry
    simp only [List.map_cons, Prod.map, id_eq, List.lookup_cons]
    split
    · rfl
    · exact ih

/-- Where no key is repeated the order does not matter. -/
theorem lookup_reverse (distinct : (entries.map Prod.fst).Nodup) :
    entries.reverse.lookup key = entries.lookup key := by
  cases found : entries.lookup key with
  | none =>
    rw [List.lookup_eq_none_iff] at found ⊢
    exact fun entry member => found entry (List.mem_reverse.mp member)
  | some value =>
    obtain ⟨front, back, rfl, _⟩ := List.lookup_eq_some_iff.mp found
    refine lookup_of_mem ?_ (List.mem_reverse.mpr (List.mem_append_right _ (List.mem_cons_self ..)))
    rw [List.map_reverse]
    exact List.nodup_reverse.mpr distinct

/-- The entries of one key decide what is found. -/
theorem lookup_filter : (entries.filter fun entry => entry.1 = key).lookup key = entries.lookup key := by
  induction entries with
  | nil => rfl
  | cons entry rest ih =>
    obtain ⟨name, value⟩ := entry
    by_cases same : name = key
    · simp [same]
    · rw [List.filter_cons_of_neg (by simpa using same), ih, List.lookup_cons,
        beq_eq_false_iff_ne.mpr (Ne.symm same)]

end Lookup

@[simp] theorem get?_object (entries : List (String × Json)) (key : String) :
    (Json.object entries).get? key = entries.reverse.lookup key := rfl

theorem record_keys {members : List (String × Option Json)} :
    ((members.filterMap fun member => member.2.map (member.1, ·)).map Prod.fst).Sublist (members.map Prod.fst) := by
  induction members with
  | nil => simp
  | cons member rest ih =>
    obtain ⟨key, value⟩ := member
    cases value with
    | none => simpa using ih.cons key
    | some value => simpa using ih

theorem lookup_record {members : List (String × Option Json)} (distinct : (members.map Prod.fst).Nodup)
    (key : String) : (members.filterMap fun member => member.2.map (member.1, ·)).lookup key =
      (members.lookup key).join := by
  induction members with
  | nil => rfl
  | cons member rest ih =>
    obtain ⟨name, value⟩ := member
    obtain ⟨fresh, rest_distinct⟩ := List.nodup_cons.mp distinct
    have rest_found := ih rest_distinct
    by_cases same : key = name
    · subst same
      have absent : rest.lookup key = none :=
        List.lookup_eq_none_iff.mpr fun member given => bne_iff_ne.mpr fun same =>
          fresh (List.mem_map.mpr ⟨member, given, same.symm⟩)
      cases value with
      | none => simpa [absent] using rest_found
      | some value => simp
    · have other := beq_eq_false_iff_ne.mpr same
      cases value <;> simpa [List.lookup_cons, other] using rest_found

theorem get?_record {members : List (String × Option Json)} (distinct : (members.map Prod.fst).Nodup)
    (key : String) : (record members).get? key = (members.lookup key).join := by
  rw [record, get?_object, lookup_reverse (record_keys.nodup distinct), lookup_record distinct]

theorem record_without {members : List (String × Option Json)} {key : String} :
    (record members).without key = record (members.filter fun member => member.1 ≠ key) := by
  simp only [without, record, entries, Json.object.injEq]
  induction members with
  | nil => rfl
  | cons member rest ih =>
    obtain ⟨name, value⟩ := member
    by_cases same : name = key <;> cases value <;> simp_all

/-! ## Readings -/

structure Reading where
  value : Json → Json
  members : {α : Type} → List (String × α) → List (String × α)
  null : value .null = .null
  bool : ∀ flag, value (.bool flag) = .bool flag
  string : ∀ text, value (.string text) = .string text
  array : ∀ items, value (.array items) = .array (items.map value)
  object : ∀ entries, value (.object entries) = .object ((members entries).map (Prod.map id value))
  number : ∀ json, json.isNumber → (value json).isNumber
  natural : ∀ {α β : Type} (f : α → β) (entries : List (String × α)),
    members (entries.map (Prod.map id f)) = (members entries).map (Prod.map id f)
  within : ∀ {α : Type} (entries : List (String × α)), ∀ entry ∈ members entries, entry ∈ entries
  found : ∀ {α : Type} (entries : List (String × α)) (key : String),
    (members entries).reverse.lookup key = entries.reverse.lookup key

namespace Reading

variable (reading : Reading)

theorem members_nil {α : Type} {entries : List (String × α)} : reading.members entries = [] ↔ entries = [] := by
  constructor
  · intro empty
    cases entries with
    | nil => rfl
    | cons entry rest =>
      have found := reading.found (entry :: rest) entry.1
      rw [empty, eq_comm, List.reverse_nil, List.lookup_nil, List.lookup_eq_none_iff] at found
      simpa using found entry (by simp)
  · rintro rfl
    exact List.eq_nil_iff_forall_not_mem.mpr fun entry member =>
      absurd (reading.within [] entry member) List.not_mem_nil

@[simp] theorem get?_value (json : Json) (key : String) :
    (reading.value json).get? key = (json.get? key).map reading.value := by
  cases json with
  | object entries =>
    rw [reading.object, get?_object, get?_object, ← List.map_reverse, lookup_map, reading.found]
  | null => rw [reading.null]; rfl
  | bool flag => rw [reading.bool]; rfl
  | string text => rw [reading.string]; rfl
  | array items => rw [reading.array]; rfl
  | int number =>
    have number := reading.number (.int number) rfl
    cases given : reading.value (.int _) <;> simp_all [isNumber, Json.get?, entries]
  | float number =>
    have number := reading.number (.float number) rfl
    cases given : reading.value (.float _) <;> simp_all [isNumber, Json.get?, entries]

@[simp] theorem isObject_value (json : Json) : (reading.value json).isObject = json.isObject := by
  cases json with
  | object entries => rw [reading.object]; rfl
  | null => rw [reading.null]
  | bool flag => rw [reading.bool]
  | string text => rw [reading.string]
  | array items => rw [reading.array]; rfl
  | int number =>
    have number := reading.number (.int number) rfl
    cases given : reading.value (.int _) <;> simp_all [isNumber, isObject]
  | float number =>
    have number := reading.number (.float number) rfl
    cases given : reading.value (.float _) <;> simp_all [isNumber, isObject]

/-- What a number is read as is none of the values that the codecs look for. -/
theorem number_cases {json : Json} (number : json.isNumber) :
    (∃ value, reading.value json = .int value) ∨ ∃ value, reading.value json = .float value := by
  have number := reading.number json number
  cases given : reading.value json <;> simp_all [isNumber]

@[simp] theorem isArray_value (json : Json) : (reading.value json).isArray = json.isArray := by
  cases json with
  | int number => obtain ⟨_, same⟩ | ⟨_, same⟩ := reading.number_cases (rfl : (Json.int number).isNumber) <;>
      simp [same, isArray]
  | float number => obtain ⟨_, same⟩ | ⟨_, same⟩ := reading.number_cases (rfl : (Json.float number).isNumber) <;>
      simp [same, isArray]
  | _ => simp [isArray, reading.null, reading.bool, reading.string, reading.array, reading.object]

theorem value_eq_null {json : Json} : reading.value json = .null ↔ json = .null := by
  cases json with
  | int number => obtain ⟨_, same⟩ | ⟨_, same⟩ := reading.number_cases (rfl : (Json.int number).isNumber) <;>
      simp [same]
  | float number => obtain ⟨_, same⟩ | ⟨_, same⟩ := reading.number_cases (rfl : (Json.float number).isNumber) <;>
      simp [same]
  | _ => simp [reading.null, reading.bool, reading.string, reading.array, reading.object]

theorem value_eq_bool {json : Json} {flag : Bool} : reading.value json = .bool flag ↔ json = .bool flag := by
  cases json with
  | int number => obtain ⟨_, same⟩ | ⟨_, same⟩ := reading.number_cases (rfl : (Json.int number).isNumber) <;>
      simp [same]
  | float number => obtain ⟨_, same⟩ | ⟨_, same⟩ := reading.number_cases (rfl : (Json.float number).isNumber) <;>
      simp [same]
  | _ => simp [reading.null, reading.bool, reading.string, reading.array, reading.object]

theorem value_eq_string {json : Json} {text : String} : reading.value json = .string text ↔ json = .string text := by
  cases json with
  | int number => obtain ⟨_, same⟩ | ⟨_, same⟩ := reading.number_cases (rfl : (Json.int number).isNumber) <;>
      simp [same]
  | float number => obtain ⟨_, same⟩ | ⟨_, same⟩ := reading.number_cases (rfl : (Json.float number).isNumber) <;>
      simp [same]
  | _ => simp [reading.null, reading.bool, reading.string, reading.array, reading.object]

theorem value_eq_nothing {json : Json} : reading.value json = .object [] ↔ json = .object [] := by
  cases json with
  | int number => obtain ⟨_, same⟩ | ⟨_, same⟩ := reading.number_cases (rfl : (Json.int number).isNumber) <;>
      simp [same]
  | float number => obtain ⟨_, same⟩ | ⟨_, same⟩ := reading.number_cases (rfl : (Json.float number).isNumber) <;>
      simp [same]
  | object entries => simp [reading.object, reading.members_nil]
  | _ => simp [reading.null, reading.bool, reading.string, reading.array]

end Reading

/-! ## The last entry of each key -/

theorem lastWinsItems_map (items : List Json) : lastWinsItems items = items.map lastWins := by
  induction items with
  | nil => rfl
  | cons item rest ih => rw [lastWinsItems, ih, List.map_cons]

theorem lastWinsEntries_map (entries : List (String × Json)) :
    lastWinsEntries entries = (lastEntries entries).map (Prod.map id lastWins) := by
  induction entries with
  | nil => rfl
  | cons entry rest ih =>
    obtain ⟨key, value⟩ := entry
    simp only [lastWinsEntries, lastEntries]
    split <;> simp [ih]

section LastEntries

variable {α β : Type}

theorem lastEntries_map (f : α → β) (entries : List (String × α)) :
    lastEntries (entries.map (Prod.map id f)) = (lastEntries entries).map (Prod.map id f) := by
  induction entries with
  | nil => rfl
  | cons entry rest ih =>
    simp only [List.map_cons, lastEntries, List.any_map, Function.comp_def, Prod.map_fst, id_eq, ih]
    split <;> rfl

theorem lastEntries_sublist (entries : List (String × α)) : (lastEntries entries).Sublist entries := by
  induction entries with
  | nil => exact .slnil
  | cons entry rest ih =>
    rw [lastEntries]
    split
    · exact ih.cons _
    · exact ih.cons_cons _

theorem lastEntries_lookup (entries : List (String × α)) (key : String) :
    (lastEntries entries).reverse.lookup key = entries.reverse.lookup key := by
  induction entries with
  | nil => rfl
  | cons entry rest ih =>
    obtain ⟨name, value⟩ := entry
    rw [List.reverse_cons, List.lookup_append, ← ih, lastEntries]
    split
    next repeated =>
      obtain ⟨other, member, same⟩ := List.any_eq_true.mp repeated
      by_cases asked : key = name
      · have present : (rest.reverse.lookup key).isSome :=
          List.lookup_isSome_iff.mpr ⟨other, List.mem_reverse.mpr member, by simp_all⟩
        obtain ⟨value, found⟩ := Option.isSome_iff_exists.mp present
        rw [ih, found, Option.some_or]
      · simp [List.lookup_cons, beq_eq_false_iff_ne.mpr asked]
    next => rw [List.reverse_cons, List.lookup_append]

theorem lastEntries_of_nodup {entries : List (String × α)} (distinct : (entries.map Prod.fst).Nodup) :
    lastEntries entries = entries := by
  induction entries with
  | nil => rfl
  | cons entry rest ih =>
    obtain ⟨fresh, distinct⟩ := List.nodup_cons.mp distinct
    rw [lastEntries, ih distinct, if_neg]
    intro repeated
    obtain ⟨other, member, same⟩ := List.any_eq_true.mp repeated
    exact fresh (List.mem_map.mpr ⟨other, member, by simpa using same⟩)

theorem lastEntries_nodup (entries : List (String × α)) : ((lastEntries entries).map Prod.fst).Nodup := by
  induction entries with
  | nil => exact List.nodup_nil
  | cons entry rest ih =>
    rw [lastEntries]
    split
    · exact ih
    next unique =>
      refine List.nodup_cons.mpr ⟨fun member => unique ?_, ih⟩
      obtain ⟨other, given, same⟩ := List.mem_map.mp member
      exact List.any_eq_true.mpr ⟨other, (lastEntries_sublist rest).mem given, by simpa using same⟩

end LastEntries

/-- A plain map in place of each object. -/
def plainly : Reading where
  value := lastWins
  members := lastEntries
  null := by simp [lastWins]
  bool := by simp [lastWins]
  string := by simp [lastWins]
  array items := by rw [lastWins, lastWinsItems_map]
  object entries := by rw [lastWins, lastWinsEntries_map]
  number json number := by cases json <;> simp_all [lastWins, isNumber]
  natural := lastEntries_map
  within entries _ member := (lastEntries_sublist entries).mem member
  found := lastEntries_lookup

mutual

theorem lastWins_lastWins : ∀ json : Json, json.lastWins.lastWins = json.lastWins
  | .null | .bool _ | .int _ | .float _ | .string _ => by simp [lastWins]
  | .array items => by
    rw [lastWins, lastWinsItems_map, lastWins, lastWinsItems_map, List.map_map]
    exact congrArg _ (List.map_congr_left (lastWins_items items))
  | .object entries => by
    rw [lastWins, lastWinsEntries_map, lastWins, lastWinsEntries_map, lastEntries_map,
      lastEntries_of_nodup (lastEntries_nodup entries), List.map_map]
    refine congrArg _ (List.map_congr_left fun entry member => ?_)
    exact Prod.ext rfl (lastWins_entries entries entry ((lastEntries_sublist entries).mem member))

theorem lastWins_items : ∀ items : List Json, ∀ item ∈ items, item.lastWins.lastWins = item.lastWins
  | [] => fun _ member => absurd member List.not_mem_nil
  | item :: items => List.forall_mem_cons.mpr ⟨lastWins_lastWins item, lastWins_items items⟩

theorem lastWins_entries : ∀ entries : List (String × Json), ∀ entry ∈ entries,
    entry.2.lastWins.lastWins = entry.2.lastWins
  | [] => fun _ member => absurd member List.not_mem_nil
  | (_, value) :: entries => List.forall_mem_cons.mpr ⟨lastWins_lastWins value, lastWins_entries entries⟩

end

/-! ## The order of the keys -/

theorem normItems_map (items : List Json) : normItems items = items.map norm := by
  induction items with
  | nil => rfl
  | cons item rest ih => rw [normItems, ih, List.map_cons]

theorem normEntries_map (entries : List (String × Json)) :
    normEntries entries = entries.map (Prod.map id norm) := by
  induction entries with
  | nil => rfl
  | cons entry rest ih =>
    obtain ⟨key, value⟩ := entry
    simp [normEntries, ih]

section SortEntries

variable {α β : Type}

theorem sortEntries_map (f : α → β) (entries : List (String × α)) :
    sortEntries (entries.map (Prod.map id f)) = (sortEntries entries).map (Prod.map id f) := by
  refine (List.map_mergeSort fun left _ right _ => ?_).symm
  rfl

/-- The sort is stable. -/
theorem sortEntries_filter (entries : List (String × α)) (key : String) :
    (sortEntries entries).filter (fun entry => entry.1 = key) = entries.filter fun entry => entry.1 = key := by
  have tied : (entries.filter fun entry => entry.1 = key).Pairwise fun left right =>
      decide (left.1 ≤ right.1) = true := by
    refine List.pairwise_iff_forall_sublist.mpr fun {left right} within => ?_
    have left_key := List.of_mem_filter (within.mem (List.mem_cons_self ..))
    have right_key := List.of_mem_filter (within.mem (List.mem_cons_of_mem _ (List.mem_cons_self ..)))
    simp_all
  have kept : (entries.filter fun entry => entry.1 = key).Sublist (sortEntries entries) :=
    List.sublist_mergeSort
      (fun _ _ _ first second => by
        simp only [decide_eq_true_eq] at first second ⊢
        exact String.le_trans first second)
      (fun left right => by simpa using String.le_total left.1 right.1) tied List.filter_sublist
  have inside := kept.filter fun entry => decide (entry.1 = key)
  simp only [List.filter_filter, Bool.and_self] at inside
  exact (inside.eq_of_length (((List.mergeSort_perm entries _).filter _).length_eq.symm)).symm

theorem sortEntries_lookup (entries : List (String × α)) (key : String) :
    (sortEntries entries).reverse.lookup key = entries.reverse.lookup key := by
  rw [← lookup_filter, List.filter_reverse, sortEntries_filter, ← List.filter_reverse, lookup_filter]

end SortEntries

/-- What `==` compares. -/
def orderly : Reading where
  value := norm
  members := sortEntries
  null := by simp [norm]
  bool := by simp [norm]
  string := by simp [norm]
  array items := by rw [norm, normItems_map]
  object entries := by
    rw [norm, normEntries_map, ← sortEntries_map]
    rfl
  number json number := by
    cases json with
    | float value =>
      rw [norm]
      split <;> rfl
    | _ => simp_all [norm, isNumber]
  natural := sortEntries_map
  within _ _ := List.mem_mergeSort.mp
  found := sortEntries_lookup

/-! ## Values that repeat no key -/

theorem distinctItems_iff {items : List Json} : distinctItems items = true ↔ ∀ item ∈ items, item.distinct := by
  induction items with
  | nil => simp [distinctItems]
  | cons item rest ih => simp [distinctItems, ih]

theorem distinctEntries_iff {entries : List (String × Json)} : distinctEntries entries = true ↔
    (entries.map Prod.fst).Nodup ∧ ∀ entry ∈ entries, entry.2.distinct := by
  induction entries with
  | nil => simp [distinctEntries]
  | cons entry rest ih =>
    obtain ⟨key, value⟩ := entry
    have fresh : (rest.all fun entry => entry.1 ≠ key) = true ↔ key ∉ rest.map Prod.fst := by
      simp only [List.all_eq_true, decide_eq_true_eq, List.mem_map, not_exists, not_and]
    rw [distinctEntries, Bool.and_eq_true, Bool.and_eq_true, ih, fresh, List.map_cons, List.nodup_cons,
      List.forall_mem_cons]
    tauto

theorem distinct_array {items : List Json} : (Json.array items).distinct = true ↔ ∀ item ∈ items, item.distinct := by
  rw [distinct, distinctItems_iff]

theorem distinct_object {entries : List (String × Json)} : (Json.object entries).distinct = true ↔
    (entries.map Prod.fst).Nodup ∧ ∀ entry ∈ entries, entry.2.distinct := by
  rw [distinct, distinctEntries_iff]

theorem distinct_record {members : List (String × Option Json)} (keys : (members.map Prod.fst).Nodup)
    (values : ∀ member ∈ members, ∀ value ∈ member.2, value.distinct) : (record members).distinct := by
  rw [record, distinct_object]
  refine ⟨record_keys.nodup keys, fun entry given => ?_⟩
  obtain ⟨member, among, present⟩ := List.mem_filterMap.mp given
  obtain ⟨value, found, rfl⟩ := Option.map_eq_some_iff.mp present
  exact values member among value found

mutual

theorem lastWins_of_distinct : ∀ {json : Json}, json.distinct → json.lastWins = json
  | .null, _ | .bool _, _ | .int _, _ | .float _, _ | .string _, _ => by simp [lastWins]
  | .array items, given => by
    rw [lastWins, lastWinsItems_map, lastWinsItems_of_distinct items (distinct_array.mp given)]
  | .object entries, given => by
    obtain ⟨keys, values⟩ := distinct_object.mp given
    rw [lastWins, lastWinsEntries_map, lastEntries_of_nodup keys, lastWinsEntries_of_distinct entries values]

theorem lastWinsItems_of_distinct : ∀ items : List Json, (∀ item ∈ items, item.distinct) → items.map lastWins = items
  | [], _ => rfl
  | item :: items, given => by
    obtain ⟨first, others⟩ := List.forall_mem_cons.mp given
    rw [List.map_cons, lastWins_of_distinct first, lastWinsItems_of_distinct items others]

theorem lastWinsEntries_of_distinct : ∀ entries : List (String × Json), (∀ entry ∈ entries, entry.2.distinct) →
    entries.map (Prod.map id lastWins) = entries
  | [], _ => rfl
  | (key, value) :: entries, given => by
    obtain ⟨first, others⟩ := List.forall_mem_cons.mp given
    rw [List.map_cons, Prod.map_apply, lastWins_of_distinct first, lastWinsEntries_of_distinct entries others]
    rfl

end

mutual

theorem distinct_lastWins : ∀ json : Json, json.lastWins.distinct
  | .null | .bool _ | .int _ | .float _ | .string _ => by simp [lastWins, distinct]
  | .array items => by
    rw [lastWins, lastWinsItems_map, distinct_array]
    exact List.forall_mem_map.mpr (distinct_lastWinsItems items)
  | .object entries => by
    rw [lastWins, lastWinsEntries_map, distinct_object, List.map_map]
    refine ⟨lastEntries_nodup entries, fun entry member => ?_⟩
    obtain ⟨entry, given, rfl⟩ := List.mem_map.mp member
    exact distinct_lastWinsEntries entries entry ((lastEntries_sublist entries).mem given)

theorem distinct_lastWinsItems : ∀ items : List Json, ∀ item ∈ items, item.lastWins.distinct
  | [] => nofun
  | item :: items => List.forall_mem_cons.mpr ⟨distinct_lastWins item, distinct_lastWinsItems items⟩

theorem distinct_lastWinsEntries : ∀ entries : List (String × Json), ∀ entry ∈ entries, entry.2.lastWins.distinct
  | [] => nofun
  | (_, value) :: entries => List.forall_mem_cons.mpr ⟨distinct_lastWins value, distinct_lastWinsEntries entries⟩

end

/-- The library writes every value that repeats no key, and reads what it wrote. -/
def Library.Faithful (library : Library) : Prop :=
  ∀ json : Json, json.distinct → ∃ bytes, library.encode json = some bytes ∧ library.decode bytes = some json

theorem Library.Faithful.plain {library : Library} (faithful : library.Faithful) {json : Json} (given : json.distinct) :
    ∃ bytes, library.encode json = some bytes ∧ library.plain bytes = some json := by
  obtain ⟨bytes, written, read⟩ := faithful json given
  exact ⟨bytes, written, by rw [Library.plain, read, Option.map_some, lastWins_of_distinct given]⟩

end AshA2A.Json
