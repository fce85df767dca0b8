import AshA2A.Json.Reading

/-! Canonical text, and maps of which single members are replaced. -/

namespace AshA2A.Json

/-- `%{map | field => value}` where the field is there. -/
def put (json : Json) (field : String) (value : Json) : Json :=
  .object (json.entries.map fun entry => if entry.1 = field then (field, value) else entry)

variable {json value : Json} {field key : String} {keys : List String}

theorem get?_put : (json.put field value).get? key =
    if key = field then (json.get? key).map fun _ => value else json.get? key := by
  rw [put, get?_object, ← List.map_reverse, get?]
  induction json.entries.reverse with
  | nil => simp
  | cons entry rest ih =>
    obtain ⟨name, stored⟩ := entry
    by_cases same : key = field
    · subst same
      rw [if_pos rfl] at ih ⊢
      by_cases named : name = key
      · simp [named]
      · simp only [List.map_cons, if_neg named, List.lookup_cons, beq_eq_false_iff_ne.mpr (Ne.symm named), ih]
    · rw [if_neg same] at ih ⊢
      by_cases named : name = field
      · subst named
        simp only [List.map_cons, if_pos, List.lookup_cons, beq_eq_false_iff_ne.mpr same, ih]
      · simp only [List.map_cons, if_neg named, List.lookup_cons, ih]

theorem put_keys : (json.put field value).entries.map Prod.fst = json.entries.map Prod.fst := by
  simp only [put, entries, List.map_map]
  refine List.map_congr_left fun entry _ => ?_
  by_cases named : entry.1 = field <;> simp [named]

theorem hasKeys_iff : json.hasKeys keys = true ↔
    (∀ key ∈ keys, (json.get? key).isSome) ∧ ∀ key ∈ json.entries.map Prod.fst, key ∈ keys := by
  simp [hasKeys]

theorem hasKeys_put (given : json.hasKeys keys) : (json.put field value).hasKeys keys := by
  obtain ⟨present, only⟩ := hasKeys_iff.mp given
  refine hasKeys_iff.mpr ⟨fun key member => ?_, by rwa [put_keys]⟩
  rw [get?_put]
  split
  · simpa using present key member
  · exact present key member

theorem distinct_put (whole : json.distinct) (sound : value.distinct) : (json.put field value).distinct := by
  cases json with
  | object entries =>
    obtain ⟨keys, items⟩ := distinct_object.mp whole
    refine distinct_object.mpr ⟨@put_keys (.object entries) .. ▸ keys, fun entry member => ?_⟩
    obtain ⟨stored, within, rfl⟩ := List.mem_map.mp member
    split
    · exact sound
    · exact items stored within
  | _ => simp [put, entries, distinct_object]

namespace Reading

variable (reading : Reading)

theorem value_keys : ∀ key ∈ (reading.value json).entries.map Prod.fst, key ∈ json.entries.map Prod.fst := by
  intro key member
  cases json with
  | object entries =>
    rw [reading.object] at member
    obtain ⟨entry, within, rfl⟩ := List.mem_map.mp member
    obtain ⟨stored, kept, rfl⟩ := List.mem_map.mp within
    exact List.mem_map.mpr ⟨stored, reading.within entries stored kept, rfl⟩
  | null => rwa [reading.null] at member
  | bool flag => rwa [reading.bool] at member
  | string text => rwa [reading.string] at member
  | array items => rwa [reading.array] at member
  | int number =>
    obtain ⟨_, given⟩ | ⟨_, given⟩ := reading.number_cases (rfl : (Json.int number).isNumber) <;> rwa [given] at member
  | float number =>
    obtain ⟨_, given⟩ | ⟨_, given⟩ := reading.number_cases (rfl : (Json.float number).isNumber) <;> rwa [given] at member

theorem hasKeys_value (given : json.hasKeys keys) : (reading.value json).hasKeys keys := by
  obtain ⟨present, only⟩ := hasKeys_iff.mp given
  refine hasKeys_iff.mpr ⟨fun key member => ?_, fun key member => only key (reading.value_keys key member)⟩
  rw [get?_value, Option.isSome_map]
  exact present key member

theorem string?_value (json : Json) : (reading.value json).string? key = json.string? key := by
  simp only [string?, get?_value]
  cases json.get? key with
  | none => rfl
  | some value =>
    cases value with
    | int number => obtain ⟨_, given⟩ | ⟨_, given⟩ := reading.number_cases (rfl : (Json.int number).isNumber) <;> simp [given]
    | float number =>
      obtain ⟨_, given⟩ | ⟨_, given⟩ := reading.number_cases (rfl : (Json.float number).isNumber) <;> simp [given]
    | _ => simp [reading.null, reading.bool, reading.string, reading.array, reading.object]

/-- As it is written. -/
def literal : Reading where
  value := id
  members := id
  null := rfl
  bool _ := rfl
  string _ := rfl
  array _ := by simp
  object _ := by simp
  number _ given := given
  natural _ _ := rfl
  within _ _ member := member
  found _ _ := rfl

end Reading

/-- The canonical text of a value is read back as that value, up to the order of its keys and
the spelling of its numbers, and that reading has the same text. -/
structure Library.Canonical (library : Library) (reading : Reading) : Prop where
  integer : ∀ number, reading.value (.int number) = .int number
  same : ∀ json, (reading.value json).Same json
  distinct : ∀ {json : Json}, json.distinct → (reading.value json).distinct
  settled : ∀ json, reading.value (reading.value json) = reading.value json
  again : ∀ json, library.encode (reading.value json) = library.encode json
  read : ∀ {json : Json} {bytes : Bytes}, json.distinct → library.encode json = some bytes →
    library.decode bytes = some (reading.value json)

end AshA2A.Json
