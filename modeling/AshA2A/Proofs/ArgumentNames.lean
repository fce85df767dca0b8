import AshA2A.Executor
import AshA2A.Term

/-! When both ways to an action and its advertised schema agree on the names of its arguments. -/

namespace AshA2A

section Arguments
variable {mapping : ArgumentMapping} {data args : Arguments} {parts : List MessagePart}

namespace ArgumentMapping

def wires (mapping : ArgumentMapping) : List String := mapping.entries.map Prod.fst

/-- The argument that a wire name stands for. -/
def argumentOf (mapping : ArgumentMapping) (wire : String) : String := (mapping.entries.lookup wire).getD wire

end ArgumentMapping

/-- Each mapped wire name that is there is replaced by its argument, and all else is kept. -/
structure Renamed (mapping : ArgumentMapping) (data args : Arguments) : Prop where
  wires : ∀ wire, args (.wire wire) = if wire ∈ mapping.wires then none else data (.wire wire)
  arguments : ∀ argument,
    (∃ wire value, (wire, argument) ∈ mapping.entries ∧ data (.wire wire) = some value ∧
      args (.argument argument) = some value) ∨
    ((∀ wire, (wire, argument) ∈ mapping.entries → data (.wire wire) = none) ∧
      args (.argument argument) = data (.argument argument))

theorem applyArgumentMapping_absent (absent : ∀ wire ∈ mapping.wires, data (.wire wire) = none) :
    Executor.applyArgumentMapping data mapping = data := by
  unfold Executor.applyArgumentMapping
  unfold ArgumentMapping.wires at absent
  generalize mapping.entries = entries at absent
  induction entries with
  | nil => rfl
  | cons entry entries ih =>
    obtain ⟨wire, argument⟩ := entry
    have first : Executor.rename data wire argument = data := by
      rw [Executor.rename, absent wire List.mem_cons_self]
    show entries.foldl _ (Executor.rename data wire argument) = data
    rw [first]
    exact ih fun other member => absent other (List.mem_cons_of_mem _ member)

theorem renamed_absent (absent : ∀ wire ∈ mapping.wires, data (.wire wire) = none) : Renamed mapping data data where
  wires wire := by
    split
    next mapped => exact absent wire mapped
    next => rfl
  arguments argument := .inr ⟨fun wire member => absent wire (List.mem_map_of_mem member), rfl⟩

end Arguments

/-! ## Names of properties -/

section Properties
variable {mapping : ArgumentMapping} {schema : Schema.ObjectSchema} {name wire : String} {sub : Json}

theorem argumentOf_mapped (member : (wire, name) ∈ mapping.entries) : mapping.argumentOf wire = name := by
  rw [ArgumentMapping.argumentOf, lookup_of_mem mapping.distinct member]
  rfl

theorem argumentOf_cases (mapping : ArgumentMapping) (wire : String) :
    (wire, mapping.argumentOf wire) ∈ mapping.entries ∨ (wire ∉ mapping.wires ∧ mapping.argumentOf wire = wire) := by
  cases found : mapping.entries.lookup wire with
  | some argument =>
    refine .inl ?_
    rw [ArgumentMapping.argumentOf, found]
    exact mem_of_lookup found
  | none =>
    refine .inr ⟨fun mapped => ?_, by rw [ArgumentMapping.argumentOf, found]; rfl⟩
    obtain ⟨⟨_, argument⟩, member, rfl⟩ := List.mem_map.mp mapped
    rw [lookup_of_mem mapping.distinct member] at found
    cases found

theorem wireName_cases (mapping : ArgumentMapping) (name : String) :
    (Schema.wireName mapping name, name) ∈ mapping.entries ∨
      ((∀ wire, (wire, name) ∉ mapping.entries) ∧ Schema.wireName mapping name = name) := by
  unfold Schema.wireName
  cases found : mapping.entries.find? fun entry => entry.2 = name with
  | some entry =>
    obtain ⟨wire, argument⟩ := entry
    obtain rfl : argument = name := by simpa using List.find?_some found
    exact .inl (List.mem_of_find?_eq_some found)
  | none =>
    refine .inr ⟨fun wire member => ?_, rfl⟩
    exact absurd rfl (of_decide_eq_false (Bool.eq_false_of_not_eq_true (List.find?_eq_none.mp found _ member)))

/-- No property passes through under a name that the mapping takes for another. -/
def Unshadowed (mapping : ArgumentMapping) (schema : Schema.ObjectSchema) : Prop :=
  ∀ name ∈ schema.properties.map Prod.fst, name ∈ mapping.wires → ∃ wire, (wire, name) ∈ mapping.entries

theorem argumentOf_wireName (unshadowed : Unshadowed mapping schema) (property : name ∈ schema.properties.map Prod.fst) :
    mapping.argumentOf (Schema.wireName mapping name) = name := by
  rcases wireName_cases mapping name with mapped | ⟨unmapped, same⟩
  · exact argumentOf_mapped mapped
  · rw [same]
    rcases argumentOf_cases mapping name with taken | ⟨_, kept⟩
    · obtain ⟨wire, member⟩ := unshadowed name property (List.mem_map_of_mem taken)
      exact absurd member (unmapped wire)
    · exact kept

/-- Under the renaming, the properties are those of the action. -/
def SameProperties (mapping : ArgumentMapping) (schema : Schema.ObjectSchema) : Prop :=
  ∀ name sub, (name, sub) ∈ schema.properties ↔
    ∃ wire, (wire, sub) ∈ (Schema.forSkill mapping schema).properties ∧ mapping.argumentOf wire = name

theorem mem_forSkill (member : (wire, sub) ∈ (Schema.forSkill mapping schema).properties) :
    ∃ name, (name, sub) ∈ schema.properties ∧ Schema.wireName mapping name = wire := by
  obtain ⟨⟨name, other⟩, among, same⟩ := List.mem_map.mp (List.mem_reverse.mp (UniqueBy.mem_of_uniqBy member))
  obtain ⟨rfl, rfl⟩ := Prod.mk.inj same
  exact ⟨name, among, rfl⟩

theorem sameProperties_iff : SameProperties mapping schema ↔ Unshadowed mapping schema := by
  constructor
  · intro same name property taken
    obtain ⟨⟨_, sub⟩, member, rfl⟩ := List.mem_map.mp property
    obtain ⟨wire, _, renamed⟩ := (same _ sub).mp member
    rcases argumentOf_cases mapping wire with mapped | ⟨unmapped, kept⟩
    · exact ⟨wire, renamed ▸ mapped⟩
    · exact absurd taken (renamed ▸ kept.symm ▸ unmapped)
  · intro unshadowed name sub
    constructor
    · intro member
      refine ⟨Schema.wireName mapping name, (UniqueBy.mem_uniqBy_iff ?_).mpr ?_,
        argumentOf_wireName unshadowed (List.mem_map_of_mem member)⟩
      · intro first among second also wires
        obtain ⟨⟨one, left⟩, leftMember, rfl⟩ := List.mem_map.mp (List.mem_reverse.mp among)
        obtain ⟨⟨two, right⟩, rightMember, rfl⟩ := List.mem_map.mp (List.mem_reverse.mp also)
        have names := congrArg mapping.argumentOf wires
        rw [argumentOf_wireName unshadowed (List.mem_map_of_mem leftMember),
          argumentOf_wireName unshadowed (List.mem_map_of_mem rightMember)] at names
        subst names
        have subs := lookup_of_mem schema.distinct leftMember
        rw [lookup_of_mem schema.distinct rightMember] at subs
        rw [Option.some.inj subs]
      · exact List.mem_reverse.mpr (List.mem_map.mpr ⟨(name, sub), member, rfl⟩)
    · rintro ⟨wire, member, rfl⟩
      obtain ⟨name, among, rfl⟩ := mem_forSkill member
      rwa [argumentOf_wireName unshadowed (List.mem_map_of_mem among)]

end Properties

/-! ## Agreement -/

/-- The action is handed the same renamed arguments on both ways, and the advertised properties are its own under that renaming. -/
structure Agrees (mapping : ArgumentMapping) (parts : List MessagePart) (schema : Schema.ObjectSchema) : Prop where
  same : Dispatcher.input parts = Executor.coerceArguments parts mapping none
  renamed : Renamed mapping (Dispatcher.fetchInput parts) (Executor.coerceArguments parts mapping none)
  properties : SameProperties mapping schema

/-- They agree just where the message has no mapped wire name, so that there is nothing to rename, and no property of the action
is shadowed by a wire name. -/
theorem agrees_iff (mapping : ArgumentMapping) (parts : List MessagePart) (schema : Schema.ObjectSchema) :
    Agrees mapping parts schema ↔
      (∀ wire ∈ mapping.wires, Dispatcher.fetchInput parts (.wire wire) = none) ∧ Unshadowed mapping schema := by
  constructor
  · rintro ⟨same, renamed, properties⟩
    refine ⟨fun wire mapped => ?_, sameProperties_iff.mp properties⟩
    have kept := renamed.wires wire
    rwa [← same, if_pos mapped] at kept
  · rintro ⟨absent, unshadowed⟩
    have kept : Executor.coerceArguments parts mapping none = Dispatcher.fetchInput parts :=
      applyArgumentMapping_absent absent
    exact ⟨kept.symm, kept.symm ▸ renamed_absent absent, sameProperties_iff.mpr unshadowed⟩

def shortened : ArgumentMapping := ⟨[("q", "query")], by decide⟩

/-- A data part with one wire name. -/
def asked : List MessagePart :=
  [.data fun key => if key = .wire "q" then some (.text "weather") else none]

def searchSchema : Schema.ObjectSchema :=
  ⟨[("query", .object [("type", .string "string")])], by decide, ["query"]⟩

theorem shortened_differs : ¬Agrees shortened asked searchSchema := by
  intro agrees
  have kept := agrees.renamed.wires "q"
  rw [← agrees.same] at kept
  cases kept

end AshA2A
