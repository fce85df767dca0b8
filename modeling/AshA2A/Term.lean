import AshA2A.Outcome
import Mathlib.Data.List.Basic

/-! Values the program carries without looking inside: inputs, replies, evidence. -/

namespace AshA2A

/-- An Erlang term, as far as the code builds or matches one. The elements of a tuple and
the entries of a map are terms built with `cons`. -/
inductive Term where
  | atom (name : String)
  | integer (value : Int)
  | binary (text : String)
  | empty
  | cons (head tail : Term)
  | tuple (elements : Term)
  | map (entries : Term)
  deriving Repr, DecidableEq

/-- The atom `nil`, which the language also uses for an absent value. -/
abbrev Term.nil : Term := .atom "nil"

/-- A map the code itself reads or merges: keys are looked up from the front. -/
abbrev TermMap := List (Term × Term)

namespace TermMap

def get? (key : Term) (map : TermMap) : Option Term := map.lookup key

def put (key value : Term) (map : TermMap) : TermMap :=
  (key, value) :: map.filter fun entry => entry.1 ≠ key

/-- `Map.merge/2`: entries of the second map win. -/
def merge (first second : TermMap) : TermMap :=
  second.foldl (fun merged entry => merged.put entry.1 entry.2) first

end TermMap

section Lookup
variable {α β : Type} [BEq α] [LawfulBEq α] {entries : List (α × β)} {key : α} {value : β}

theorem mem_of_lookup (found : entries.lookup key = some value) : (key, value) ∈ entries := by
  obtain ⟨before, after, split, -⟩ := List.lookup_eq_some_iff.mp found
  rw [split]
  exact List.mem_append_right _ List.mem_cons_self

theorem lookup_of_mem (keys : (entries.map Prod.fst).Nodup) (member : (key, value) ∈ entries) :
    entries.lookup key = some value := by
  induction entries with
  | nil => cases member
  | cons entry rest ih =>
    rw [List.map_cons, List.nodup_cons] at keys
    rw [List.lookup_cons]
    rcases List.mem_cons.mp member with rfl | member
    · simp
    · have different : key ≠ entry.1 := by
        rintro rfl
        exact keys.1 (List.mem_map.mpr ⟨_, member, rfl⟩)
      rw [beq_false_of_ne different]
      exact ih keys.2 member

end Lookup

theorem lookup_others {α β : Type} [BEq α] [LawfulBEq α] [DecidableEq α] (entries : List (α × β)) {key other : α}
    (different : other ≠ key) :
    (entries.filter fun entry => entry.1 ≠ key).lookup other = entries.lookup other := by
  induction entries with
  | nil => rfl
  | cons entry entries ih =>
    obtain ⟨name, stored⟩ := entry
    by_cases named : name = key
    · subst named
      rw [List.filter_cons_of_neg (by simp), List.lookup_cons, beq_eq_false_iff_ne.mpr different]
      exact ih
    · rw [List.filter_cons_of_pos (by simpa using named), List.lookup_cons, List.lookup_cons, ih]

theorem TermMap.get?_put (map : TermMap) (key value other : Term) :
    (map.put key value).get? other = if other = key then some value else map.get? other := by
  unfold put get?
  by_cases same : other = key
  · simp [same]
  · rw [if_neg same, List.lookup_cons, beq_eq_false_iff_ne.mpr same]
    exact lookup_others map same

end AshA2A
