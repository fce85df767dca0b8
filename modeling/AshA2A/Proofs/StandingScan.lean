import AshA2A.Semantic.Evidence
import AshA2A.Term
import Mathlib.Data.List.Basic

/-! What the scan of evidence finds, and what stops it. -/

namespace AshA2A.Semantic

variable (printing : Printing)

/-- A forbidden name stands for a key somewhere in the term. `deep` also looks into keys that are no names. -/
inductive Evidence.Contains (deep : Bool) : Evidence → Prop where
  | key {entries : List (Evidence × Evidence)} {key value : Evidence} {name : String} (member : (key, value) ∈ entries)
      (named : Standing.keyName printing key = .ok name) (banned : Standing.forbidden name) :
      Contains deep (.map entries)
  | value {entries : List (Evidence × Evidence)} {key value : Evidence} (member : (key, value) ∈ entries)
      (inside : Contains deep value) : Contains deep (.map entries)
  | hidden {entries : List (Evidence × Evidence)} {key value : Evidence} (looks : deep = true)
      (member : (key, value) ∈ entries) (inside : Contains deep key) : Contains deep (.map entries)
  | field {module : String} {fields : List (String × Evidence)} {name : String} {value : Evidence}
      (member : (name, value) ∈ fields) (banned : Standing.forbidden name) : Contains deep (.struct module fields)
  | fieldValue {module : String} {fields : List (String × Evidence)} {name : String} {value : Evidence}
      (member : (name, value) ∈ fields) (inside : Contains deep value) : Contains deep (.struct module fields)
  | item {items : List Evidence} {item : Evidence} (member : item ∈ items) (inside : Contains deep item) :
      Contains deep (.list items)
  | improperItem {items : List Evidence} {tail item : Evidence} (member : item ∈ tail :: items)
      (inside : Contains deep item) : Contains deep (.improper items tail)
  | pair {key value : Evidence} {name : String} (front : Standing.isName key)
      (named : Standing.keyName printing key = .ok name) (banned : Standing.forbidden name) :
      Contains deep (.tuple [key, value])
  | element {elements : List Evidence} {element : Evidence} (member : element ∈ elements)
      (inside : Contains deep element) : Contains deep (.tuple elements)

namespace Standing

/-- A key that is a binary and no text. -/
def unreadable : Evidence → Bool
  | .bytes _ => true
  | _ => false

def nameObstacle (key : Evidence) : List ScanFault := if unreadable key then [.raised] else []

mutual

/-- All that stops the scan, in the order in which it would come upon it. -/
def obstacles (depth : Nat) (evidence : Evidence) : List ScanFault :=
  if maxEvidenceDepth < depth then [.tooDeep]
  else
    match evidence with
    | .struct _ fields => fieldObstacles depth fields
    | .map entries => entryObstacles depth entries
    | .list items => itemObstacles depth items
    | .improper _ _ => [.raised]
    | .tuple [key, value] =>
      if isName key then nameObstacle key ++ obstacles (depth + 1) value else itemObstacles depth [key, value]
    | .tuple elements => itemObstacles depth elements
    | _ => []

def itemObstacles (depth : Nat) : List Evidence → List ScanFault
  | [] => []
  | item :: items => obstacles (depth + 1) item ++ itemObstacles depth items

def entryObstacles (depth : Nat) : List (Evidence × Evidence) → List ScanFault
  | [] => []
  | (key, value) :: entries => nameObstacle key ++ obstacles (depth + 1) value ++ entryObstacles depth entries

def fieldObstacles (depth : Nat) : List (String × Evidence) → List ScanFault
  | [] => []
  | (_, value) :: fields => obstacles (depth + 1) value ++ fieldObstacles depth fields

end

/-- The result is the first of the obstacles, or else some paths. -/
def Stops {α : Type} (result : Except ScanFault α) (faults : List ScanFault) : Prop :=
  match faults.head? with
  | none => ∃ value, result = .ok value
  | some fault => result = .error fault

theorem Stops.bind {α β : Type} {first : Except ScanFault α} {next : α → Except ScanFault β}
    {faults others : List ScanFault} (stops : Stops first faults) (rest : ∀ value, Stops (next value) others) :
    Stops (first >>= next) (faults ++ others) := by
  cases faults with
  | nil =>
    obtain ⟨value, rfl⟩ := stops
    exact rest value
  | cons fault faults =>
    cases (show first = .error fault from stops)
    rfl

theorem Stops.pure {α : Type} {value : α} : Stops (.ok value) [] := ⟨value, rfl⟩

theorem Stops.map {α β : Type} {first : Except ScanFault α} {build : α → β} {faults : List ScanFault}
    (stops : Stops first faults) : Stops (first >>= fun value => .ok (build value)) faults := by
  rw [← List.append_nil faults]
  exact stops.bind fun _ => .pure

theorem keyName_stops (key : Evidence) : Stops (keyName printing key) (nameObstacle key) := by
  cases key <;> first | exact rfl | exact ⟨_, rfl⟩

mutual

theorem scan_stops (path : List Mark) (depth : Nat) (evidence : Evidence) :
    Stops (scan printing path depth evidence) (obstacles depth evidence) := by
  by_cases deep : maxEvidenceDepth < depth
  · rw [scan.eq_def, obstacles.eq_def, if_pos deep, if_pos deep]
    rfl
  rw [scan.eq_def, obstacles.eq_def, if_neg deep, if_neg deep]
  match evidence with
  | .struct _ fields => exact scanFields_stops path depth fields
  | .map entries => exact scanEntries_stops path depth entries
  | .list items => exact scanItems_stops path depth 0 items
  | .improper _ _ => rfl
  | .tuple [key, value] =>
    by_cases named : isName key
    · simp only [named, if_true]
      exact (keyName_stops printing key).bind fun _ => (scan_stops _ _ value).map
    · simp only [named]
      exact scanItems_stops path depth 0 [key, value]
  | .tuple [] => exact scanItems_stops path depth 0 []
  | .tuple [only] => exact scanItems_stops path depth 0 [only]
  | .tuple (first :: second :: third :: rest) => exact scanItems_stops path depth 0 (first :: second :: third :: rest)
  | .atom _ | .integer _ | .text _ | .bytes _ | .other _ => exact .pure

theorem scanItems_stops (path : List Mark) (depth index : Nat) : (items : List Evidence) →
    Stops (scanItems printing path depth index items) (itemObstacles depth items)
  | [] => .pure
  | item :: items => by
    rw [scanItems, itemObstacles]
    exact (scan_stops _ _ item).bind fun _ => (scanItems_stops path depth (index + 1) items).map

theorem scanEntries_stops (path : List Mark) (depth : Nat) : (entries : List (Evidence × Evidence)) →
    Stops (scanEntries printing path depth entries) (entryObstacles depth entries)
  | [] => .pure
  | (key, value) :: entries => by
    rw [scanEntries, entryObstacles, List.append_assoc]
    exact (keyName_stops printing key).bind fun _ => (scan_stops _ _ value).bind fun _ =>
      (scanEntries_stops path depth entries).map

theorem scanFields_stops (path : List Mark) (depth : Nat) : (fields : List (String × Evidence)) →
    Stops (scanFields printing path depth fields) (fieldObstacles depth fields)
  | [] => .pure
  | (name, value) :: fields => by
    rw [scanFields, fieldObstacles]
    exact (scan_stops _ _ value).bind fun _ => (scanFields_stops path depth fields).map

end

/-! ## What a scan without a finding has seen -/

variable {printing}

theorem scanItems_clear {path : List Mark} {depth index : Nat} {items : List Evidence}
    (clear : scanItems printing path depth index items = .ok []) :
    ∀ item ∈ items, ∃ here, scan printing here (depth + 1) item = .ok [] := by
  induction items generalizing index with
  | nil => intro item member; cases member
  | cons first rest ih =>
    rw [scanItems] at clear
    obtain ⟨found, here, clear⟩ := bind_ok_iff.mp clear
    obtain ⟨others, there, both⟩ := bind_ok_iff.mp clear
    obtain ⟨rfl, rfl⟩ := List.append_eq_nil_iff.mp (Except.ok.inj both)
    intro item member
    rcases List.mem_cons.mp member with rfl | member
    · exact ⟨_, here⟩
    · exact ih there item member

theorem scanEntries_clear {path : List Mark} {depth : Nat} {entries : List (Evidence × Evidence)}
    (clear : scanEntries printing path depth entries = .ok []) :
    ∀ entry ∈ entries, (∀ name, keyName printing entry.1 = .ok name → ¬ forbidden name) ∧
      ∃ here, scan printing here (depth + 1) entry.2 = .ok [] := by
  induction entries with
  | nil => intro entry member; cases member
  | cons first rest ih =>
    rw [scanEntries] at clear
    obtain ⟨name, named, clear⟩ := bind_ok_iff.mp clear
    obtain ⟨found, here, clear⟩ := bind_ok_iff.mp clear
    obtain ⟨others, there, all⟩ := bind_ok_iff.mp clear
    obtain ⟨front, rfl⟩ := List.append_eq_nil_iff.mp (Except.ok.inj all)
    obtain ⟨own, rfl⟩ := List.append_eq_nil_iff.mp front
    intro entry member
    rcases List.mem_cons.mp member with rfl | member
    · refine ⟨fun other same banned => ?_, _, here⟩
      rw [named] at same
      cases same
      simp [banned] at own
    · exact ih there entry member

theorem scanFields_clear {path : List Mark} {depth : Nat} {fields : List (String × Evidence)}
    (clear : scanFields printing path depth fields = .ok []) :
    ∀ field ∈ fields, ¬ forbidden field.1 ∧ ∃ here, scan printing here (depth + 1) field.2 = .ok [] := by
  induction fields with
  | nil => intro field member; cases member
  | cons first rest ih =>
    rw [scanFields] at clear
    obtain ⟨found, here, clear⟩ := bind_ok_iff.mp clear
    obtain ⟨others, there, all⟩ := bind_ok_iff.mp clear
    obtain ⟨front, rfl⟩ := List.append_eq_nil_iff.mp (Except.ok.inj all)
    obtain ⟨own, rfl⟩ := List.append_eq_nil_iff.mp front
    intro field member
    rcases List.mem_cons.mp member with rfl | member
    · refine ⟨fun banned => ?_, _, here⟩
      simp [banned] at own
    · exact ih there field member

theorem shallow_of_ok {path : List Mark} {depth : Nat} {evidence : Evidence} {found : List (List Mark)}
    (done : scan printing path depth evidence = .ok found) : ¬ maxEvidenceDepth < depth := by
  intro deep
  rw [scan.eq_def, if_pos deep] at done
  cases done

/-- A tuple that is no entry of a map is scanned as a list; of an entry only the value is. -/
theorem scan_tuple_clear {path : List Mark} {depth : Nat} {elements : List Evidence}
    (clear : scan printing path depth (.tuple elements) = .ok []) :
    (∃ key value name here, elements = [key, value] ∧ isName key ∧ keyName printing key = .ok name ∧ ¬ forbidden name ∧
      scan printing here (depth + 1) value = .ok []) ∨
    ((∀ key value, elements = [key, value] → isName key = false) ∧ scanItems printing path depth 0 elements = .ok []) := by
  have shallow := shallow_of_ok clear
  rw [scan.eq_def, if_neg shallow] at clear
  match elements with
  | [key, value] =>
    by_cases front : isName key
    · simp only [front, if_true] at clear
      obtain ⟨name, named, clear⟩ := bind_ok_iff.mp clear
      obtain ⟨found, here, both⟩ := bind_ok_iff.mp clear
      obtain ⟨own, rfl⟩ := List.append_eq_nil_iff.mp (Except.ok.inj both)
      refine .inl ⟨key, value, name, _, rfl, front, named, fun banned => ?_, here⟩
      simp [banned] at own
    · simp only [front] at clear
      refine .inr ⟨fun other value same => ?_, clear⟩
      cases same
      simpa using front
  | [] => exact .inr ⟨by simp, clear⟩
  | [only] => exact .inr ⟨by simp, clear⟩
  | first :: second :: third :: rest => exact .inr ⟨by simp, clear⟩

theorem nothing_in_name {deep : Bool} {key : Evidence} (front : isName key) : ¬ key.Contains printing deep := by
  intro inside
  cases key <;> contradiction

/-- The scan comes past every value and every name that is a key. -/
theorem scan_finds {evidence : Evidence} (contains : evidence.Contains printing false) (path : List Mark) (depth : Nat) :
    scan printing path depth evidence ≠ .ok [] := by
  intro clear
  have shallow := shallow_of_ok clear
  induction contains generalizing path depth with
  | key member named banned =>
    rw [scan.eq_def, if_neg shallow] at clear
    exact (scanEntries_clear clear _ member).1 _ named banned
  | value member inside ih =>
    rw [scan.eq_def, if_neg shallow] at clear
    obtain ⟨here, below⟩ := (scanEntries_clear clear _ member).2
    exact ih here _ below (shallow_of_ok below)
  | hidden looks => cases looks
  | field member banned =>
    rw [scan.eq_def, if_neg shallow] at clear
    exact (scanFields_clear clear _ member).1 banned
  | fieldValue member inside ih =>
    rw [scan.eq_def, if_neg shallow] at clear
    obtain ⟨here, below⟩ := (scanFields_clear clear _ member).2
    exact ih here _ below (shallow_of_ok below)
  | item member inside ih =>
    rw [scan.eq_def, if_neg shallow] at clear
    obtain ⟨here, below⟩ := scanItems_clear clear _ member
    exact ih here _ below (shallow_of_ok below)
  | improperItem member =>
    rw [scan.eq_def, if_neg shallow] at clear
    cases clear
  | pair front named banned =>
    rcases scan_tuple_clear clear with ⟨_, _, _, _, same, _, other, clean, _⟩ | ⟨unnamed, _⟩
    · cases same
      rw [named] at other
      cases other
      exact clean banned
    · rw [unnamed _ _ rfl] at front
      cases front
  | element member inside ih =>
    rcases scan_tuple_clear clear with ⟨key, value, _, here, rfl, front, _, _, below⟩ | ⟨_, items⟩
    · rcases List.mem_pair.mp member with rfl | rfl
      · exact nothing_in_name front inside
      · exact ih here _ below (shallow_of_ok below)
    · obtain ⟨here, below⟩ := scanItems_clear items _ member
      exact ih here _ below (shallow_of_ok below)

end Standing

end AshA2A.Semantic
