import AshA2A.Json.Reading
import Mathlib.Logic.Equiv.Nat
import Mathlib.Logic.Function.Basic
import Mathlib.Data.Rat.Lemmas

/-! A self-delimiting spelling of JSON values: no two values share their bytes. -/

namespace AshA2A.Json

namespace Spelling

/-- In unary. -/
def nat (number : Nat) : Bytes := List.replicate number 1 ++ [0]

def int (number : Int) : Bytes := nat (Equiv.intEquivNat number)

def chars : List Char → Bytes
  | [] => [0]
  | char :: rest => 1 :: (nat char.toNat ++ chars rest)

mutual

/-- The first byte names the kind of the value. -/
def json : Json → Bytes
  | .null => [0]
  | .bool value => [1, if value then 1 else 0]
  | .int value => 2 :: int value
  | .float value => 3 :: (int value.num ++ nat value.den)
  | .string text => 4 :: chars text.toList
  | .array items => 5 :: jsonItems items
  | .object entries => 6 :: jsonEntries entries

def jsonItems : List Json → Bytes
  | [] => [0]
  | item :: items => 1 :: (json item ++ jsonItems items)

def jsonEntries : List (String × Json) → Bytes
  | [] => [0]
  | (key, value) :: entries => 1 :: (chars key.toList ++ (json value ++ jsonEntries entries))

end

theorem nat_append {number other : Nat} {rest tail : Bytes} (same : nat number ++ rest = nat other ++ tail) :
    number = other ∧ rest = tail := by
  induction number generalizing other with
  | zero =>
    cases other with
    | zero => exact ⟨rfl, by simpa [nat] using same⟩
    | succ other => simp [nat, List.replicate_succ] at same
  | succ number ih =>
    cases other with
    | zero => simp [nat, List.replicate_succ] at same
    | succ other =>
      simp only [nat, List.replicate_succ, List.cons_append, List.cons.injEq, true_and] at same
      obtain ⟨rfl, tail⟩ := ih same
      exact ⟨rfl, tail⟩

theorem int_append {number other : Int} {rest tail : Bytes} (same : int number ++ rest = int other ++ tail) :
    number = other ∧ rest = tail :=
  let ⟨code, tail⟩ := nat_append same
  ⟨Equiv.intEquivNat.injective code, tail⟩

theorem chars_append {text other : List Char} {rest tail : Bytes} (same : chars text ++ rest = chars other ++ tail) :
    text = other ∧ rest = tail := by
  induction text generalizing other with
  | nil =>
    cases other with
    | nil => exact ⟨rfl, by simpa [chars] using same⟩
    | cons _ _ => simp [chars] at same
  | cons char text ih =>
    cases other with
    | nil => simp [chars] at same
    | cons first other =>
      simp only [chars, List.cons_append, List.append_assoc, List.cons.injEq, true_and] at same
      obtain ⟨code, same⟩ := nat_append same
      obtain ⟨rfl, tail⟩ := ih same
      exact ⟨congrArg (· :: text) (Char.toNat_inj.mp code), tail⟩

theorem float_append {number other : Rat} {rest tail : Bytes}
    (same : int number.num ++ (nat number.den ++ rest) = int other.num ++ (nat other.den ++ tail)) :
    number = other ∧ rest = tail :=
  let ⟨num, same⟩ := int_append same
  let ⟨den, tail⟩ := nat_append same
  ⟨Rat.ext num den, tail⟩

mutual

theorem json_append : ∀ (value other : Json) {rest tail : Bytes}, json value ++ rest = json other ++ tail →
    value = other ∧ rest = tail
  | .null, other, _, _, same => by cases other <;> simp_all [json]
  | .bool value, other, _, _, same => by
    cases other <;> simp_all [json]
    grind
  | .int value, other, _, _, same => by
    cases other <;> simp only [json, List.cons_append, List.cons.injEq, Json.int.injEq, reduceCtorEq] at same ⊢
    case int => exact int_append same.2
    all_goals simp at same
  | .float value, other, _, _, same => by
    cases other <;> simp only [json, List.cons_append, List.append_assoc, List.cons.injEq, Json.float.injEq,
      reduceCtorEq] at same ⊢
    case float => exact float_append same.2
    all_goals simp at same
  | .string text, other, _, _, same => by
    cases other <;> simp only [json, List.cons_append, List.cons.injEq, Json.string.injEq, reduceCtorEq] at same ⊢
    case string =>
      obtain ⟨text, tail⟩ := chars_append same.2
      exact ⟨String.toList_inj.mp text, tail⟩
    all_goals simp at same
  | .array items, other, _, _, same => by
    cases other <;> simp only [json, List.cons_append, List.cons.injEq, Json.array.injEq, reduceCtorEq] at same ⊢
    case array others => exact jsonItems_append items others same.2
    all_goals simp at same
  | .object entries, other, _, _, same => by
    cases other <;> simp only [json, List.cons_append, List.cons.injEq, Json.object.injEq, reduceCtorEq] at same ⊢
    case object others => exact jsonEntries_append entries others same.2
    all_goals simp at same

theorem jsonItems_append : ∀ (items others : List Json) {rest tail : Bytes},
    jsonItems items ++ rest = jsonItems others ++ tail → items = others ∧ rest = tail
  | [], [], _, _, same => ⟨rfl, by simpa [jsonItems] using same⟩
  | [], _ :: _, _, _, same => by simp [jsonItems] at same
  | _ :: _, [], _, _, same => by simp [jsonItems] at same
  | item :: items, other :: others, _, _, same => by
    simp only [jsonItems, List.cons_append, List.append_assoc, List.cons.injEq, true_and] at same
    obtain ⟨rfl, left⟩ := json_append item other same
    obtain ⟨rfl, tail⟩ := jsonItems_append items others left
    exact ⟨rfl, tail⟩

theorem jsonEntries_append : ∀ (entries others : List (String × Json)) {rest tail : Bytes},
    jsonEntries entries ++ rest = jsonEntries others ++ tail → entries = others ∧ rest = tail
  | [], [], _, _, same => ⟨rfl, by simpa [jsonEntries] using same⟩
  | [], _ :: _, _, _, same => by simp [jsonEntries] at same
  | _ :: _, [], _, _, same => by simp [jsonEntries] at same
  | (key, value) :: entries, (name, other) :: others, _, _, same => by
    simp only [jsonEntries, List.cons_append, List.append_assoc, List.cons.injEq, true_and] at same
    obtain ⟨named, same⟩ := chars_append same
    obtain ⟨rfl, left⟩ := json_append value other same
    obtain ⟨rfl, tail⟩ := jsonEntries_append entries others left
    exact ⟨by rw [String.toList_inj.mp named], tail⟩

end

theorem json_injective : Function.Injective json := fun value other same =>
  (json_append value other (congrArg (· ++ []) same)).1

/-- The value that is spelled so, where there is one. -/
noncomputable def read (bytes : Bytes) : Option Json := Function.partialInv json bytes

theorem read_json (value : Json) : read (json value) = some value := Function.partialInv_left json_injective value

noncomputable def library : Library := ⟨read, fun value => some (json value)⟩

theorem library_faithful : library.Faithful := fun value _ => ⟨_, rfl, read_json value⟩

end Spelling

end AshA2A.Json
