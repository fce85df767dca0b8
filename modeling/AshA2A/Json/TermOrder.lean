import AshA2A.Json
import AshA2A.Passport.Encoding
import Mathlib.Algebra.Order.Ring.Rat
import Mathlib.Data.List.Lex
import Mathlib.Data.Prod.Lex
import Mathlib.Order.Lattice

/-! The order of decoded values as terms: numbers come before atoms, then maps, lists and binaries. -/

namespace AshA2A.Json

/-- The kind of a term, its number or size, and its bytes. -/
abbrev Token := Nat ×ₗ Rat ×ₗ List Nat

def token (kind : Nat) (number : Rat) (codes : List Nat) : Token := toLex (kind, toLex (number, codes))

def binaryToken (text : String) : Token := token 5 0 ((utf8 text).map UInt8.toNat)

mutual

/-- What terms are compared by, one token after the other. An integer comes before the float of the same value, and a map is
compared by its size, then by its keys, then by its values. -/
def tokens : Json → List Token
  | .int value => [token 0 value [0]]
  | .float value => [token 0 value [1]]
  | .bool false => [token 1 0 []]
  | .null => [token 1 1 []]
  | .bool true => [token 1 2 []]
  | .object entries => token 2 entries.length [] :: (entries.map (fun entry => binaryToken entry.1) ++ tokensValues entries)
  | .array items => tokensItems items
  | .string text => [binaryToken text]

def tokensItems : List Json → List Token
  | [] => [token 3 0 []]
  | item :: items => token 4 0 [] :: (tokens item ++ tokensItems items)

def tokensValues : List (String × Json) → List Token
  | [] => []
  | (_, value) :: entries => tokens value ++ tokensValues entries

end

theorem token_inj {kind kind' : Nat} {number number' : Rat} {codes codes' : List Nat} :
    token kind number codes = token kind' number' codes' ↔ kind = kind' ∧ number = number' ∧ codes = codes' := by
  simp [token]

theorem binaryToken_injective : Function.Injective binaryToken := fun _ _ same =>
  utf8_injective (List.map_injective_iff.mpr (fun _ _ => UInt8.toNat_inj.mp) (token_inj.mp same).2.2)

/-! ## Reading the tokens back -/

def lead : Json → Token
  | .int value => token 0 value [0]
  | .float value => token 0 value [1]
  | .bool false => token 1 0 []
  | .null => token 1 1 []
  | .bool true => token 1 2 []
  | .object entries => token 2 entries.length []
  | .array [] => token 3 0 []
  | .array (_ :: _) => token 4 0 []
  | .string text => binaryToken text

def body : Json → List Token
  | .object entries => entries.map (fun entry => binaryToken entry.1) ++ tokensValues entries
  | .array (item :: items) => tokens item ++ tokensItems items
  | _ => []

theorem tokens_eq (json : Json) : tokens json = lead json :: body json := by
  cases json with
  | bool value => cases value <;> rfl
  | array items => cases items <;> rfl
  | _ => rfl

/-- The first token says what the value is, but for what an object or an array holds. -/
theorem lead_cases {first second : Json} (same : lead first = lead second) :
    (first = second ∧ body first = []) ∨
      (∃ entries others, first = .object entries ∧ second = .object others ∧ entries.length = others.length) ∨
      ∃ item items other others, first = .array (item :: items) ∧ second = .array (other :: others) := by
  rcases first with _ | (_ | _) | value | value | text | (_ | ⟨item, items⟩) | entries <;>
    rcases second with _ | (_ | _) | other | other | words | (_ | ⟨other, others⟩) | others <;>
    simp [lead, body, token_inj, binaryToken] at same ⊢
  case int.int => exact same
  case float.float => exact same
  case string.string => exact utf8_injective (List.map_injective_iff.mpr (fun _ _ => UInt8.toNat_inj.mp) same)
  case object.object => exact .inr same

section Cut
variable {first second : Json} {rest tail : List Token}

theorem cut_lead (same : tokens first ++ rest = tokens second ++ tail) :
    lead first = lead second ∧ body first ++ rest = body second ++ tail := by
  rw [tokens_eq, tokens_eq second] at same
  exact List.cons.inj same

theorem cut_leaf (object : ∀ entries, first ≠ .object entries) (array : ∀ item items, first ≠ .array (item :: items))
    (same : tokens first ++ rest = tokens second ++ tail) : first = second ∧ rest = tail := by
  obtain ⟨leads, bodies⟩ := cut_lead same
  rcases lead_cases leads with ⟨rfl, _⟩ | ⟨entries, _, eq, _⟩ | ⟨item, items, _, _, eq, _⟩
  · exact ⟨rfl, List.append_cancel_left bodies⟩
  · exact absurd eq (object entries)
  · exact absurd eq (array item items)

end Cut

mutual

/-- No value's tokens begin another's, so that values can be read off one after the other. -/
theorem tokens_cut : ∀ (first second : Json) (rest tail : List Token), tokens first ++ rest = tokens second ++ tail →
    first = second ∧ rest = tail
  | .int _, _, _, _, same => cut_leaf nofun nofun same
  | .float _, _, _, _, same => cut_leaf nofun nofun same
  | .bool _, _, _, _, same => cut_leaf nofun nofun same
  | .null, _, _, _, same => cut_leaf nofun nofun same
  | .string _, _, _, _, same => cut_leaf nofun nofun same
  | .array [], _, _, _, same => cut_leaf nofun nofun same
  | .array (item :: items), second, rest, tail, same => by
    obtain ⟨leads, bodies⟩ := cut_lead same
    rcases lead_cases leads with ⟨rfl, _⟩ | ⟨_, _, eq, _⟩ | ⟨_, _, other, others, eq, rfl⟩
    · exact ⟨rfl, List.append_cancel_left bodies⟩
    · cases eq
    · cases eq
      rw [body, body, List.append_assoc, List.append_assoc] at bodies
      obtain ⟨rfl, later⟩ := tokens_cut item other _ _ bodies
      obtain ⟨rfl, after⟩ := tokensItems_cut items others rest tail later
      exact ⟨rfl, after⟩
  | .object entries, second, rest, tail, same => by
    obtain ⟨leads, bodies⟩ := cut_lead same
    rcases lead_cases leads with ⟨rfl, _⟩ | ⟨_, others, eq, rfl, length⟩ | ⟨_, _, _, _, eq, _⟩
    · exact ⟨rfl, List.append_cancel_left bodies⟩
    · cases eq
      rw [body, body, List.append_assoc, List.append_assoc] at bodies
      obtain ⟨keys, values⟩ := List.append_inj bodies (by simpa using length)
      have names : entries.map Prod.fst = others.map Prod.fst := by
        refine List.map_injective_iff.mpr binaryToken_injective ?_
        rwa [List.map_map, List.map_map]
      obtain ⟨rfl, after⟩ := tokensValues_cut entries others rest tail names values
      exact ⟨rfl, after⟩
    · cases eq

theorem tokensItems_cut : ∀ (items others : List Json) (rest tail : List Token),
    tokensItems items ++ rest = tokensItems others ++ tail → items = others ∧ rest = tail
  | [], [], _, _, same => ⟨rfl, (List.cons.inj same).2⟩
  | [], _ :: _, _, _, same => by simp [tokensItems, token_inj] at same
  | _ :: _, [], _, _, same => by simp [tokensItems, token_inj] at same
  | item :: items, other :: others, rest, tail, same => by
    rw [tokensItems, tokensItems, List.cons_append, List.cons_append, List.append_assoc, List.append_assoc] at same
    obtain ⟨rfl, later⟩ := tokens_cut item other _ _ (List.cons.inj same).2
    obtain ⟨rfl, after⟩ := tokensItems_cut items others rest tail later
    exact ⟨rfl, after⟩

theorem tokensValues_cut : ∀ (entries others : List (String × Json)) (rest tail : List Token),
    entries.map Prod.fst = others.map Prod.fst → tokensValues entries ++ rest = tokensValues others ++ tail →
      entries = others ∧ rest = tail
  | [], [], _, _, _, same => ⟨rfl, same⟩
  | (key, value) :: entries, (name, other) :: others, rest, tail, keys, same => by
    obtain ⟨rfl, names⟩ := List.cons.inj keys
    rw [tokensValues, tokensValues, List.append_assoc, List.append_assoc] at same
    obtain ⟨rfl, later⟩ := tokens_cut value other _ _ same
    obtain ⟨rfl, after⟩ := tokensValues_cut entries others rest tail names later
    exact ⟨rfl, after⟩

end

theorem tokens_injective : Function.Injective tokens := fun first second same =>
  (tokens_cut first second [] [] (by rw [same])).1

instance : LinearOrder Json := .lift' tokens tokens_injective

end AshA2A.Json
