import AshA2A.Passport.Encoding
import Mathlib.Data.List.Lex
import Mathlib.Data.List.Sort
import Mathlib.Data.Prod.Lex

/-! The canonical text of a planning term, and its digest. -/

namespace AshA2A.Semantic.CanonicalTermDigest

/-- A float, by its shortest decimal text: there is always a point in it. -/
structure Decimal where
  text : String
  numeric : ∀ char ∈ text.toList, char.isDigit = true ∨ char ∈ ['-', '+', '.', 'e']
  pointed : '.' ∈ text.toList
  deriving DecidableEq

/-- The terms that have a canonical text. A map has its entries in any order; the module of a struct is
named as `inspect/1` shows it, and its entries are those without `__struct__`. -/
inductive Term where
  | atom (name : String)
  | integer (value : Int)
  | float (value : Decimal)
  | binary (bytes : Bytes)
  | list (items : List Term)
  | tuple (elements : List Term)
  | map (entries : List (Term × Term))
  | struct (module : String) (entries : List (Term × Term))

abbrev Term.nil : Term := .atom "nil"

def codes (bytes : Bytes) : List Nat := bytes.map UInt8.toNat

/-- The order of two pairs of binaries. -/
def rank (pair : Bytes × Bytes) : List Nat ×ₗ List Nat := toLex (codes pair.1, codes pair.2)

/-- `String.replace(binary, sign, "\\" <> sign)`. -/
def replace (sign : UInt8) (bytes : Bytes) : Bytes := bytes.flatMap fun byte => if byte = sign then [0x5c, byte] else [byte]

def escape (bytes : Bytes) : Bytes := replace 0x22 (replace 0x5c bytes)

def separated (parts : List Bytes) : Bytes := (utf8 ",").intercalate parts

/-- The pairs in the order of their texts. -/
def sorted (pairs : List (Bytes × Bytes)) : List (Bytes × Bytes) :=
  pairs.insertionSort fun left right => rank left ≤ rank right

def joined (pairs : List (Bytes × Bytes)) : Bytes :=
  separated ((sorted pairs).map fun pair => pair.1 ++ utf8 "=" ++ pair.2)

mutual

def encode : Term → Bytes
  | .struct module entries => utf8 "%" ++ utf8 module ++ utf8 "\x7b" ++ joined (encodePairs entries) ++ utf8 "\x7d"
  | .map entries => utf8 "\x7b" ++ joined (encodePairs entries) ++ utf8 "\x7d"
  | .list items => utf8 "[" ++ separated (encodeItems items) ++ utf8 "]"
  | .tuple elements => utf8 "(" ++ separated (encodeItems elements) ++ utf8 ")"
  | .atom name => if name = "nil" then utf8 "nil" else utf8 ":" ++ utf8 name
  | .binary bytes => utf8 "\"" ++ escape bytes ++ utf8 "\""
  | .integer value => utf8 value.repr
  | .float value => utf8 value.text

def encodeItems : List Term → List Bytes
  | [] => []
  | item :: items => encode item :: encodeItems items

def encodePairs : List (Term × Term) → List (Bytes × Bytes)
  | [] => []
  | (key, value) :: entries => (encode key, encode value) :: encodePairs entries

end

def digest (sha256 : Bytes → Bytes) (term : Term) : String := "sha256:" ++ Base16.encode (sha256 (encode term))

end AshA2A.Semantic.CanonicalTermDigest
