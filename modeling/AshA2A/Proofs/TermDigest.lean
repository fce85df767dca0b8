import AshA2A.Semantic.CanonicalTermDigest
import Mathlib.Data.List.Forall2
import Mathlib.Data.String.Basic
import Mathlib.Tactic.IntervalCases

/-! What the canonical text of a term tells: all of it, once the names in it are known. -/

namespace AshA2A.Semantic.CanonicalTermDigest

/-- The same term: the entries of a map may stand in any order. -/
inductive Same : Term → Term → Prop where
  | atom (name : String) : Same (.atom name) (.atom name)
  | integer (value : Int) : Same (.integer value) (.integer value)
  | float (value : Decimal) : Same (.float value) (.float value)
  | binary (bytes : Bytes) : Same (.binary bytes) (.binary bytes)
  | list {items others : List Term} (each : List.Forall₂ Same items others) : Same (.list items) (.list others)
  | tuple {items others : List Term} (each : List.Forall₂ Same items others) : Same (.tuple items) (.tuple others)
  | map {entries middle final others : List (Term × Term)} (first : entries.Perm middle)
      (keys : List.Forall₂ Same (middle.map Prod.fst) (final.map Prod.fst))
      (values : List.Forall₂ Same (middle.map Prod.snd) (final.map Prod.snd)) (second : final.Perm others) :
      Same (.map entries) (.map others)
  | struct (module : String) {entries middle final others : List (Term × Term)} (first : entries.Perm middle)
      (keys : List.Forall₂ Same (middle.map Prod.fst) (final.map Prod.fst))
      (values : List.Forall₂ Same (middle.map Prod.snd) (final.map Prod.snd)) (second : final.Perm others) :
      Same (.struct module entries) (.struct module others)

/-! ## The names in a term -/

/-- The text of an entry, and the names in it. -/
abbrev Spelling := (Bytes × Bytes) × List String

/-- Entries with one text are told apart by their names. -/
def spellingRank (entry : Spelling) : List Nat ×ₗ List Nat ×ₗ List String :=
  toLex (codes entry.1.1, toLex (codes entry.1.2, entry.2))

def sortedNames (entries : List Spelling) : List String :=
  (entries.insertionSort fun left right => spellingRank left ≤ spellingRank right).flatMap Prod.snd

mutual

/-- The atoms and the modules of a term, in the order of its text. -/
def names : Term → List String
  | .struct module entries => module :: sortedNames (spellings entries)
  | .map entries => sortedNames (spellings entries)
  | .list items | .tuple items => namesItems items
  | .atom name => [name]
  | .binary _ | .integer _ | .float _ => []

def namesItems : List Term → List String
  | [] => []
  | item :: items => names item ++ namesItems items

def spellings : List (Term × Term) → List Spelling
  | [] => []
  | (key, value) :: entries => ((encode key, encode value), names key ++ names value) :: spellings entries

end

def spelling (entry : Term × Term) : Spelling := ((encode entry.1, encode entry.2), names entry.1 ++ names entry.2)

def spellingOrder (left right : Term × Term) : Prop := spellingRank (spelling left) ≤ spellingRank (spelling right)

instance : DecidableRel spellingOrder := fun _ _ => inferInstanceAs (Decidable (_ ≤ _))

/-- The entries in the order of their texts. -/
def arranged (entries : List (Term × Term)) : List (Term × Term) := entries.insertionSort spellingOrder

theorem encodeItems_eq (items : List Term) : encodeItems items = items.map encode := by
  induction items with
  | nil => rfl
  | cons item items ih => rw [encodeItems, ih, List.map_cons]

theorem encodePairs_eq (entries : List (Term × Term)) :
    encodePairs entries = entries.map fun entry => (encode entry.1, encode entry.2) := by
  induction entries with
  | nil => rfl
  | cons entry entries ih => rw [encodePairs, ih, List.map_cons]

theorem namesItems_eq (items : List Term) : namesItems items = items.flatMap names := by
  induction items with
  | nil => rfl
  | cons item items ih => rw [namesItems, ih, List.flatMap_cons]

theorem spellings_eq (entries : List (Term × Term)) : spellings entries = entries.map spelling := by
  induction entries with
  | nil => rfl
  | cons entry entries ih => rw [spellings, ih, List.map_cons]; rfl

theorem codes_injective : Function.Injective codes := List.map_injective_iff.mpr fun _ _ => UInt8.toNat_inj.mp

theorem rank_injective : Function.Injective rank := by
  rintro ⟨key, value⟩ ⟨key', value'⟩ same
  obtain ⟨keys, values⟩ := Prod.ext_iff.mp (toLex.injective same)
  exact Prod.ext (codes_injective keys) (codes_injective values)

theorem spellingRank_injective : Function.Injective spellingRank := by
  rintro ⟨⟨key, value⟩, name⟩ ⟨⟨key', value'⟩, name'⟩ same
  obtain ⟨keys, rest⟩ := Prod.ext_iff.mp (toLex.injective same)
  obtain ⟨values, names⟩ := Prod.ext_iff.mp (toLex.injective rest)
  exact Prod.ext (Prod.ext (codes_injective keys) (codes_injective values)) names

theorem rank_of_spellingRank {left right : Spelling} (order : spellingRank left ≤ spellingRank right) :
    rank left.1 ≤ rank right.1 := by
  rw [spellingRank, spellingRank, Prod.Lex.toLex_le_toLex] at order
  rw [rank, rank, Prod.Lex.toLex_le_toLex]
  refine order.imp_right fun ⟨same, rest⟩ => ⟨same, ?_⟩
  rw [Prod.Lex.toLex_le_toLex] at rest
  exact rest.elim le_of_lt fun both => le_of_eq both.1

theorem arranged_perm (entries : List (Term × Term)) : (arranged entries).Perm entries := List.perm_insertionSort _ _

/-- The names of a map are those of its entries, as they are arranged. -/
theorem sortedNames_eq (entries : List (Term × Term)) :
    sortedNames (spellings entries) = (arranged entries).flatMap fun entry => names entry.1 ++ names entry.2 := by
  rw [sortedNames, spellings_eq, ← List.map_insertionSort (r := spellingOrder) _ spelling entries fun _ _ _ _ => Iff.rfl,
    List.flatMap_map]
  rfl

theorem sorted_eq (entries : List (Term × Term)) :
    sorted (encodePairs entries) = (arranged entries).map fun entry => (encode entry.1, encode entry.2) := by
  have perm : (sorted (encodePairs entries)).Perm ((arranged entries).map fun entry => (encode entry.1, encode entry.2)) := by
    rw [encodePairs_eq]
    exact (List.perm_insertionSort _ _).trans ((arranged_perm entries).symm.map _)
  have total : Std.Total fun left right : Bytes × Bytes => rank left ≤ rank right := ⟨fun _ _ => le_total _ _⟩
  have trans : IsTrans (Bytes × Bytes) fun left right => rank left ≤ rank right := ⟨fun _ _ _ => le_trans⟩
  have entryTotal : Std.Total spellingOrder := ⟨fun _ _ => le_total _ _⟩
  have entryTrans : IsTrans (Term × Term) spellingOrder := ⟨fun _ _ _ => le_trans⟩
  have ordered : (sorted (encodePairs entries)).Pairwise fun left right => rank left ≤ rank right :=
    List.pairwise_insertionSort _ _
  have arranged : ((arranged entries).map fun entry => (encode entry.1, encode entry.2)).Pairwise
      fun left right => rank left ≤ rank right :=
    List.pairwise_map.mpr ((List.pairwise_insertionSort spellingOrder entries).imp rank_of_spellingRank)
  exact List.Perm.eq_of_pairwise (fun _ _ _ _ below above => rank_injective (le_antisymm below above)) ordered arranged perm

/-- The text of a map is that of its entries, as they are arranged. -/
theorem joined_eq (entries : List (Term × Term)) : joined (encodePairs entries) =
    separated ((arranged entries).map fun entry => encode entry.1 ++ utf8 "=" ++ encode entry.2) := by
  rw [joined, sorted_eq, List.map_map]
  rfl

/-! ## Where a token ends -/

section Token

/-- A comma, a closing bracket, or an equals sign. -/
def ends : List UInt8 := [0x2c, 0x5d, 0x29, 0x7d, 0x3d]

/-- Nothing follows, or the sign that ends a token. -/
def Stops (rest : Bytes) : Prop := ∀ byte ∈ rest.head?, byte ∈ ends

/-- A name in which no sign stands that ends a token, and no opening brace. -/
def Plain (name : String) : Prop := ∀ byte ∈ utf8 name, byte ∉ ends ∧ byte ≠ 0x7b

theorem token_unique {first second rest other : Bytes} (free : ∀ byte ∈ first, byte ∉ ends)
    (otherFree : ∀ byte ∈ second, byte ∉ ends) (stops : Stops rest) (otherStops : Stops other)
    (same : first ++ rest = second ++ other) : first = second ∧ rest = other := by
  induction first generalizing second with
  | nil =>
    cases second with
    | nil => exact ⟨rfl, same⟩
    | cons byte second =>
      rw [List.nil_append] at same
      rw [same] at stops
      exact absurd (stops byte rfl) (otherFree byte List.mem_cons_self)
  | cons byte first ih =>
    cases second with
    | nil =>
      rw [List.nil_append] at same
      rw [← same] at otherStops
      exact absurd (otherStops byte rfl) (free byte List.mem_cons_self)
    | cons byte' second =>
      obtain ⟨rfl, tails⟩ := List.cons.inj same
      obtain ⟨rfl, rests⟩ := ih (fun other member => free other (List.mem_cons_of_mem _ member))
        (fun other member => otherFree other (List.mem_cons_of_mem _ member)) tails
      exact ⟨rfl, rests⟩

theorem escape_cons (byte : UInt8) (bytes : Bytes) : escape (byte :: bytes) =
    (if byte = 0x5c ∨ byte = 0x22 then [0x5c, byte] else [byte]) ++ escape bytes := by
  unfold escape replace
  rw [List.flatMap_cons, List.flatMap_append]
  congr 1
  by_cases slash : byte = 0x5c
  · subst slash
    rfl
  · by_cases quote : byte = 0x22 <;> simp [slash, quote]

/-- The first quote that is not escaped ends a binary. -/
theorem escape_unique {first second rest other : Bytes}
    (same : escape first ++ 0x22 :: rest = escape second ++ 0x22 :: other) : first = second ∧ rest = other := by
  induction first generalizing second with
  | nil =>
    cases second with
    | nil => exact ⟨rfl, (List.cons.inj same).2⟩
    | cons byte second =>
      rw [escape_cons] at same
      by_cases special : byte = 0x5c ∨ byte = 0x22
      · rw [if_pos special] at same
        exact absurd (List.cons.inj same).1 (by decide)
      · rw [if_neg special] at same
        exact absurd (Or.inr (List.cons.inj same).1.symm) special
  | cons byte first ih =>
    rw [escape_cons] at same
    cases second with
    | nil =>
      by_cases special : byte = 0x5c ∨ byte = 0x22
      · rw [if_pos special] at same
        exact absurd (List.cons.inj same).1 (by decide)
      · rw [if_neg special] at same
        exact absurd (Or.inr (List.cons.inj same).1) special
    | cons byte' second =>
      rw [escape_cons] at same
      by_cases special : byte = 0x5c ∨ byte = 0x22 <;> by_cases special' : byte' = 0x5c ∨ byte' = 0x22
      · rw [if_pos special, if_pos special'] at same
        obtain ⟨rfl, tails⟩ := List.cons.inj (List.cons.inj same).2
        obtain ⟨rfl, rests⟩ := ih tails
        exact ⟨rfl, rests⟩
      · rw [if_pos special, if_neg special'] at same
        exact absurd (Or.inl (List.cons.inj same).1.symm) special'
      · rw [if_neg special, if_pos special'] at same
        exact absurd (Or.inl (List.cons.inj same).1) special
      · rw [if_neg special, if_neg special'] at same
        obtain ⟨rfl, tails⟩ := List.cons.inj same
        obtain ⟨rfl, rests⟩ := ih tails
        exact ⟨rfl, rests⟩

end Token

/-! ## Numbers, and how a text begins -/

section Number

def numerals : List Char := ['0', '1', '2', '3', '4', '5', '6', '7', '8', '9', '-', '+', '.', 'e']

/-- What the first byte of a text is the first byte of. -/
def sign (byte : UInt8) : Nat :=
  if byte = 0x25 then 0 else if byte = 0x7b then 1 else if byte = 0x5b then 2 else if byte = 0x28 then 3
  else if byte = 0x3a then 4 else if byte = 0x6e then 5 else if byte = 0x22 then 6
  else if byte ∈ numerals.map fun char => char.toNat.toUInt8 then 7 else 8

theorem digit_mem {char : Char} (digit : char.isDigit = true) : char ∈ numerals := by
  simp only [Char.isDigit, Bool.and_eq_true, decide_eq_true_eq] at digit
  have low : 48 ≤ char.toNat := digit.1
  have high : char.toNat ≤ 57 := digit.2
  rw [← Char.ofNat_toNat char]
  interval_cases char.toNat <;> decide

theorem numeral_bytes : numerals.all (fun char => (String.utf8EncodeChar char).all fun byte =>
    sign byte = 7 ∧ byte ∉ ends) = true := by decide

def Numeric (text : String) : Prop := ∀ char ∈ text.toList, char ∈ numerals

theorem Numeric.bytes {text : String} (numeric : Numeric text) : ∀ byte ∈ utf8 text, sign byte = 7 ∧ byte ∉ ends := by
  intro byte member
  obtain ⟨char, listed, coded⟩ := List.mem_flatMap.mp member
  have all := List.all_eq_true.mp numeral_bytes char (numeric char listed)
  exact of_decide_eq_true (List.all_eq_true.mp all byte coded)

theorem Decimal.chars (value : Decimal) : Numeric value.text := by
  intro char member
  rcases value.numeric char member with digit | other
  · exact digit_mem digit
  · have signs : ['-', '+', '.', 'e'].all (fun char => char ∈ numerals) = true := by decide
    exact of_decide_eq_true (List.all_eq_true.mp signs char other)

theorem nat_repr_chars (number : Nat) : ∀ char ∈ number.repr.toList, char.isDigit = true := by
  rw [Nat.repr_eq_ofList_toDigits, String.toList_ofList]
  exact fun char member => Nat.isDigit_of_mem_toDigits (by decide) (by decide) member

theorem nat_repr_inj {number other : Nat} (same : number.repr = other.repr) : number = other := by
  rw [Nat.repr_eq_ofList_toDigits, Nat.repr_eq_ofList_toDigits] at same
  have digits := congrArg (fun text => Nat.ofDigitChars 10 text.toList 0) same
  simp only [String.toList_ofList, Nat.ofDigitChars_ten_toDigits] at digits
  exact digits

theorem int_repr_chars (number : Int) : ∀ char ∈ number.repr.toList, char.isDigit = true ∨ char = '-' := by
  cases number with
  | ofNat value => exact fun char member => .inl (nat_repr_chars value char member)
  | negSucc value =>
    intro char member
    rw [show (Int.negSucc value).repr = "-" ++ value.succ.repr from rfl, String.toList_append] at member
    rcases List.mem_append.mp member with minus | digit
    · exact .inr (List.mem_singleton.mp minus)
    · exact .inl (nat_repr_chars _ char digit)

theorem int_repr_inj {number other : Int} (same : number.repr = other.repr) : number = other := by
  have minus (value other : Nat) : value.repr ≠ "-" ++ other.repr := by
    intro same
    have listed : '-' ∈ value.repr.toList := by rw [same, String.toList_append]; exact List.mem_cons_self
    exact absurd (nat_repr_chars value '-' listed) (by decide)
  cases number with
  | ofNat value =>
    cases other with
    | ofNat value' => exact congrArg _ (nat_repr_inj same)
    | negSucc value' => exact absurd same (minus value _)
  | negSucc value =>
    cases other with
    | ofNat value' => exact absurd same.symm (minus value' _)
    | negSucc value' =>
      have rest : value.succ.repr = value'.succ.repr := by
        have lists := congrArg String.toList same
        rw [show (Int.negSucc value).repr = "-" ++ value.succ.repr from rfl,
          show (Int.negSucc value').repr = "-" ++ value'.succ.repr from rfl, String.toList_append, String.toList_append] at lists
        exact String.toList_inj.mp (List.append_cancel_left lists)
      rw [Nat.succ.inj (nat_repr_inj rest)]

theorem int_numeric (number : Int) : Numeric number.repr := by
  intro char member
  rcases int_repr_chars number char member with digit | rfl
  · exact digit_mem digit
  · decide

/-- There is a point in every float, and in no integer. -/
theorem int_ne_decimal (number : Int) (value : Decimal) : number.repr ≠ value.text := by
  intro same
  have point := value.pointed
  rw [← same] at point
  rcases int_repr_chars number '.' point with digit | other
  · exact absurd digit (by decide)
  · exact absurd other (by decide)

theorem decimal_inj {value other : Decimal} (same : value.text = other.text) : value = other := by
  cases value
  cases other
  cases same
  rfl

/-- The kind of a term, by which its text begins. -/
def kind : Term → Nat
  | .struct _ _ => 0
  | .map _ => 1
  | .list _ => 2
  | .tuple _ => 3
  | .atom name => if name = "nil" then 5 else 4
  | .binary _ => 6
  | .integer _ | .float _ => 7

theorem sign_of_numeric {text : String} (numeric : Numeric text) (some : text.toList ≠ []) :
    ∃ byte rest, utf8 text = byte :: rest ∧ sign byte = 7 := by
  have filled : utf8 text ≠ [] := by
    intro none
    apply some
    have empty : text = "" := utf8_injective (none.trans (by rfl : ([] : Bytes) = utf8 ""))
    rw [empty]
    rfl
  obtain ⟨byte, rest, split⟩ := List.exists_cons_of_ne_nil filled
  exact ⟨byte, rest, split, (numeric.bytes byte (by rw [split]; exact List.mem_cons_self)).1⟩

theorem int_repr_ne_nil (number : Int) : number.repr.toList ≠ [] := by
  have digits (value : Nat) : value.repr.toList ≠ [] := by
    rw [Nat.repr_eq_ofList_toDigits, String.toList_ofList]
    exact Nat.toDigits_ne_nil
  cases number with
  | ofNat value => exact digits value
  | negSucc value =>
    rw [show (Int.negSucc value).repr = "-" ++ value.succ.repr from rfl, String.toList_append]
    exact List.cons_ne_nil _ _

theorem encode_head (term : Term) : ∃ byte rest, encode term = byte :: rest ∧ sign byte = kind term := by
  cases term with
  | struct module entries => exact ⟨0x25, _, rfl, rfl⟩
  | map entries => exact ⟨0x7b, _, rfl, rfl⟩
  | list items => exact ⟨0x5b, _, rfl, rfl⟩
  | tuple elements => exact ⟨0x28, _, rfl, rfl⟩
  | binary bytes => exact ⟨0x22, _, rfl, rfl⟩
  | atom name =>
    rw [encode, kind]
    by_cases absent : name = "nil"
    · rw [if_pos absent, if_pos absent]
      exact ⟨0x6e, _, rfl, rfl⟩
    · rw [if_neg absent, if_neg absent]
      exact ⟨0x3a, _, rfl, rfl⟩
  | integer value =>
    rw [encode, kind]
    exact sign_of_numeric (int_numeric value) (int_repr_ne_nil value)
  | float value =>
    rw [encode, kind]
    exact sign_of_numeric value.chars (List.ne_nil_of_mem value.pointed)

theorem kind_eq {first second : Term} {rest other : Bytes} (same : encode first ++ rest = encode second ++ other) :
    kind first = kind second := by
  obtain ⟨byte, tail, head, one⟩ := encode_head first
  obtain ⟨byte', tail', head', two⟩ := encode_head second
  rw [head, head'] at same
  rw [← one, ← two, (List.cons.inj same).1]

/-- No text begins as one ends. -/
theorem encode_ne_end {term : Term} {rest other : Bytes} {byte : UInt8} (closes : byte ∈ ends) :
    encode term ++ rest ≠ byte :: other := by
  obtain ⟨first, tail, head, one⟩ := encode_head term
  rw [head]
  intro same
  rw [(List.cons.inj same).1] at one
  have outside : ends.all (fun byte => sign byte = 8) = true := by decide
  rw [of_decide_eq_true (List.all_eq_true.mp outside byte closes)] at one
  cases term <;> simp only [kind] at one
  case atom name => split at one <;> cases one
  all_goals cases one

end Number

/-! ## Reading a text in one way only -/

/-- The names of two texts and of what follows them: one list, or else plain names. -/
def Agree (plain : Bool) (called others after later : List String) : Prop :=
  if plain then ∀ name ∈ called ++ others, Plain name else called ++ after = others ++ later

theorem Agree.head {plain : Bool} {first second third fourth after later : List String}
    (agree : Agree plain (first ++ second) (third ++ fourth) after later) :
    Agree plain first third (second ++ after) (fourth ++ later) := by
  cases plain with
  | true =>
    intro name member
    refine agree name ?_
    simp only [List.mem_append] at member ⊢
    tauto
  | false => simpa [Agree] using agree

theorem Agree.tail {plain : Bool} {first second third fourth after later : List String}
    (agree : Agree plain (first ++ second) (third ++ fourth) after later)
    (rest : plain = false → second ++ after = fourth ++ later) : Agree plain second fourth after later := by
  cases plain with
  | true =>
    intro name member
    refine agree name ?_
    simp only [List.mem_append] at member ⊢
    tauto
  | false => exact rest rfl

section Unique

variable {α : Type} (plain : Bool) (text : α → Bytes) (called : α → List String) (same : α → α → Prop)

/-- Whatever follows it, the text is that of this item only. -/
def Unique (item : α) : Prop := ∀ (other : α) (rest tail : Bytes) (after later : List String), Stops rest → Stops tail →
  text item ++ rest = text other ++ tail → Agree plain (called item) (called other) after later →
    same item other ∧ rest = tail ∧ (plain = false → after = later)

theorem separated_cons (part : Bytes) (parts : List Bytes) :
    separated (part :: parts) = part ++ parts.flatMap (0x2c :: ·) := by
  induction parts generalizing part with
  | nil => simp [separated]
  | cons next parts ih =>
    rw [separated, List.intercalate_cons_cons, ← separated, ih, List.append_assoc]
    rfl

variable {plain text called same}

theorem stops_cons {byte : UInt8} {rest : Bytes} (closes : byte ∈ ends) : Stops (byte :: rest) := by
  rintro _ ⟨⟩
  exact closes

theorem stops_following {parts : List Bytes} {close : UInt8} {rest : Bytes} (closes : close ∈ ends) :
    Stops (parts.flatMap (0x2c :: ·) ++ close :: rest) := by
  cases parts with
  | nil => exact stops_cons closes
  | cons part parts => exact stops_cons (by decide)

theorem following_unique {close : UInt8} (closes : close ∈ ends) (noComma : close ≠ 0x2c) {items others : List α}
    (each : ∀ item ∈ items, Unique plain text called same item) {rest tail : Bytes} {after later : List String}
    (texts : (items.map text).flatMap (0x2c :: ·) ++ close :: rest = (others.map text).flatMap (0x2c :: ·) ++ close :: tail)
    (agree : Agree plain (items.flatMap called) (others.flatMap called) after later) :
    List.Forall₂ same items others ∧ rest = tail ∧ (plain = false → after = later) := by
  induction items generalizing others with
  | nil =>
    cases others with
    | nil =>
      refine ⟨.nil, (List.cons.inj texts).2, fun named => ?_⟩
      subst named
      exact agree
    | cons other others => exact absurd (List.cons.inj texts).1 noComma
  | cons item items ih =>
    cases others with
    | nil => exact absurd (List.cons.inj texts).1.symm noComma
    | cons other others =>
      simp only [List.map_cons, List.flatMap_cons, List.cons_append, List.append_assoc, List.cons.injEq, true_and] at texts
      rw [List.flatMap_cons, List.flatMap_cons] at agree
      obtain ⟨first, following, names⟩ := each item List.mem_cons_self other _ _ _ _ (stops_following closes)
        (stops_following closes) texts agree.head
      obtain ⟨others, tails⟩ := ih (fun item member => each item (List.mem_cons_of_mem _ member)) following (agree.tail names)
      exact ⟨.cons first others, tails⟩

theorem separated_unique {close : UInt8} (closes : close ∈ ends) (noComma : close ≠ 0x2c) {items others : List α}
    (each : ∀ item ∈ items, Unique plain text called same item)
    (opens : ∀ (item : α) (rest tail : Bytes), text item ++ rest ≠ close :: tail) {rest tail : Bytes}
    {after later : List String}
    (texts : separated (items.map text) ++ close :: rest = separated (others.map text) ++ close :: tail)
    (agree : Agree plain (items.flatMap called) (others.flatMap called) after later) :
    List.Forall₂ same items others ∧ rest = tail ∧ (plain = false → after = later) := by
  cases items with
  | nil =>
    cases others with
    | nil => exact following_unique closes noComma each texts agree
    | cons other others =>
      rw [List.map_cons, separated_cons, List.append_assoc] at texts
      exact absurd texts.symm (opens other _ _)
  | cons item items =>
    cases others with
    | nil =>
      rw [List.map_cons, separated_cons, List.append_assoc] at texts
      exact absurd texts (opens item _ _)
    | cons other others =>
      refine following_unique closes noComma each ?_ agree
      rw [List.map_cons, List.map_cons, separated_cons, separated_cons] at texts
      rw [List.map_cons, List.map_cons, List.flatMap_cons, List.flatMap_cons]
      exact congrArg (0x2c :: ·) texts

end Unique

/-! ## Terms -/

def SameEntry (entry other : Term × Term) : Prop := Same entry.1 other.1 ∧ Same entry.2 other.2

def entryText (entry : Term × Term) : Bytes := encode entry.1 ++ utf8 "=" ++ encode entry.2

def entryNames (entry : Term × Term) : List String := names entry.1 ++ names entry.2

theorem entry_unique {plain : Bool} {entry : Term × Term} (key : Unique plain encode names Same entry.1)
    (value : Unique plain encode names Same entry.2) : Unique plain entryText entryNames SameEntry entry := by
  intro other rest tail after later stops otherStops texts agree
  have split (entry : Term × Term) (rest : Bytes) :
      entryText entry ++ rest = encode entry.1 ++ 0x3d :: (encode entry.2 ++ rest) := by
    rw [entryText, List.append_assoc, List.append_assoc]
    rfl
  rw [split, split] at texts
  obtain ⟨keys, following, names⟩ := key other.1 _ _ _ _ (stops_cons (by decide)) (stops_cons (by decide)) texts agree.head
  obtain ⟨values, tails⟩ := value other.2 rest tail after later stops otherStops (List.cons.inj following).2
    (agree.tail names)
  exact ⟨⟨keys, values⟩, tails⟩

theorem entries_same {entries others : List (Term × Term)} (each : List.Forall₂ SameEntry entries others) :
    List.Forall₂ Same (entries.map Prod.fst) (others.map Prod.fst) ∧
      List.Forall₂ Same (entries.map Prod.snd) (others.map Prod.snd) := by
  induction each with
  | nil => exact ⟨.nil, .nil⟩
  | cons entry _ ih => exact ⟨.cons entry.1 ih.1, .cons entry.2 ih.2⟩

theorem joined_unique {plain : Bool} {entries others : List (Term × Term)}
    (each : ∀ entry ∈ entries, Unique plain encode names Same entry.1 ∧ Unique plain encode names Same entry.2)
    {rest tail : Bytes} {after later : List String}
    (texts : joined (encodePairs entries) ++ 0x7d :: rest = joined (encodePairs others) ++ 0x7d :: tail)
    (agree : Agree plain (sortedNames (spellings entries)) (sortedNames (spellings others)) after later) :
    List.Forall₂ SameEntry (arranged entries) (arranged others) ∧ rest = tail ∧ (plain = false → after = later) := by
  rw [joined_eq, joined_eq] at texts
  rw [sortedNames_eq, sortedNames_eq] at agree
  refine separated_unique (by decide) (by decide) (fun entry member => ?_) ?_ texts agree
  · obtain ⟨key, value⟩ := each entry ((arranged_perm entries).mem_iff.mp member)
    exact entry_unique key value
  · intro entry rest tail same
    rw [List.append_assoc, List.append_assoc] at same
    exact encode_ne_end (by decide) same

/-- The names agree at the front of what follows. -/
theorem Agree.one {plain : Bool} {name other : String} {after later : List String}
    (agree : Agree plain [name] [other] after later) :
    (plain = true → Plain name ∧ Plain other) ∧ (plain = false → name = other ∧ after = later) := by
  refine ⟨fun known => ?_, fun known => ?_⟩
  · subst known
    exact ⟨agree name List.mem_cons_self, agree other (List.mem_cons_of_mem _ List.mem_cons_self)⟩
  · subst known
    exact List.cons.inj agree

theorem atom_unique {plain : Bool} {name other : String} {rest tail : Bytes} {after later : List String}
    (stops : Stops rest) (otherStops : Stops tail) (texts : utf8 name ++ rest = utf8 other ++ tail)
    (agree : Agree plain [name] [other] after later) : name = other ∧ rest = tail ∧ (plain = false → after = later) := by
  cases plain with
  | true =>
    obtain ⟨first, second⟩ := agree.one.1 rfl
    obtain ⟨same, tails⟩ := token_unique (fun byte member => (first byte member).1)
      (fun byte member => (second byte member).1) stops otherStops texts
    exact ⟨utf8_injective same, tails, nofun⟩
  | false =>
    obtain ⟨rfl, follows⟩ := agree.one.2 rfl
    exact ⟨rfl, List.append_cancel_left texts, fun _ => follows⟩

theorem module_unique {plain : Bool} {module other : String} {rest tail : Bytes} {called others after later : List String}
    (texts : utf8 module ++ 0x7b :: rest = utf8 other ++ 0x7b :: tail)
    (agree : Agree plain (module :: called) (other :: others) after later) :
    module = other ∧ rest = tail ∧ Agree plain called others after later := by
  have front : Agree plain ([module] ++ called) ([other] ++ others) after later := agree
  cases plain with
  | true =>
    obtain ⟨first, second⟩ := front.head.one.1 rfl
    obtain ⟨same, tails⟩ := split_unique (fun member => (first _ member).2 rfl) (fun member => (second _ member).2 rfl) texts
    exact ⟨utf8_injective same, tails, front.tail nofun⟩
  | false =>
    obtain ⟨rfl, follows⟩ := front.head.one.2 rfl
    exact ⟨rfl, (List.cons.inj (List.append_cancel_left texts)).2, front.tail fun _ => follows⟩

theorem number_unique {first second : String} {rest tail : Bytes} (numeric : Numeric first) (otherNumeric : Numeric second)
    (stops : Stops rest) (otherStops : Stops tail) (texts : utf8 first ++ rest = utf8 second ++ tail) :
    first = second ∧ rest = tail := by
  obtain ⟨same, tails⟩ := token_unique (fun byte member => (numeric.bytes byte member).2)
    (fun byte member => (otherNumeric.bytes byte member).2) stops otherStops texts
  exact ⟨utf8_injective same, tails⟩

theorem Agree.none {plain : Bool} {after later : List String} (agree : Agree plain [] [] after later) :
    plain = false → after = later := by
  rintro rfl
  exact agree

theorem brackets_unique {plain : Bool} {items others : List Term} (each : ∀ item ∈ items, Unique plain encode names Same item)
    {close : UInt8} (closes : close ∈ ends) (noComma : close ≠ 0x2c) {rest tail : Bytes} {after later : List String}
    (texts : separated (encodeItems items) ++ close :: rest = separated (encodeItems others) ++ close :: tail)
    (agree : Agree plain (namesItems items) (namesItems others) after later) :
    List.Forall₂ Same items others ∧ rest = tail ∧ (plain = false → after = later) := by
  rw [encodeItems_eq, encodeItems_eq] at texts
  rw [namesItems_eq, namesItems_eq] at agree
  exact separated_unique closes noComma each (fun _ _ _ => encode_ne_end closes) texts agree

section Text

variable (rest : Bytes)

theorem encode_list (items : List Term) :
    encode (.list items) ++ rest = 0x5b :: (separated (encodeItems items) ++ 0x5d :: rest) := by
  rw [encode, List.append_assoc, List.append_assoc]
  rfl

theorem encode_tuple (items : List Term) :
    encode (.tuple items) ++ rest = 0x28 :: (separated (encodeItems items) ++ 0x29 :: rest) := by
  rw [encode, List.append_assoc, List.append_assoc]
  rfl

theorem encode_map (entries : List (Term × Term)) :
    encode (.map entries) ++ rest = 0x7b :: (joined (encodePairs entries) ++ 0x7d :: rest) := by
  rw [encode, List.append_assoc, List.append_assoc]
  rfl

theorem encode_struct (module : String) (entries : List (Term × Term)) : encode (.struct module entries) ++ rest =
    0x25 :: (utf8 module ++ 0x7b :: (joined (encodePairs entries) ++ 0x7d :: rest)) := by
  rw [encode]
  simp only [List.append_assoc]
  rfl

theorem encode_binary (bytes : Bytes) : encode (.binary bytes) ++ rest = 0x22 :: (escape bytes ++ 0x22 :: rest) := by
  rw [encode, List.append_assoc, List.append_assoc]
  rfl

theorem encode_atom {name : String} (present : name ≠ "nil") :
    encode (.atom name) ++ rest = 0x3a :: (utf8 name ++ rest) := by
  rw [encode, if_neg present, List.append_assoc]
  rfl

end Text

theorem list_smaller {items : List Term} {item : Term} (member : item ∈ items) : sizeOf item < sizeOf (Term.list items) := by
  have small := List.sizeOf_lt_of_mem member
  rw [Term.list.sizeOf_spec]
  omega

theorem tuple_smaller {items : List Term} {item : Term} (member : item ∈ items) :
    sizeOf item < sizeOf (Term.tuple items) := by
  have small := List.sizeOf_lt_of_mem member
  rw [Term.tuple.sizeOf_spec]
  omega

theorem entry_smaller {entries : List (Term × Term)} {entry : Term × Term} (member : entry ∈ entries) :
    sizeOf entry.1 < sizeOf entries ∧ sizeOf entry.2 < sizeOf entries := by
  have small := List.sizeOf_lt_of_mem member
  obtain ⟨key, value⟩ := entry
  rw [Prod.mk.sizeOf_spec] at small
  show sizeOf key < _ ∧ sizeOf value < _
  exact ⟨by omega, by omega⟩

theorem map_smaller {entries : List (Term × Term)} {entry : Term × Term} (member : entry ∈ entries) :
    sizeOf entry.1 < sizeOf (Term.map entries) ∧ sizeOf entry.2 < sizeOf (Term.map entries) := by
  obtain ⟨key, value⟩ := entry_smaller member
  rw [Term.map.sizeOf_spec]
  exact ⟨by omega, by omega⟩

theorem struct_smaller {module : String} {entries : List (Term × Term)} {entry : Term × Term} (member : entry ∈ entries) :
    sizeOf entry.1 < sizeOf (Term.struct module entries) ∧ sizeOf entry.2 < sizeOf (Term.struct module entries) := by
  obtain ⟨key, value⟩ := entry_smaller member
  rw [Term.struct.sizeOf_spec]
  exact ⟨by omega, by omega⟩

/-- Two terms whose texts may begin alike. -/
inductive Alike : Term → Term → Prop where
  | list (items others : List Term) : Alike (.list items) (.list others)
  | tuple (items others : List Term) : Alike (.tuple items) (.tuple others)
  | map (entries others : List (Term × Term)) : Alike (.map entries) (.map others)
  | struct (module module' : String) (entries others : List (Term × Term)) :
      Alike (.struct module entries) (.struct module' others)
  | binary (bytes others : Bytes) : Alike (.binary bytes) (.binary others)
  | absent : Alike (.atom "nil") (.atom "nil")
  | atom {name name' : String} (present : name ≠ "nil") (present' : name' ≠ "nil") : Alike (.atom name) (.atom name')
  | integer (value value' : Int) : Alike (.integer value) (.integer value')
  | float (value value' : Decimal) : Alike (.float value) (.float value')
  | whole (value : Int) (value' : Decimal) : Alike (.integer value) (.float value')
  | part (value : Decimal) (value' : Int) : Alike (.float value) (.integer value')

theorem alike_of_kind {first second : Term} (same : kind first = kind second) : Alike first second := by
  cases first <;> cases second
  case atom.atom name name' =>
    rw [kind, kind] at same
    by_cases absent : name = "nil" <;> by_cases absent' : name' = "nil"
    · subst absent absent'
      exact .absent
    · rw [if_pos absent, if_neg absent'] at same
      cases same
    · rw [if_neg absent, if_pos absent'] at same
      cases same
    · exact .atom absent absent'
  all_goals first
    | constructor
    | (simp only [kind] at same; split at same <;> cases same)
    | simp [kind] at same

/-- The text of a term is that of this term only, where the names in it are known or plain. -/
theorem unique_of_parts {plain : Bool} {term : Term}
    (parts : ∀ part : Term, sizeOf part < sizeOf term → Unique plain encode names Same part) :
    Unique plain encode names Same term := by
  intro other rest tail after later stops otherStops texts agree
  cases alike_of_kind (kind_eq texts) with
  | list items others =>
    rw [encode_list, encode_list] at texts
    obtain ⟨each, rests⟩ := brackets_unique (fun item member => parts item (list_smaller member)) (by decide) (by decide)
      (List.cons.inj texts).2 agree
    exact ⟨.list each, rests⟩
  | tuple items others =>
    rw [encode_tuple, encode_tuple] at texts
    obtain ⟨each, rests⟩ := brackets_unique (fun item member => parts item (tuple_smaller member)) (by decide) (by decide)
      (List.cons.inj texts).2 agree
    exact ⟨.tuple each, rests⟩
  | map entries others =>
    rw [encode_map, encode_map] at texts
    obtain ⟨each, rests⟩ := joined_unique (fun entry member =>
      ⟨parts entry.1 (map_smaller member).1, parts entry.2 (map_smaller member).2⟩) (List.cons.inj texts).2 agree
    obtain ⟨keys, values⟩ := entries_same each
    exact ⟨.map (arranged_perm _).symm keys values (arranged_perm _), rests⟩
  | struct module module' entries others =>
    rw [encode_struct, encode_struct] at texts
    obtain ⟨rfl, rests, agree⟩ := module_unique (List.cons.inj texts).2 agree
    obtain ⟨each, rests⟩ := joined_unique (fun entry member =>
      ⟨parts entry.1 (struct_smaller member).1, parts entry.2 (struct_smaller member).2⟩) rests agree
    obtain ⟨keys, values⟩ := entries_same each
    exact ⟨.struct module (arranged_perm _).symm keys values (arranged_perm _), rests⟩
  | binary bytes others =>
    rw [encode_binary, encode_binary] at texts
    obtain ⟨rfl, rests⟩ := escape_unique (List.cons.inj texts).2
    exact ⟨.binary bytes, rests, agree.none⟩
  | absent => exact ⟨.atom "nil", List.append_cancel_left texts, fun known => (agree.one.2 known).2⟩
  | @atom name _ present present' =>
    rw [encode_atom _ present, encode_atom _ present'] at texts
    obtain ⟨rfl, rests⟩ := atom_unique stops otherStops (List.cons.inj texts).2 agree
    exact ⟨.atom name, rests⟩
  | integer value value' =>
    obtain ⟨same, rests⟩ := number_unique (int_numeric value) (int_numeric value') stops otherStops texts
    cases int_repr_inj same
    exact ⟨.integer value, rests, agree.none⟩
  | float value value' =>
    obtain ⟨same, rests⟩ := number_unique value.chars value'.chars stops otherStops texts
    cases decimal_inj same
    exact ⟨.float value, rests, agree.none⟩
  | whole value value' =>
    exact absurd (number_unique (int_numeric value) value'.chars stops otherStops texts).1 (int_ne_decimal value value')
  | part value value' =>
    exact absurd (number_unique value.chars (int_numeric value') stops otherStops texts).1.symm
      (int_ne_decimal value' value)

theorem encode_unique (plain : Bool) (term : Term) : Unique plain encode names Same term := by
  induction size : sizeOf term using Nat.strong_induction_on generalizing term with
  | _ bound ih => exact unique_of_parts fun part small => ih (sizeOf part) (size ▸ small) part rfl

/-! ## The same term has one text -/

/-- The text and the names of a term. -/
def Spelled (term other : Term) : Prop := encode term = encode other ∧ names term = names other

theorem items_spelled {items others : List Term} (each : List.Forall₂ Same items others)
    (parts : ∀ item ∈ items, ∀ other, Same item other → Spelled item other) :
    encodeItems items = encodeItems others ∧ namesItems items = namesItems others := by
  induction each with
  | nil => exact ⟨rfl, rfl⟩
  | @cons item other items others same _ ih =>
    obtain ⟨text, called⟩ := parts item List.mem_cons_self other same
    obtain ⟨texts, rest⟩ := ih fun item member => parts item (List.mem_cons_of_mem _ member)
    exact ⟨by rw [encodeItems, encodeItems, text, texts], by rw [namesItems, namesItems, called, rest]⟩

theorem entries_spelled {entries others : List (Term × Term)}
    (keys : List.Forall₂ Same (entries.map Prod.fst) (others.map Prod.fst))
    (values : List.Forall₂ Same (entries.map Prod.snd) (others.map Prod.snd))
    (parts : ∀ entry ∈ entries, (∀ other, Same entry.1 other → Spelled entry.1 other) ∧
      ∀ other, Same entry.2 other → Spelled entry.2 other) : entries.map spelling = others.map spelling := by
  induction entries generalizing others with
  | nil =>
    cases others with
    | nil => rfl
    | cons _ _ => cases keys
  | cons entry entries ih =>
    cases others with
    | nil => cases keys
    | cons other others =>
      cases keys with
      | cons key keys =>
      cases values with
      | cons value values =>
      obtain ⟨first, second⟩ := parts entry List.mem_cons_self
      obtain ⟨keyText, keyNames⟩ := first other.1 key
      obtain ⟨valueText, valueNames⟩ := second other.2 value
      rw [List.map_cons, List.map_cons, ih keys values fun entry member => parts entry (List.mem_cons_of_mem _ member),
        spelling, spelling, keyText, keyNames, valueText, valueNames]

theorem arranged_spelling {entries others : List (Term × Term)}
    (perm : (entries.map spelling).Perm (others.map spelling)) :
    (arranged entries).map spelling = (arranged others).map spelling := by
  have total : Std.Total spellingOrder := ⟨fun _ _ => le_total _ _⟩
  have trans : IsTrans (Term × Term) spellingOrder := ⟨fun _ _ _ => le_trans⟩
  have ordered (entries : List (Term × Term)) : ((arranged entries).map spelling).Pairwise
      fun left right => spellingRank left ≤ spellingRank right :=
    List.pairwise_map.mpr (List.pairwise_insertionSort spellingOrder entries)
  refine List.Perm.eq_of_pairwise (fun _ _ _ _ below above => spellingRank_injective (le_antisymm below above))
    (ordered entries) (ordered others) ?_
  exact ((arranged_perm entries).map spelling).trans (perm.trans ((arranged_perm others).map spelling).symm)

theorem map_spelled {entries others : List (Term × Term)} (perm : (entries.map spelling).Perm (others.map spelling)) :
    joined (encodePairs entries) = joined (encodePairs others) ∧
      sortedNames (spellings entries) = sortedNames (spellings others) := by
  have same := arranged_spelling perm
  constructor
  · have text (entries : List (Term × Term)) : joined (encodePairs entries) =
        separated (((arranged entries).map spelling).map fun entry => entry.1.1 ++ utf8 "=" ++ entry.1.2) := by
      rw [joined_eq, List.map_map]
      rfl
    rw [text, text, same]
  · have called (entries : List (Term × Term)) :
        sortedNames (spellings entries) = ((arranged entries).map spelling).flatMap Prod.snd := by
      rw [sortedNames_eq, List.flatMap_map]
      rfl
    rw [called, called, same]

theorem Same.spelled {term other : Term} (same : Same term other) : Spelled term other := by
  induction size : sizeOf term using Nat.strong_induction_on generalizing term other with
  | _ bound ih =>
    have parts (part : Term) (small : sizeOf part < sizeOf term) : ∀ other, Same part other → Spelled part other :=
      fun other same => ih (sizeOf part) (size ▸ small) same rfl
    cases same with
    | atom | integer | float | binary => exact ⟨rfl, rfl⟩
    | list each =>
      obtain ⟨texts, called⟩ := items_spelled each fun item member => parts item (list_smaller member)
      exact ⟨by rw [encode, encode, texts], by rw [names, names, called]⟩
    | tuple each =>
      obtain ⟨texts, called⟩ := items_spelled each fun item member => parts item (tuple_smaller member)
      exact ⟨by rw [encode, encode, texts], by rw [names, names, called]⟩
    | map first keys values second =>
      have each := entries_spelled keys values fun entry member =>
        have small := map_smaller (first.mem_iff.mpr member)
        ⟨parts entry.1 small.1, parts entry.2 small.2⟩
      obtain ⟨texts, called⟩ := map_spelled ((first.map spelling).trans (each ▸ second.map spelling))
      exact ⟨by rw [encode, encode, texts], by rw [names, names, called]⟩
    | struct module first keys values second =>
      have each := entries_spelled keys values fun entry member =>
        have small := struct_smaller (first.mem_iff.mpr member)
        ⟨parts entry.1 small.1, parts entry.2 small.2⟩
      obtain ⟨texts, called⟩ := map_spelled ((first.map spelling).trans (each ▸ second.map spelling))
      exact ⟨by rw [encode, encode, texts], by rw [names, names, called]⟩

/-- Under a hash without collisions two terms with one digest have one text. They are the same term
where the same names stand in them in the same order, and only there: so wherever all names are
plain. -/
theorem digest_identifies {sha256 : Bytes → Bytes} (injective : Function.Injective sha256) {first second : Term}
    (same : digest sha256 first = digest sha256 second) :
    encode first = encode second ∧ (Same first second ↔ names first = names second) ∧
      ((∀ name ∈ names first ++ names second, Plain name) → Same first second) := by
  have hashed : Base16.encode (sha256 (encode first)) = Base16.encode (sha256 (encode second)) := by
    have lists := congrArg String.toList same
    rw [digest, digest, String.toList_append, String.toList_append] at lists
    exact String.toList_inj.mp (List.append_cancel_left lists)
  have bytes := congrArg Base16.decode hashed
  rw [Base16.decode_encode, Base16.decode_encode] at bytes
  have text := injective (Option.some.inj bytes)
  have texts : encode first ++ [] = encode second ++ [] := by rw [text]
  have nothing : Stops [] := nofun
  refine ⟨text, ⟨fun same => same.spelled.2, fun called => ?_⟩, fun plain => ?_⟩
  · have agree : Agree false (names first) (names second) [] [] := congrArg (· ++ []) called
    exact (encode_unique false first second [] [] [] [] nothing nothing texts agree).1
  · exact (encode_unique true first second [] [] [] [] nothing nothing texts plain).1

theorem digest_identifies_step : Same (.list [.atom "a", .binary []]) (.list [.atom "a", .binary []]) :=
  (digest_identifies Function.injective_id rfl).2.1.mpr rfl

/-- A comma in the name of an atom is read as the one between two items. -/
theorem list_collides : encode (.list [.atom "a,:b"]) = encode (.list [.atom "a", .atom "b"]) ∧
    ¬ Same (.list [.atom "a,:b"]) (.list [.atom "a", .atom "b"]) := by
  refine ⟨by decide, fun same => ?_⟩
  cases same with
  | list each =>
  cases each with
  | cons _ rest => cases rest

end AshA2A.Semantic.CanonicalTermDigest
