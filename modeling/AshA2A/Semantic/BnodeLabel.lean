import AshA2A.Passport.Encoding
import Mathlib.Algebra.Group.Nat.Defs

/-! The labels of blank nodes: any identifier, escaped with the characters that the grammar allows, and
read back. -/

namespace AshA2A.Semantic.BnodeLabel

abbrev Text := List Char

/-! ## Characters -/

def within (low high : Nat) (char : Char) : Bool := low ≤ char.toNat && char.toNat ≤ high

def pnCharsBase (char : Char) : Bool :=
  within 0x41 0x5A char || within 0x61 0x7A char || within 0xC0 0xD6 char || within 0xD8 0xF6 char ||
    within 0xF8 0x2FF char || within 0x370 0x37D char || within 0x37F 0x1FFF char || within 0x200C 0x200D char ||
    within 0x2070 0x218F char || within 0x2C00 0x2FEF char || within 0x3001 0xD7FF char || within 0xF900 0xFDCF char ||
    within 0xFDF0 0xFFFD char || within 0x10000 0xEFFFF char

def pnChars (char : Char) : Bool :=
  pnCharsBase char || char = '_' || char = '-' || char.isDigit || char.toNat = 0xB7 || within 0x300 0x36F char ||
    within 0x203F 0x2040 char

/-- Whether a character stands for itself at its place. -/
def pnOk (char : Char) (index last : Nat) : Bool :=
  let first := index ≠ 0 || pnCharsBase char || char.isDigit
  let ends := index ≠ last || pnChars char
  let middle := index = 0 || index = last || pnChars char || char = '.'
  first && ends && middle

/-! ## Encoding -/

/-- A number that fits, with zeros in front. -/
def hexDigits : Nat → Nat → Text
  | 0, _ => []
  | width + 1, number => hexDigits width (number / 16) ++ [(Nat.digitChar (number % 16)).toUpper]

def bnodeUchar (char : Char) : Text :=
  if char.toNat ≤ 0xFFFF then '_' :: 'u' :: hexDigits 4 char.toNat else '_' :: 'U' :: hexDigits 8 char.toNat

def encodeChar (index last : Nat) (char : Char) : Text :=
  if char = '_' then ['_', '_'] else if pnOk char index last then [char] else bnodeUchar char

def encodeChars (last : Nat) : Nat → Text → Text
  | _, [] => []
  | index, char :: rest => encodeChar index last char ++ encodeChars last (index + 1) rest

def encodeBnodeLabel (label : Text) : Text :=
  if label = [] then ['_', 'e'] else encodeChars (label.length - 1) 0 label

/-! ## Decoding -/

def unsigned (digits : Text) : Option Nat :=
  if digits = [] then none
  else (digits.mapM Base16.digit).map fun values => values.foldl (fun number value => number * 16 + value) 0

/-- `Integer.parse(digits, 16)` where nothing is left over: a sign may stand in front. -/
def parse : Text → Option Int
  | '+' :: digits => (unsigned digits).map Int.ofNat
  | '-' :: digits => (unsigned digits).map fun number => - Int.ofNat number
  | digits => (unsigned digits).map Int.ofNat

def unhex (digits : Text) : Option Nat :=
  match parse digits with
  | some code => if 0 ≤ code ∧ code ≤ 0x10FFFF then some code.toNat else none
  | none => none

/-- The code points, of which some may be none of a character. -/
def decodeBnode : Text → List Nat
  | '_' :: '_' :: rest => '_'.toNat :: decodeBnode rest
  | '_' :: 'u' :: a :: b :: c :: d :: rest =>
    match unhex [a, b, c, d] with
    | some code => code :: decodeBnode rest
    | none => '_'.toNat :: decodeBnode ('u' :: a :: b :: c :: d :: rest)
  | '_' :: 'U' :: a :: b :: c :: d :: e :: f :: g :: h :: rest =>
    match unhex [a, b, c, d, e, f, g, h] with
    | some code => code :: decodeBnode rest
    | none => '_'.toNat :: decodeBnode ('U' :: a :: b :: c :: d :: e :: f :: g :: h :: rest)
  | char :: rest => char.toNat :: decodeBnode rest
  | [] => []

/-- `List.to_string/1` raises where a code point is none of a character. -/
def toString (codes : List Nat) : Option Text :=
  if codes.all fun code => code.isValidChar then some (codes.map Char.ofNat) else none

def decodeBnodeLabel (label : Text) : Option Text :=
  if label = ['_', 'e'] then some [] else toString (decodeBnode label)

/-! ## The grammar -/

/-- `(PN_CHARS_U | [0-9]) ((PN_CHARS | '.')* PN_CHARS)?`. -/
def Legal : Text → Prop
  | [] => False
  | first :: rest => (pnCharsBase first = true ∨ first = '_' ∨ first.isDigit = true) ∧
      (∀ char ∈ rest, pnChars char = true ∨ char = '.') ∧ ∀ last ∈ rest.getLast?, pnChars last = true

/-- Reading from the left, no escape that is read gives a surrogate. -/
def Readable : Text → Bool
  | '_' :: '_' :: rest => Readable rest
  | '_' :: 'u' :: a :: b :: c :: d :: rest =>
    match unhex [a, b, c, d] with
    | some code => ! (0xD800 ≤ code && code ≤ 0xDFFF) && Readable rest
    | none => Readable ('u' :: a :: b :: c :: d :: rest)
  | '_' :: 'U' :: a :: b :: c :: d :: e :: f :: g :: h :: rest =>
    match unhex [a, b, c, d, e, f, g, h] with
    | some code => ! (0xD800 ≤ code && code ≤ 0xDFFF) && Readable rest
    | none => Readable ('U' :: a :: b :: c :: d :: e :: f :: g :: h :: rest)
  | _ :: rest => Readable rest
  | [] => true

/-! ## Digits -/

section Digits
variable {width number : Nat} {char : Char}

def upperDigit (value : Nat) : Char := (Nat.digitChar value).toUpper

theorem digit_upperDigit : ∀ value : Fin 16, Base16.digit (upperDigit value) = some value.val := by decide

theorem upperDigit_plain : ∀ value : Fin 16, pnChars (upperDigit value) = true ∧ upperDigit value ≠ '+' ∧
    upperDigit value ≠ '-' := by decide

theorem hexDigits_length (width number : Nat) : (hexDigits width number).length = width := by
  induction width generalizing number with
  | zero => rfl
  | succ width ih => rw [hexDigits, List.length_append, ih, List.length_singleton]

theorem hexDigits_mem (member : char ∈ hexDigits width number) : ∃ value : Fin 16, char = upperDigit value := by
  induction width generalizing number with
  | zero => cases member
  | succ width ih =>
    obtain earlier | last := List.mem_append.mp member
    · exact ih earlier
    · exact ⟨⟨number % 16, Nat.mod_lt _ (by decide)⟩, List.mem_singleton.mp last⟩

theorem hexDigits_values (width number : Nat) : ∃ values, (hexDigits width number).mapM Base16.digit = some values ∧
    values.foldl (fun number value => number * 16 + value) 0 = number % 16 ^ width := by
  induction width generalizing number with
  | zero => exact ⟨[], rfl, (Nat.mod_one number).symm⟩
  | succ width ih =>
    obtain ⟨values, read, value⟩ := ih (number / 16)
    have last : Base16.digit (upperDigit (number % 16)) = some (number % 16) :=
      digit_upperDigit ⟨number % 16, Nat.mod_lt _ (by decide)⟩
    refine ⟨values ++ [number % 16], ?_, ?_⟩
    · rw [hexDigits, List.mapM_append, read]
      simp only [List.mapM_cons, List.mapM_nil]
      rw [show (Nat.digitChar (number % 16)).toUpper = upperDigit (number % 16) from rfl, last]
      rfl
    · rw [List.foldl_append, value, List.foldl_cons, List.foldl_nil, Nat.pow_succ, Nat.mul_comm (16 ^ width), Nat.mod_mul]
      omega

theorem parse_hexDigits (some : width ≠ 0) : parse (hexDigits width number) = .some ((number % 16 ^ width : Nat) : Int) := by
  obtain ⟨values, read, value⟩ := hexDigits_values width number
  have length := hexDigits_length width number
  have plain : ∀ char ∈ hexDigits width number, char ≠ '+' ∧ char ≠ '-' := by
    intro char member
    obtain ⟨digit, rfl⟩ := hexDigits_mem member
    exact (upperDigit_plain digit).2
  cases digits : hexDigits width number with
  | nil => simp [digits] at length; exact absurd length.symm some
  | cons first rest =>
    rw [digits] at read plain
    obtain ⟨plus, minus⟩ := plain first List.mem_cons_self
    unfold parse
    split
    case h_1 same => cases same; exact absurd rfl plus
    case h_2 same => cases same; exact absurd rfl minus
    case h_3 =>
      rw [unsigned, if_neg (List.cons_ne_nil _ _), read]
      exact congrArg (fun number : Nat => Option.some (number : Int)) value

theorem unhex_hexDigits (some : width ≠ 0) (fits : number < 16 ^ width) (small : number ≤ 0x10FFFF) :
    unhex (hexDigits width number) = .some number := by
  have within : (0 : Int) ≤ number ∧ (number : Int) ≤ 0x10FFFF := ⟨by omega, by omega⟩
  rw [unhex, parse_hexDigits some, Nat.mod_eq_of_lt fits]
  exact if_pos within

end Digits

/-! ## Reading back -/

section Reading
variable {char : Char} {tail : Text}

theorem decodeBnode_plain (other : char ≠ '_') : decodeBnode (char :: tail) = char.toNat :: decodeBnode tail := by
  rw [decodeBnode]
  all_goals simp [other]

theorem bnodeUchar_read : decodeBnode (bnodeUchar char ++ tail) = char.toNat :: decodeBnode tail := by
  have valid := char.valid
  unfold bnodeUchar
  split
  case isTrue small =>
    have read : unhex (hexDigits 4 char.toNat) = some char.toNat := unhex_hexDigits (by decide) (by omega) (by omega)
    obtain ⟨a, b, c, d, digits⟩ : ∃ a b c d, hexDigits 4 char.toNat = [a, b, c, d] := ⟨_, _, _, _, rfl⟩
    rw [digits] at read ⊢
    simp only [List.cons_append, List.nil_append]
    rw [decodeBnode, read]
  case isFalse large =>
    have bound : char.toNat ≤ 0x10FFFF := by
      have scalar : char.toNat.isValidChar := valid
      unfold Nat.isValidChar at scalar
      omega
    have read : unhex (hexDigits 8 char.toNat) = some char.toNat := unhex_hexDigits (by decide) (by omega) bound
    obtain ⟨a, b, c, d, e, f, g, h, digits⟩ : ∃ a b c d e f g h, hexDigits 8 char.toNat = [a, b, c, d, e, f, g, h] :=
      ⟨_, _, _, _, _, _, _, _, rfl⟩
    rw [digits] at read ⊢
    simp only [List.cons_append, List.nil_append]
    rw [decodeBnode, read]

theorem encodeChar_read (index last : Nat) :
    decodeBnode (encodeChar index last char ++ tail) = char.toNat :: decodeBnode tail := by
  unfold encodeChar
  split
  case isTrue same =>
    subst same
    simp only [List.cons_append, List.nil_append]
    rw [decodeBnode]
  case isFalse other =>
    split
    · exact decodeBnode_plain other
    · exact bnodeUchar_read

theorem encodeChars_read (last index : Nat) (label : Text) :
    decodeBnode (encodeChars last index label) = label.map Char.toNat := by
  induction label generalizing index with
  | nil => rfl
  | cons char rest ih => rw [encodeChars, encodeChar_read, ih, List.map_cons]

theorem toString_chars (label : Text) : toString (label.map Char.toNat) = some label := by
  have valid : (label.map Char.toNat).all (fun code => code.isValidChar) = true := by
    simp only [List.all_map, List.all_eq_true, Function.comp_apply, decide_eq_true_eq]
    exact fun char _ => char.valid
  have back : (label.map Char.toNat).map Char.ofNat = label := by
    rw [List.map_map]
    exact (List.map_congr_left fun char _ => Char.ofNat_toNat char).trans (List.map_id _)
  rw [toString, if_pos valid, back]

theorem encodeChar_ne_nil (index last : Nat) : encodeChar index last char ≠ [] := by
  unfold encodeChar bnodeUchar
  repeat' split
  all_goals exact List.cons_ne_nil _ _

/-- Only the empty identifier is written with the mark for it. -/
theorem encodeChars_ne_mark (last index : Nat) (label : Text) : encodeChars last index label ≠ ['_', 'e'] := by
  intro same
  have read := encodeChars_read last index label
  rw [same, show decodeBnode ['_', 'e'] = ['_', 'e'].map Char.toNat from rfl] at read
  have chars := congrArg toString read
  rw [toString_chars, toString_chars] at chars
  obtain rfl := Option.some.inj chars
  rw [encodeChars, encodeChar, if_pos rfl] at same
  cases same

theorem decode_encode (identifier : Text) : decodeBnodeLabel (encodeBnodeLabel identifier) = some identifier := by
  unfold encodeBnodeLabel
  split
  case isTrue empty => rw [empty]; rfl
  case isFalse some =>
    rw [decodeBnodeLabel, if_neg (encodeChars_ne_mark _ _ _), encodeChars_read, toString_chars]

theorem encode_injective : Function.Injective encodeBnodeLabel := by
  intro first second same
  have read := decode_encode first
  rw [same, decode_encode] at read
  exact (Option.some.inj read).symm

end Reading

/-! ## Legal labels -/

section Legality
variable {char : Char} {index last : Nat} {text rest : Text}

theorem pnChars_underscore : pnChars '_' = true := rfl

theorem bnodeUchar_chars : ∀ other ∈ bnodeUchar char, pnChars other = true := by
  have digits : ∀ width, ∀ other ∈ hexDigits width char.toNat, pnChars other = true := by
    intro width other member
    obtain ⟨value, rfl⟩ := hexDigits_mem member
    exact (upperDigit_plain value).1
  intro other member
  unfold bnodeUchar at member
  split at member
  all_goals
    obtain rfl | rfl | member := by simpa using member
    · rfl
    · rfl
    · exact digits _ _ member

theorem pnChars_of_base (base : pnCharsBase char = true) : pnChars char = true := by
  simp [pnChars, base]

theorem pnChars_of_digit (digit : char.isDigit = true) : pnChars char = true := by
  simp [pnChars, digit]

/-- A full stop is written as it is, but not at either end. -/
theorem pnOk_cases (fits : pnOk char index last = true) :
    (index = 0 → pnCharsBase char = true ∨ char.isDigit = true) ∧ (pnChars char = true ∨ index ≠ last ∧ char = '.') := by
  simp only [pnOk, Bool.and_eq_true, Bool.or_eq_true, decide_eq_true_eq] at fits
  obtain ⟨⟨first, ends⟩, middle⟩ := fits
  have start : index = 0 → pnCharsBase char = true ∨ char.isDigit = true := by
    intro zero
    obtain (other | base) | digit := first
    · exact absurd zero other
    · exact .inl base
    · exact .inr digit
  refine ⟨start, or_iff_not_imp_left.mpr fun odd => ?_⟩
  have inner : index ≠ last := ends.resolve_right odd
  obtain ((zero | same) | chars) | stop := middle
  · obtain base | digit := start zero
    · exact absurd (pnChars_of_base base) odd
    · exact absurd (pnChars_of_digit digit) odd
  · exact absurd same inner
  · exact absurd chars odd
  · exact ⟨inner, stop⟩

theorem encodeChar_chars : ∀ other ∈ encodeChar index last char, pnChars other = true ∨ index ≠ last ∧ other = '.' := by
  intro other member
  unfold encodeChar at member
  split at member
  · obtain rfl | rfl : other = '_' ∨ other = '_' := by simpa using member
    · exact .inl rfl
    · exact .inl rfl
  · split at member
    case isTrue fits =>
      obtain rfl := List.mem_singleton.mp member
      exact (pnOk_cases fits).2
    case isFalse => exact .inl (bnodeUchar_chars other member)

theorem encodeChar_head : ∃ first rest, encodeChar 0 last char = first :: rest ∧
    (pnCharsBase first = true ∨ first = '_' ∨ first.isDigit = true) := by
  unfold encodeChar
  split
  · exact ⟨'_', ['_'], rfl, .inr (.inl rfl)⟩
  · split
    case isTrue fits =>
      refine ⟨char, [], rfl, ?_⟩
      obtain base | digit := (pnOk_cases fits).1 rfl
      · exact .inl base
      · exact .inr (.inr digit)
    case isFalse =>
      unfold bnodeUchar
      split
      · exact ⟨'_', _, rfl, .inr (.inl rfl)⟩
      · exact ⟨'_', _, rfl, .inr (.inl rfl)⟩

/-- The last piece ends in no full stop. -/
theorem encodeChars_chars (label : Text) (end_ : index + label.length = last + 1) :
    (∀ other ∈ encodeChars last index label, pnChars other = true ∨ other = '.') ∧
      ∀ other ∈ (encodeChars last index label).getLast?, pnChars other = true := by
  induction label generalizing index with
  | nil => exact ⟨nofun, by simp [encodeChars]⟩
  | cons char rest ih =>
    have behind : index + 1 + rest.length = last + 1 := by rw [List.length_cons] at end_; omega
    obtain ⟨chars, final⟩ := ih behind
    have piece := @encodeChar_chars char index last
    rw [encodeChars]
    refine ⟨fun other member => ?_, fun other member => ?_⟩
    · obtain own | later := List.mem_append.mp member
      · exact (piece other own).imp_right And.right
      · exact chars other later
    · cases rest with
      | nil =>
        rw [encodeChars, List.append_nil] at member
        obtain chars | ⟨inner, -⟩ := piece other (List.mem_of_getLast? member)
        · exact chars
        · exact absurd (by simpa using end_) inner
      | cons next rest =>
        have some : encodeChars last (index + 1) (next :: rest) ≠ [] := by
          rw [encodeChars]
          exact List.append_ne_nil_of_left_ne_nil (encodeChar_ne_nil _ _) _
        have closes : (encodeChars last (index + 1) (next :: rest)).getLast? ≠ none := by
          rwa [ne_eq, List.getLast?_eq_none_iff]
        obtain ⟨ending, closes⟩ := Option.ne_none_iff_exists'.mp closes
        rw [List.getLast?_append, closes, Option.some_or] at member
        exact final other (closes.trans member)

theorem legal_cons {first : Char} (starts : pnCharsBase first = true ∨ first = '_' ∨ first.isDigit = true)
    (chars : ∀ char ∈ first :: rest, pnChars char = true ∨ char = '.')
    (final : ∀ last ∈ (first :: rest).getLast?, pnChars last = true) : Legal (first :: rest) := by
  refine ⟨starts, fun char member => chars char (List.mem_cons_of_mem _ member), fun last member => final last ?_⟩
  cases rest with
  | nil => cases member
  | cons => exact member

theorem encode_legal (identifier : Text) : Legal (encodeBnodeLabel identifier) := by
  unfold encodeBnodeLabel
  split
  case isTrue =>
    have plain : ∀ char ∈ ['_', 'e'], pnChars char = true :=
      List.forall_mem_cons.mpr ⟨rfl, List.forall_mem_cons.mpr ⟨rfl, nofun⟩⟩
    exact legal_cons (.inr (.inl rfl)) (fun char member => .inl (plain char member))
      fun last member => plain last (List.mem_of_getLast? member)
  case isFalse some =>
    cases identifier with
    | nil => exact absurd rfl some
    | cons char rest =>
      have whole : 0 + (char :: rest).length = (char :: rest).length - 1 + 1 := by rw [List.length_cons]; omega
      obtain ⟨chars, final⟩ := encodeChars_chars (char :: rest) whole
      obtain ⟨first, more, head, starts⟩ := @encodeChar_head char ((char :: rest).length - 1)
      rw [encodeChars, head, List.cons_append] at chars final ⊢
      exact legal_cons starts chars final

end Legality

/-! ## Labels that are read -/

section Labels
variable {label : Text}

theorem valid_iff {code : Nat} (small : code ≤ 0x10FFFF) :
    decide code.isValidChar = ! (0xD800 ≤ code && code ≤ 0xDFFF) := by
  unfold Nat.isValidChar
  by_cases low : 0xD800 ≤ code <;> by_cases high : code ≤ 0xDFFF <;> simp [low, high] <;> omega

theorem unhex_small {digits : Text} {code : Nat} (read : unhex digits = some code) : code ≤ 0x10FFFF := by
  unfold unhex at read
  split at read
  · split at read
    case isTrue within => cases read; omega
    case isFalse => cases read
  · cases read

theorem valid_char (char : Char) : decide char.toNat.isValidChar = true := decide_eq_true char.valid

theorem decodeBnode_valid (label : Text) : (decodeBnode label).all (fun code => code.isValidChar) = Readable label := by
  fun_induction Readable label with
  | case1 rest ih => rw [decodeBnode, List.all_cons, valid_char, Bool.true_and, ih]
  | case2 a b c d rest code read ih =>
    rw [decodeBnode, read]
    dsimp only
    rw [List.all_cons, valid_iff (unhex_small read), ih]
  | case3 a b c d rest read ih =>
    rw [decodeBnode, read]
    dsimp only
    rw [List.all_cons, valid_char, Bool.true_and, ih]
  | case4 a b c d e f g h rest code read ih =>
    rw [decodeBnode, read]
    dsimp only
    rw [List.all_cons, valid_iff (unhex_small read), ih]
  | case5 a b c d e f g h rest read ih =>
    rw [decodeBnode, read]
    dsimp only
    rw [List.all_cons, valid_char, Bool.true_and, ih]
  | case6 char rest double short long ih =>
    rw [decodeBnode, List.all_cons, valid_char, Bool.true_and, ih]
    · exact double
    · exact short
    · exact long
  | case7 => rfl

theorem decode_reads : decodeBnodeLabel label ≠ none ↔ Readable label = true := by
  unfold decodeBnodeLabel
  split
  case isTrue mark =>
    subst mark
    exact iff_of_true nofun rfl
  case isFalse =>
    rw [toString, decodeBnode_valid]
    cases Readable label <;> simp

end Labels

/-- A faithful codec, except that a label may name a surrogate. -/
theorem label_codec_iff (identifier label : Text) :
    (Legal (encodeBnodeLabel identifier) ∧
      (∀ other, encodeBnodeLabel other = encodeBnodeLabel identifier → other = identifier) ∧
      decodeBnodeLabel (encodeBnodeLabel identifier) = some identifier ∧ decodeBnodeLabel label ≠ none) ↔
    Readable label = true := by
  rw [decode_reads]
  constructor
  · intro ⟨_, _, _, reads⟩
    exact reads
  · intro reads
    exact ⟨encode_legal identifier, fun other same => encode_injective same, decode_encode identifier, reads⟩

theorem surrogate_raises : decodeBnodeLabel "_uD800".toList = none := by decide

end AshA2A.Semantic.BnodeLabel
