import AshA2A.Sa2aCrypto.SignedMessage
import Mathlib.Tactic.Tauto

/-! Texts of bytes: hexadecimal digits, base64 for URLs and UTF-8. -/

namespace AshA2A

/-- The bytes of a text. -/
def utf8 (text : String) : Bytes := text.toList.flatMap String.utf8EncodeChar

@[simp] theorem utf8_ofList (chars : List Char) : utf8 (.ofList chars) = chars.flatMap String.utf8EncodeChar := by
  rw [utf8, String.toList_ofList]

theorem utf8_injective : Function.Injective utf8 := by
  intro first second same
  have bytes : first.toByteArray = second.toByteArray := by
    rw [← String.ofList_toList (s := first), ← String.ofList_toList (s := second), String.toByteArray_ofList,
      String.toByteArray_ofList, List.utf8Encode, List.utf8Encode]
    exact congrArg List.toByteArray same
  exact String.toByteArray_inj.mp bytes

/-- Where the separator first stands, both sides are the same. -/
theorem split_unique {separator : UInt8} {first second rest other : Bytes} (free : separator ∉ first)
    (otherFree : separator ∉ second) (same : first ++ separator :: rest = second ++ separator :: other) :
    first = second ∧ rest = other := by
  induction first generalizing second with
  | nil =>
    cases second with
    | nil => exact ⟨rfl, (List.cons.inj same).2⟩
    | cons byte second => exact absurd (List.mem_cons.mpr (.inl (List.cons.inj same).1)) otherFree
  | cons byte first ih =>
    cases second with
    | nil => exact absurd (List.mem_cons.mpr (.inl (List.cons.inj same).1.symm)) free
    | cons byte' second =>
      obtain ⟨rfl, tails⟩ := List.cons.inj same
      obtain ⟨rfl, rests⟩ := ih (fun member => free (List.mem_cons_of_mem _ member))
        (fun member => otherFree (List.mem_cons_of_mem _ member)) tails
      exact ⟨rfl, rests⟩

/-! ## Hexadecimal digits -/

namespace Base16

/-- `Base.encode16(bytes, case: :lower)`. -/
def encode (bytes : Bytes) : String :=
  .ofList (bytes.flatMap fun byte => [Nat.digitChar (byte.toNat / 16), Nat.digitChar (byte.toNat % 16)])

/-- In either case. -/
def digit (char : Char) : Option Nat :=
  if '0' ≤ char ∧ char ≤ '9' then some (char.toNat - '0'.toNat)
  else if 'a' ≤ char ∧ char ≤ 'f' then some (char.toNat - 'a'.toNat + 10)
  else if 'A' ≤ char ∧ char ≤ 'F' then some (char.toNat - 'A'.toNat + 10)
  else none

def pairs : List Char → Option Bytes
  | high :: low :: rest => do
    let high ← digit high
    let low ← digit low
    return UInt8.ofNat (high * 16 + low) :: (← pairs rest)
  | [_] => none
  | [] => some []

/-- `Base.decode16(text, case: :mixed)`. -/
def decode (text : String) : Option Bytes := pairs text.toList

theorem digit_digitChar : ∀ value : Fin 16, digit (Nat.digitChar value) = some value.val := by decide

theorem digitChar_size : ∀ value : Fin 16, (String.utf8EncodeChar (Nat.digitChar value)).length = 1 := by
  decide

theorem toLower_digitChar : ∀ value : Fin 16, (Nat.digitChar value).toLower = Nat.digitChar value := by decide

theorem halves (byte : UInt8) : byte.toNat / 16 < 16 ∧ byte.toNat % 16 < 16 := by
  have small := byte.toNat_lt
  omega

theorem decode_encode (bytes : Bytes) : decode (encode bytes) = some bytes := by
  rw [decode, encode, String.toList_ofList]
  induction bytes with
  | nil => rfl
  | cons byte rest ih =>
    obtain ⟨high, low⟩ := halves byte
    have whole : UInt8.ofNat (byte.toNat / 16 * 16 + byte.toNat % 16) = byte := by
      rw [Nat.mul_comm, Nat.div_add_mod, UInt8.ofNat_toNat]
    simp only [List.flatMap_cons, List.cons_append, List.nil_append, pairs, ih,
      digit_digitChar ⟨_, high⟩, digit_digitChar ⟨_, low⟩, Option.bind_eq_bind, Option.bind_some, whole]
    rfl

theorem encode_injective : Function.Injective encode := by
  intro first second same
  have decoded := congrArg decode same
  rwa [decode_encode, decode_encode, Option.some.injEq] at decoded

theorem encode_chars {bytes : Bytes} : ∀ char ∈ (encode bytes).toList, ∃ value : Fin 16, char = Nat.digitChar value := by
  intro char member
  rw [encode, String.toList_ofList] at member
  obtain ⟨byte, _, digit⟩ := List.mem_flatMap.mp member
  obtain ⟨high, low⟩ := halves byte
  simp only [List.mem_cons, List.not_mem_nil, or_false] at digit
  obtain rfl | rfl := digit
  · exact ⟨⟨_, high⟩, rfl⟩
  · exact ⟨⟨_, low⟩, rfl⟩

theorem encode_length (bytes : Bytes) : (encode bytes).toList.length = 2 * bytes.length := by
  rw [encode, String.toList_ofList]
  induction bytes with
  | nil => rfl
  | cons byte rest ih =>
    simp only [List.flatMap_cons, List.length_append, ih, List.length_cons, List.length_nil]
    omega

theorem utf8_encode_length (bytes : Bytes) : (utf8 (encode bytes)).length = 2 * bytes.length := by
  rw [← encode_length, utf8, List.length_flatMap]
  have ones : (encode bytes).toList.map (fun char => (String.utf8EncodeChar char).length) =
      (encode bytes).toList.map fun _ => 1 := by
    refine List.map_congr_left fun char member => ?_
    obtain ⟨value, rfl⟩ := encode_chars char member
    exact digitChar_size value
  rw [ones, List.map_const', List.sum_replicate_nat, Nat.mul_one]

theorem encode_lower (bytes : Bytes) : (encode bytes).toLower = encode bytes := by
  refine String.toList_injective ?_
  show ((encode bytes).map Char.toLower).toList = _
  rw [String.toList_map]
  refine (List.map_congr_left fun char member => ?_).trans (List.map_id _)
  obtain ⟨value, rfl⟩ := encode_chars char member
  exact toLower_digitChar value

end Base16

/-! ## Base64 -/

namespace Base64Url

open Sa2aCrypto

/-- The padding is ignored where it fills up the last group. -/
def unpadded (chars : List Char) : List Char :=
  if chars.length % 4 = 0 then
    match chars.reverse with
    | '=' :: '=' :: rest => rest.reverse
    | '=' :: rest => rest.reverse
    | _ => chars
  else chars

/-- `Base.url_decode64(text, padding: false)`. -/
def decode (text : String) : Option Bytes :=
  ((unpadded text.toList).mapM Base64.sextet).bind Base64.join

theorem sextet_char : ∀ value : Fin 64, Base64.sextet (Base64.char value) = some value.val := by decide

theorem char_ne_pad : ∀ value : Fin 64, Base64.char value ≠ '=' := by decide +kernel

theorem char_mem : ∀ value : Fin 64, Base64.char value ∈ Base64.alphabet := by decide

theorem alphabet_free : ∀ char ∈ '=' :: Base64.alphabet, 0x2e ∉ String.utf8EncodeChar char := by
  have each : ('=' :: Base64.alphabet).all (fun char => 0x2e ∉ String.utf8EncodeChar char) = true := by decide
  simpa only [List.all_eq_true, decide_eq_true_eq] using each

theorem values_small {bytes : Bytes} : ∀ value ∈ bytes.map UInt8.toNat, value < 256 := by
  intro value member
  obtain ⟨byte, _, rfl⟩ := List.mem_map.mp member
  exact byte.toNat_lt

theorem cut_small {values : List Nat} (small : ∀ value ∈ values, value < 256) :
    ∀ value ∈ Base64.cut values, value < 64 := by
  fun_induction Base64.cut values with
  | case1 a b c rest ih =>
    simp only [List.forall_mem_cons] at small ⊢
    refine ⟨by omega, by omega, by omega, by omega, ih small.2.2.2⟩
  | case2 a b =>
    simp only [List.forall_mem_cons] at small ⊢
    exact ⟨by omega, by omega, by omega, fun _ member => absurd member List.not_mem_nil⟩
  | case3 a =>
    simp only [List.forall_mem_cons] at small ⊢
    exact ⟨by omega, by omega, fun _ member => absurd member List.not_mem_nil⟩
  | case4 => exact fun _ member => absurd member List.not_mem_nil

theorem join_cut {values : List Nat} (small : ∀ value ∈ values, value < 256) :
    Base64.join (Base64.cut values) = some (values.map UInt8.ofNat) := by
  fun_induction Base64.cut values with
  | case1 a b c rest ih =>
    simp only [List.forall_mem_cons] at small
    have first : a / 4 * 4 + (a % 4 * 16 + b / 16) / 16 = a := by omega
    have second : (a % 4 * 16 + b / 16) % 16 * 16 + (b % 16 * 4 + c / 64) / 4 = b := by omega
    have third : (b % 16 * 4 + c / 64) % 4 * 64 + c % 64 = c := by omega
    rw [Base64.join, ih small.2.2.2, first, second, third]
    rfl
  | case2 a b =>
    simp only [List.forall_mem_cons] at small
    have first : a / 4 * 4 + (a % 4 * 16 + b / 16) / 16 = a := by omega
    have second : (a % 4 * 16 + b / 16) % 16 * 16 + b % 16 * 4 / 4 = b := by omega
    rw [Base64.join, first, second]
    rfl
  | case3 a =>
    have first : a / 4 * 4 + a % 4 * 16 / 16 = a := by omega
    rw [Base64.join, first]
    rfl
  | case4 => rfl

theorem unpadded_of_free {chars : List Char} (free : '=' ∉ chars) : unpadded chars = chars := by
  unfold unpadded
  split
  · split
    next given => exact absurd (List.mem_reverse.mp (given ▸ List.mem_cons_self ..)) free
    next given => exact absurd (List.mem_reverse.mp (given ▸ List.mem_cons_self ..)) free
    next => rfl
  · rfl

theorem mapM_sextet {values : List Nat} (small : ∀ value ∈ values, value < 64) :
    (values.map Base64.char).mapM Base64.sextet = some values := by
  induction values with
  | nil => rfl
  | cons value rest ih =>
    obtain ⟨first, others⟩ := List.forall_mem_cons.mp small
    simp [sextet_char ⟨value, first⟩, ih others]

theorem decode_encode (bytes : Bytes) : decode (Base64.encode bytes) = some bytes := by
  have bound : ∀ value ∈ bytes.map UInt8.toNat, value < 256 := values_small
  have small := cut_small bound
  have free : '=' ∉ (Base64.cut (bytes.map UInt8.toNat)).map Base64.char := by
    intro member
    obtain ⟨value, given, same⟩ := List.mem_map.mp member
    exact char_ne_pad ⟨value, small value given⟩ same
  rw [decode, Base64.encode, String.toList_ofList, unpadded_of_free free, mapM_sextet small, Option.bind_some,
    join_cut bound, List.map_map]
  simp [Function.comp_def]

/-- More sextets give the same bytes with others behind them. -/
theorem join_cut_append {values more : List Nat} {bytes : Bytes} (small : ∀ value ∈ values, value < 256)
    (joined : Base64.join (Base64.cut values ++ more) = some bytes) :
    ∃ further, bytes = values.map UInt8.ofNat ++ further ∧ (more ≠ [] → further ≠ []) := by
  fun_induction Base64.cut values generalizing bytes with
  | case1 a b c rest ih =>
    simp only [List.forall_mem_cons] at small
    have first : a / 4 * 4 + (a % 4 * 16 + b / 16) / 16 = a := by omega
    have second : (a % 4 * 16 + b / 16) % 16 * 16 + (b % 16 * 4 + c / 64) / 4 = b := by omega
    have third : (b % 16 * 4 + c / 64) % 4 * 64 + c % 64 = c := by omega
    rw [List.cons_append, List.cons_append, List.cons_append, List.cons_append, Base64.join, first, second, third] at joined
    obtain ⟨others, rest, rfl⟩ := Option.map_eq_some_iff.mp joined
    obtain ⟨further, rfl, grows⟩ := ih small.2.2.2 rest
    exact ⟨further, rfl, grows⟩
  | case2 a b =>
    simp only [List.forall_mem_cons] at small
    have first : a / 4 * 4 + (a % 4 * 16 + b / 16) / 16 = a := by omega
    have second : (a % 4 * 16 + b / 16) % 16 * 16 + b % 16 * 4 / 4 = b := by omega
    cases more with
    | nil =>
      rw [List.append_nil, Base64.join, first, second] at joined
      cases joined
      exact ⟨[], rfl, fun some => absurd rfl some⟩
    | cons d more =>
      simp only [List.cons_append, List.nil_append] at joined
      rw [Base64.join, first, second] at joined
      obtain ⟨others, -, rfl⟩ := Option.map_eq_some_iff.mp joined
      exact ⟨_ :: others, rfl, fun _ => List.cons_ne_nil _ _⟩
  | case3 a =>
    have first : a / 4 * 4 + a % 4 * 16 / 16 = a := by omega
    match more with
    | [] =>
      rw [List.append_nil, Base64.join, first] at joined
      cases joined
      exact ⟨[], rfl, fun some => absurd rfl some⟩
    | [c] =>
      simp only [List.cons_append, List.nil_append] at joined
      rw [Base64.join, first] at joined
      cases joined
      exact ⟨[_], rfl, fun _ => List.cons_ne_nil _ _⟩
    | c :: d :: more =>
      simp only [List.cons_append, List.nil_append] at joined
      rw [Base64.join, first] at joined
      obtain ⟨others, -, rfl⟩ := Option.map_eq_some_iff.mp joined
      exact ⟨_ :: _ :: others, rfl, fun _ => List.cons_ne_nil _ _⟩
  | case4 =>
    refine ⟨bytes, rfl, fun some none => ?_⟩
    subst none
    match more with
    | [] => exact some rfl
    | [_] => cases joined
    | [_, _] => cases joined
    | [_, _, _] => cases joined
    | _ :: _ :: _ :: _ :: _ =>
      obtain ⟨others, -, same⟩ := Option.map_eq_some_iff.mp joined
      cases same

theorem encode_mem {bytes : Bytes} : ∀ char ∈ (Base64.encode bytes).toList, char ∈ Base64.alphabet := by
  intro char member
  rw [Base64.encode, String.toList_ofList] at member
  obtain ⟨value, given, rfl⟩ := List.mem_map.mp member
  exact char_mem ⟨value, cut_small values_small value given⟩

theorem length_cut (values : List Nat) : values.length ≤ (Base64.cut values).length := by
  fun_induction Base64.cut values with
  | case1 a b c rest ih =>
    simp only [List.length_cons]
    omega
  | case2 a b => simp
  | case3 a => simp
  | case4 => simp

theorem length_encode {bytes : Bytes} : bytes.length ≤ (Base64.encode bytes).toList.length := by
  rw [Base64.encode, String.toList_ofList, List.length_map]
  have cut := length_cut (bytes.map UInt8.toNat)
  rwa [List.length_map] at cut

/-- A text that begins with what encodes bytes is decoded to these bytes and others behind them. -/
theorem decode_append {bytes decoded : Bytes} {extra : List Char} (free : '=' ∉ extra)
    (read : decode (.ofList ((Base64.encode bytes).toList ++ extra)) = some decoded) :
    ∃ more, decoded = bytes ++ more ∧ (extra ≠ [] → more ≠ []) := by
  have unpadded : '=' ∉ (Base64.encode bytes).toList ++ extra := by
    rw [List.mem_append]
    rintro (member | member)
    · exact absurd (encode_mem _ member) (by decide)
    · exact free member
  rw [decode, String.toList_ofList, unpadded_of_free unpadded] at read
  obtain ⟨values, mapped, joined⟩ := Option.bind_eq_some_iff.mp read
  rw [List.mapM_append] at mapped
  obtain ⟨before, one, mapped⟩ := Option.bind_eq_some_iff.mp mapped
  obtain ⟨after, two, same⟩ := Option.bind_eq_some_iff.mp mapped
  cases same
  rw [Base64.encode, String.toList_ofList, mapM_sextet (cut_small values_small)] at one
  cases one
  obtain ⟨more, rfl, grows⟩ := join_cut_append values_small joined
  refine ⟨more, by rw [List.map_map]; simp [Function.comp_def], fun some => grows fun none => ?_⟩
  subst none
  cases extra with
  | nil => exact some rfl
  | cons char extra =>
    obtain ⟨value, -, two⟩ := Option.bind_eq_some_iff.mp ((List.mapM_cons ..).symm.trans two)
    obtain ⟨others, -, two⟩ := Option.bind_eq_some_iff.mp two
    cases two

theorem mapM_sextet_mem {chars : List Char} {values : List Nat} (read : chars.mapM Base64.sextet = some values) :
    ∀ char ∈ chars, char ∈ Base64.alphabet := by
  induction chars generalizing values with
  | nil => exact fun _ member => absurd member List.not_mem_nil
  | cons char rest ih =>
    simp only [List.mapM_cons, Option.bind_eq_bind, Option.bind_eq_some_iff] at read
    obtain ⟨value, first, others, each, _⟩ := read
    refine List.forall_mem_cons.mpr ⟨by_contra fun absent => ?_, ih each⟩
    rw [Base64.sextet, List.idxOf?_eq_none_iff.mpr absent] at first
    cases first

theorem unpadded_mem {chars : List Char} : ∀ char ∈ chars, char ∈ unpadded chars ∨ char = '=' := by
  intro char member
  unfold unpadded
  split
  · split
    next rest given =>
      have within : char ∈ '=' :: '=' :: rest := given ▸ List.mem_reverse.mpr member
      simp only [List.mem_cons] at within
      rw [List.mem_reverse]
      tauto
    next rest _ given =>
      have within : char ∈ '=' :: rest := given ▸ List.mem_reverse.mpr member
      simp only [List.mem_cons] at within
      rw [List.mem_reverse]
      tauto
    next => exact .inl member
  · exact .inl member

/-- No text that is decoded has a full stop in it. -/
theorem free_of_decode {text : String} {bytes : Bytes} (read : decode text = some bytes) : 0x2e ∉ utf8 text := by
  intro member
  obtain ⟨values, each, _⟩ := Option.bind_eq_some_iff.mp read
  obtain ⟨char, within, stop⟩ := List.mem_flatMap.mp member
  have known : char ∈ '=' :: Base64.alphabet := by
    obtain kept | rfl := unpadded_mem char within
    · exact List.mem_cons_of_mem _ (mapM_sextet_mem each char kept)
    · exact List.mem_cons_self ..
  exact alphabet_free char known stop

end Base64Url

/-! ## Base64 with padding -/

namespace Base64Padded

open Sa2aCrypto

def alphabet : List Char := "ABCDEFGHIJKLMNOPQRSTUVWXYZabcdefghijklmnopqrstuvwxyz0123456789+/".toList

def sextet (char : Char) : Option Nat := alphabet.idxOf? char

def char (sextet : Nat) : Char := (alphabet[sextet]?).getD 'A'

/-- Up to a multiple of four. -/
def padding (length : Nat) : List Char := List.replicate ((4 - length % 4) % 4) '='

/-- `Base.encode64/1`. -/
def encode (bytes : Bytes) : String :=
  let chars := (Base64.cut (bytes.map UInt8.toNat)).map char
  .ofList (chars ++ padding chars.length)

/-- `Base.decode64/1`. -/
def decode (text : String) : Option Bytes :=
  if text.toList.length % 4 = 0 then ((Base64Url.unpadded text.toList).mapM sextet).bind Base64.join else none

theorem sextet_char : ∀ value : Fin 64, sextet (char value) = some value.val := by decide

theorem char_ne_pad : ∀ value : Fin 64, char value ≠ '=' := by decide +kernel

theorem mapM_sextet {values : List Nat} (small : ∀ value ∈ values, value < 64) :
    (values.map char).mapM sextet = some values := by
  induction values with
  | nil => rfl
  | cons value rest ih =>
    obtain ⟨first, others⟩ := List.forall_mem_cons.mp small
    simp [sextet_char ⟨value, first⟩, ih others]

theorem cut_length (values : List Nat) : (Base64.cut values).length % 4 ≠ 1 := by
  fun_induction Base64.cut values with
  | case1 a b c rest ih =>
    simp only [List.length_cons]
    omega
  | case2 a b => simp
  | case3 a => simp
  | case4 => simp

theorem unpadded_padding {chars : List Char} (free : '=' ∉ chars) (length : chars.length % 4 ≠ 1) :
    Base64Url.unpadded (chars ++ padding chars.length) = chars := by
  have last : ∀ rest, chars.reverse ≠ '=' :: rest := fun rest same =>
    free (List.mem_reverse.mp (same ▸ List.mem_cons_self ..))
  obtain none_left | two_left | one_left : chars.length % 4 = 0 ∨ chars.length % 4 = 2 ∨ chars.length % 4 = 3 := by
    omega
  · rw [padding, none_left]
    exact (congrArg Base64Url.unpadded (List.append_nil chars)).trans (Base64Url.unpadded_of_free free)
  · rw [padding, two_left]
    show Base64Url.unpadded (chars ++ ['=', '=']) = chars
    unfold Base64Url.unpadded
    rw [if_pos (by rw [List.length_append]; simp; omega), List.reverse_append]
    exact List.reverse_reverse chars
  · rw [padding, one_left]
    show Base64Url.unpadded (chars ++ ['=']) = chars
    unfold Base64Url.unpadded
    rw [if_pos (by rw [List.length_append]; simp; omega), List.reverse_append]
    show (match '=' :: chars.reverse with
      | '=' :: '=' :: rest => rest.reverse
      | '=' :: rest => rest.reverse
      | _ => chars ++ ['=']) = chars
    split
    next rest same => exact absurd (List.cons.inj same).2 (last rest)
    next same => rw [← (List.cons.inj same).2, List.reverse_reverse]
    next other => exact absurd rfl (other _)

theorem decode_encode (bytes : Bytes) : decode (encode bytes) = some bytes := by
  have bound : ∀ value ∈ bytes.map UInt8.toNat, value < 256 := by
    intro value member
    obtain ⟨byte, _, rfl⟩ := List.mem_map.mp member
    exact byte.toNat_lt
  have small := Base64Url.cut_small bound
  have free : '=' ∉ (Base64.cut (bytes.map UInt8.toNat)).map char := by
    intro member
    obtain ⟨value, given, same⟩ := List.mem_map.mp member
    exact char_ne_pad ⟨value, small value given⟩ same
  have length := cut_length (bytes.map UInt8.toNat)
  have whole : ((Base64.cut (bytes.map UInt8.toNat)).map char ++
      padding ((Base64.cut (bytes.map UInt8.toNat)).map char).length).length % 4 = 0 := by
    rw [padding, List.length_append, List.length_replicate]
    omega
  rw [decode, encode, String.toList_ofList, if_pos whole, unpadded_padding free (by rwa [List.length_map]),
    mapM_sextet small, Option.bind_some, Base64Url.join_cut bound, List.map_map]
  simp [Function.comp_def]

end Base64Padded

end AshA2A
