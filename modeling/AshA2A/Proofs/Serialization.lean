import AshA2A.Semantic.Serialize
import AshA2A.Term
import Mathlib.Data.List.Induction
import Mathlib.Data.List.TakeWhile

/-! Which lists of triples the serializers refuse, set against the grammar of RDF 1.1. -/

namespace AshA2A.Semantic.Serialize

open BnodeLabel (within)

/-! ## The grammar -/

/-- No character of an `IRIREF`. -/
def excluded (char : Char) : Bool := char.toNat ≤ 0x20 || iriForbidden.contains char

/-- A control character that is no white space. -/
def control (char : Char) : Bool := char.toNat ≤ 0x08 || within 0x0E 0x1F char

def IsText (bytes : Bytes) : Prop := ∃ chars, encoded chars = bytes

/-- It is no relative one. -/
def Absolute (iri : Bytes) : Prop :=
  ∃ first others rest, iri = first :: (others ++ 0x3A :: rest) ∧ isLetter first = true ∧
    ∀ byte ∈ others, isSchemeByte byte = true

def IriWithout (banned : Char → Bool) (iri : Bytes) : Prop :=
  Absolute iri ∧ ∃ chars, encoded chars = iri ∧ ∀ char ∈ chars, banned char = false

def Subtag (fits : UInt8 → Bool) (part : Bytes) : Prop := part ≠ [] ∧ part.length ≤ 8 ∧ ∀ byte ∈ part, fits byte = true

/-- `[a-zA-Z]{1,8}(-[a-zA-Z0-9]{1,8})*`. -/
def LanguageTag (tag : Bytes) : Prop :=
  ∃ primary others, tag = [0x2D].intercalate (primary :: others) ∧ Subtag isLetter primary ∧
    ∀ part ∈ others, Subtag isAlphanumeric part

/-- What an IRI is, and what a language tag. -/
structure Rules where
  iri : Bytes → Prop
  tag : Bytes → Prop

def grammar : Rules := ⟨IriWithout excluded, LanguageTag⟩

/-- What the serializers take: in an IRI also a control character, but no white space that is not ASCII, and
behind a language tag a line feed. -/
def taken : Rules where
  iri := IriWithout fun char => excluded char && ! control char || wideSpace char
  tag tag := LanguageTag tag ∨ ∃ front, tag = front ++ [0x0A] ∧ LanguageTag front

def DatatypeFits (rules : Rules) (options : Value) : Prop :=
  ∃ datatype, keywordGet options "datatype" = .ok datatype ∧
    (datatype.falsy = true ∨ datatype.falsy = false ∧ ∃ iri, datatype = .binary iri ∧ rules.iri iri)

def Decorated (rules : Rules) (options : Value) : Prop :=
  ∃ language, keywordGet options "language" = .ok language ∧
    (language.falsy = false ∧ (∃ tag, language = .binary tag ∧ rules.tag tag) ∨
      language.falsy = true ∧ DatatypeFits rules options)

/-- A term at its place. Where no kind is given an object is a literal, if it is no IRI. -/
def Fits (rules : Rules) (position : Position) : Value → Prop
  | .tuple [.atom kind, .binary text] =>
    kind = "iri" ∧ rules.iri text ∨ kind = "bnode" ∧ position ≠ .predicate ∧ IsText text ∨
      kind = "literal" ∧ position = .object ∧ IsText text
  | .tuple [.atom kind, .binary text, options] =>
    kind = "literal" ∧ position = .object ∧ isList options = true ∧ Decorated rules options ∧ IsText text
  | .binary text => if position = .object then IsText text else rules.iri text
  | _ => False

def Statement (rules : Rules) (triple : Value) : Prop :=
  ∃ subject predicate object, triple.member "subject" = some subject ∧ triple.member "predicate" = some predicate ∧
    triple.member "object" = some object ∧ Fits rules .subject subject ∧ Fits rules .predicate predicate ∧
    Fits rules .object object

/-! ## Where they raise -/

def Unreadable (options : Value) : Prop :=
  keywordGet options "language" = .error .raised ∨
    ∃ language, keywordGet options "language" = .ok language ∧ language.falsy = true ∧
      keywordGet options "datatype" = .error .raised

/-- A literal that is no text, or options that are no keywords. -/
def Crashes : Value → Prop
  | .tuple [.atom kind, .binary text] => kind = "literal" ∧ ¬ IsText text
  | .tuple [.atom kind, .binary text, options] =>
    kind = "literal" ∧ isList options = true ∧ (Unreadable options ∨ Decorated taken options ∧ ¬ IsText text)
  | .binary text => ¬ IsText text
  | _ => False

/-- The object is looked at where the subject and the predicate are taken. -/
def Crashing (triple : Value) : Prop :=
  ∃ subject predicate object, triple.member "subject" = some subject ∧ triple.member "predicate" = some predicate ∧
    triple.member "object" = some object ∧ Fits taken .subject subject ∧ Fits taken .predicate predicate ∧
    Crashes object

/-! ## Texts -/

section Texts
variable {bytes front tail : Bytes} {chars : List Char}

theorem utf8Encode_eq (chars : List Char) : chars.utf8Encode = (encoded chars).toByteArray := rfl

theorem charlist_encoded (chars : List Char) : charlist (encoded chars) = some chars := by
  have array : (⟨(encoded chars).toArray⟩ : ByteArray) = (String.ofList chars).toByteArray := by
    rw [String.toByteArray_ofList, utf8Encode_eq]
    exact ByteArray.ext List.data_toByteArray.symm
  have valid : (String.ofList chars).toByteArray.IsValidUTF8 := String.isValidUTF8 _
  rw [charlist, array, String.fromUTF8?, dif_pos valid]
  exact congrArg some (String.toList_ofList ..)

theorem charlist_iff : charlist bytes = some chars ↔ encoded chars = bytes := by
  constructor
  · intro read
    unfold charlist String.fromUTF8? at read
    split at read
    case isTrue valid =>
      obtain ⟨others, same⟩ := valid
      have bytes_eq : encoded others = bytes := by
        have arrays := congrArg ByteArray.data same
        rw [utf8Encode_eq, List.data_toByteArray] at arrays
        exact (Array.toList_inj.mpr arrays).symm
      have again := charlist_encoded others
      rw [bytes_eq] at again
      unfold charlist String.fromUTF8? at again
      rw [dif_pos ⟨others, same⟩] at again
      rw [← bytes_eq]
      exact congrArg encoded (Option.some.inj (read.symm.trans again))
    case isFalse => cases read
  · intro same
    rw [← same, charlist_encoded]

theorem isText_iff : IsText bytes ↔ charlist bytes ≠ none := by
  rw [Option.ne_none_iff_exists']
  exact exists_congr fun _ => charlist_iff.symm

theorem not_isText_iff : ¬ IsText bytes ↔ charlist bytes = none := by
  rw [isText_iff, not_not]

theorem continuation (value : Nat) : ¬ UInt8.ofNat (value % 64 + 128) < 0x80 := by
  rw [UInt8.lt_iff_toNat_lt, UInt8.toNat_ofNat', Nat.mod_eq_of_lt (by omega)]
  exact Nat.not_lt.mpr (Nat.le_add_left 128 _)

/-- Only the encoding of an ASCII character ends in such a byte. -/
theorem encodeChar_ascii {char : Char} {byte : UInt8} (small : byte < 0x80)
    (same : String.utf8EncodeChar char = front ++ [byte]) : front = [] := by
  have last := congrArg List.getLast? same
  rw [List.getLast?_concat] at last
  unfold String.utf8EncodeChar at same last
  dsimp only at same last
  split at same
  case isTrue => exact (List.append_eq_singleton_iff.mp same.symm).resolve_right (by simp) |>.1
  case isFalse large =>
    rw [if_neg large] at last
    split at last
    · cases last; exact absurd small (continuation _)
    · split at last <;> cases last <;> exact absurd small (continuation _)

theorem isText_front (ascii : ∀ byte ∈ tail, byte < 0x80) (text : IsText (front ++ tail)) : IsText front := by
  induction tail using List.reverseRecOn with
  | nil => rwa [List.append_nil] at text
  | append_singleton tail byte ih =>
    have small := ascii byte (List.mem_append_right _ List.mem_cons_self)
    refine ih (fun other member => ascii other (List.mem_append_left _ member)) ?_
    obtain ⟨chars, same⟩ := text
    rw [← List.append_assoc] at same
    induction chars using List.reverseRecOn with
    | nil => exact absurd same.symm (List.append_ne_nil_of_right_ne_nil _ (List.cons_ne_nil _ _))
    | append_singleton before char _ =>
      rw [encoded, List.flatMap_append, List.flatMap_singleton] at same
      obtain none | ⟨own, last, closes⟩ := List.eq_nil_or_concat (String.utf8EncodeChar char)
      · exact absurd none String.utf8EncodeChar_ne_nil
      · rw [closes, List.concat_eq_append, ← List.append_assoc] at same
        obtain ⟨rest, ends⟩ := List.append_inj' same rfl
        cases ends
        rw [List.concat_eq_append] at closes
        rw [encodeChar_ascii small closes, List.append_nil] at rest
        exact ⟨before, rest⟩

end Texts

/-! ## Patterns -/

section Patterns
variable {bytes : Bytes} {chars : List Char}

theorem colon_ends : isSchemeByte 0x3A = false := by decide

theorem schemeRe_iff : schemeRe bytes = true ↔ Absolute bytes := by
  constructor
  · intro found
    cases bytes with
    | nil => cases found
    | cons first rest =>
      simp only [schemeRe, Bool.and_eq_true, decide_eq_true_eq] at found
      obtain ⟨letter, colon⟩ := found
      obtain ⟨behind, split⟩ := List.head?_eq_some_iff.mp colon
      refine ⟨first, rest.takeWhile isSchemeByte, behind, ?_, letter, fun byte member => ?_⟩
      · rw [← split, List.takeWhile_append_dropWhile]
      · exact List.all_eq_true.mp List.all_takeWhile byte member
  · rintro ⟨first, others, rest, rfl, letter, scheme⟩
    have skipped : others.dropWhile isSchemeByte = [] := List.dropWhile_eq_nil_iff.mpr scheme
    simp only [schemeRe, letter, Bool.true_and, decide_eq_true_eq]
    rw [List.dropWhile_append, skipped, List.isEmpty_nil, if_pos rfl, List.dropWhile_cons, colon_ends]
    rfl

theorem untilEnd_iff {pattern : Bytes → Bool} :
    untilEnd pattern bytes = true ↔ pattern bytes = true ∨ ∃ front, bytes = front ++ [0x0A] ∧ pattern front = true := by
  simp only [untilEnd, Bool.or_eq_true, Bool.and_eq_true, decide_eq_true_eq]
  refine or_congr_right ⟨fun ⟨last, fits⟩ => ?_, ?_⟩
  · exact ⟨bytes.dropLast, (List.dropLast_append_getLast? _ last).symm, fits⟩
  · rintro ⟨front, rfl, fits⟩
    rw [List.getLast?_concat, List.dropLast_concat]
    exact ⟨rfl, fits⟩

theorem subtag_iff {fits : UInt8 → Bool} : subtag fits bytes = true ↔ Subtag fits bytes := by
  simp only [subtag, Subtag, Bool.and_eq_true, decide_eq_true_eq, List.all_eq_true, and_assoc]

theorem hyphen_free {fits : UInt8 → Bool} (other : fits 0x2D = false) (part : Subtag fits bytes) : 0x2D ∉ bytes := by
  intro member
  have fit := part.2.2 _ member
  rw [other] at fit
  cases fit

theorem subtags_iff : subtags bytes = true ↔ LanguageTag bytes := by
  constructor
  · intro fits
    unfold subtags at fits
    split at fits
    case h_1 => cases fits
    case h_2 primary others split =>
      rw [Bool.and_eq_true, subtag_iff, List.all_eq_true] at fits
      refine ⟨primary, others, ?_, fits.1, fun part member => subtag_iff.mp (fits.2 part member)⟩
      rw [← split, List.intercalate_splitOn]
  · rintro ⟨primary, others, rfl, first, rest⟩
    have free : ∀ part ∈ primary :: others, 0x2D ∉ part :=
      List.forall_mem_cons.mpr ⟨hyphen_free (by decide) first, fun part member => hyphen_free (by decide) (rest part member)⟩
    unfold subtags
    rw [List.splitOn_intercalate _ free (List.cons_ne_nil _ _)]
    dsimp only
    rw [Bool.and_eq_true, subtag_iff, List.all_eq_true]
    exact ⟨first, fun part member => subtag_iff.mpr (rest part member)⟩

theorem langtagRe_iff : langtagRe bytes = true ↔ taken.tag bytes := by
  unfold langtagRe
  rw [untilEnd_iff, subtags_iff]
  exact or_congr_right (exists_congr fun _ => and_congr_right fun _ => subtags_iff)

theorem localByte_ascii {byte : UInt8} (fits : isLocalByte byte = true ∨ byte = 0x0A) : byte < 0x80 := by
  simp only [isLocalByte, isAlphanumeric, isLetter, isDigit, Bool.or_eq_true, Bool.and_eq_true, decide_eq_true_eq,
    UInt8.le_iff_toNat_le, ← UInt8.toNat_inj] at fits
  rw [UInt8.lt_iff_toNat_lt]
  simp only [UInt8.reduceToNat] at fits ⊢
  omega

theorem localName_bytes (name : localName bytes = true) : ∀ byte ∈ bytes, isLocalByte byte = true := by
  cases bytes with
  | nil => cases name
  | cons first rest =>
    simp only [localName, Bool.and_eq_true, Bool.or_eq_true, decide_eq_true_eq, List.all_eq_true] at name
    refine List.forall_mem_cons.mpr ⟨?_, name.2⟩
    obtain letter | same := name.1
    · simp [isLocalByte, isAlphanumeric, letter]
    · simp [isLocalByte, same]

theorem safeLocal_ascii (safe : safePnLocalRe bytes = true) : ∀ byte ∈ bytes, byte < 0x80 := by
  intro byte member
  apply localByte_ascii
  obtain name | ⟨front, rfl, name⟩ := untilEnd_iff.mp safe
  · exact .inl (localName_bytes name byte member)
  · obtain inside | last := List.mem_append.mp member
    · exact .inl (localName_bytes name byte inside)
    · exact .inr (List.mem_singleton.mp last)

theorem forbidden_printable : ∀ char ∈ iriForbidden, 0x21 ≤ char.toNat := by
  intro char member
  have all : iriForbidden.all (fun char => 0x21 ≤ char.toNat) = true := rfl
  exact of_decide_eq_true (List.all_eq_true.mp all char member)

theorem control_not_forbidden {char : Char} (code : control char = true) : iriForbidden.contains char = false := by
  rw [List.contains_eq_mem, decide_eq_false_iff_not]
  intro member
  have printable := forbidden_printable char member
  simp only [control, within, Bool.or_eq_true, Bool.and_eq_true, decide_eq_true_eq] at code
  omega

/-- The characters at which an IRI is not taken. -/
theorem banned_eq (char : Char) :
    (space char || iriForbidden.contains char) = (excluded char && ! control char || wideSpace char) := by
  cases code : control char with
  | true =>
    have narrow : space char = wideSpace char := by
      simp only [control, within, Bool.or_eq_true, Bool.and_eq_true, decide_eq_true_eq] at code
      have none : within 0x09 0x0D char = false := by
        simp only [within, Bool.and_eq_false_iff, decide_eq_false_iff_not]
        omega
      have other : decide (char.toNat = 0x20) = false := decide_eq_false (by omega)
      rw [space, none, other, Bool.false_or, Bool.false_or]
    rw [control_not_forbidden code, Bool.or_false, Bool.not_true, Bool.and_false, Bool.false_or, narrow]
  | false =>
    have low : (within 0x09 0x0D char || decide (char.toNat = 0x20)) = decide (char.toNat ≤ 0x20) := by
      simp only [control, within, Bool.or_eq_false_iff, Bool.and_eq_false_iff, decide_eq_false_iff_not] at code
      rw [Bool.eq_iff_iff]
      simp only [within, Bool.or_eq_true, Bool.and_eq_true, decide_eq_true_eq]
      omega
    rw [space, low, excluded, Bool.not_false, Bool.and_true, Bool.or_right_comm]

theorem classifyIri_iff : classifyIri bytes = none ↔ taken.iri bytes := by
  show _ ↔ Absolute bytes ∧ ∃ chars, encoded chars = bytes ∧ ∀ char ∈ chars, _
  unfold classifyIri
  split
  case h_1 unread =>
    refine iff_of_false nofun fun ⟨_, chars, same, _⟩ => ?_
    cases unread.symm.trans (charlist_iff.mpr same)
  case h_2 chars read =>
    have only : (∃ others, encoded others = bytes ∧ ∀ char ∈ others, (excluded char && ! control char || wideSpace char) = false) ↔
        (chars.any fun char => space char || iriForbidden.contains char) = false := by
      rw [List.any_eq_false]
      constructor
      · intro ⟨others, same, free⟩ char member
        obtain rfl := Option.some.inj (read.symm.trans (charlist_iff.mpr same))
        rw [banned_eq, free char member]
        exact Bool.false_ne_true
      · intro free
        refine ⟨chars, charlist_iff.mp read, fun char member => ?_⟩
        rw [← banned_eq]
        exact Bool.eq_false_iff.mpr (free char member)
    rw [only, ← schemeRe_iff]
    cases schemeRe bytes with
    | false => exact iff_of_false nofun fun both => Bool.false_ne_true both.1
    | true =>
      rw [Bool.not_true, if_neg Bool.false_ne_true, and_iff_right rfl]
      cases chars.any fun char => space char || iriForbidden.contains char with
      | false => exact iff_of_true rfl rfl
      | true => exact iff_of_false nofun nofun

end Patterns

/-! ## Options -/

section Decorations
variable {options : Value} {decoration : Option Decoration}

theorem keywordGet_cases (options : Value) (name : String) :
    (∃ value, keywordGet options name = .ok value) ∨ keywordGet options name = .error .raised := by
  unfold keywordGet
  repeat' split
  all_goals first | exact .inl ⟨_, rfl⟩ | exact .inr rfl

theorem datatypeOf_follows (options : Value) : Follows .raised (datatypeOf options) (DatatypeFits taken options)
    (keywordGet options "datatype" ≠ .error .raised) := by
  unfold datatypeOf DatatypeFits
  obtain ⟨datatype, got⟩ | lost := keywordGet_cases options "datatype"
  · rw [got]
    have kept : (.ok datatype : Except Fault Value) ≠ .error .raised := nofun
    show Follows _ (if datatype.falsy = true then _ else _) _ _
    cases absent : datatype.falsy with
    | true => exact .ok ⟨datatype, rfl, .inl absent⟩ kept
    | false =>
      rw [if_neg Bool.false_ne_true]
      split
      case h_1 iri =>
        cases classified : classifyIri iri with
        | none => exact .ok ⟨_, rfl, .inr ⟨absent, iri, rfl, classifyIri_iff.mp classified⟩⟩ kept
        | some reason =>
          refine .refused nofun ?_ kept
          rintro ⟨_, ⟨⟩, none | ⟨_, _, ⟨⟩, fits⟩⟩
          · cases absent.symm.trans none
          · cases classified.symm.trans (classifyIri_iff.mpr fits)
      case h_2 other =>
        refine .refused nofun ?_ kept
        rintro ⟨_, ⟨⟩, none | ⟨_, iri, same, _⟩⟩
        · cases absent.symm.trans none
        · exact other iri same
  · rw [lost]
    refine .crashed ?_ (not_not_intro rfl)
    rintro ⟨_, got, _⟩
    cases got

theorem decorationOf_follows (options : Value) :
    Follows .raised (decorationOf options) (Decorated taken options) (¬ Unreadable options) := by
  unfold decorationOf Decorated Unreadable
  obtain ⟨language, got⟩ | lost := keywordGet_cases options "language"
  · rw [got]
    show Follows _ (if language.falsy = true then _ else _) _ _
    cases absent : language.falsy with
    | true =>
      rw [if_pos rfl]
      refine (datatypeOf_follows options).iff ⟨fun fits => ⟨language, rfl, .inr ⟨absent, fits⟩⟩, ?_⟩ ⟨?_, ?_⟩
      · rintro ⟨_, ⟨⟩, ⟨some, _⟩ | ⟨_, fits⟩⟩
        · cases absent.symm.trans some
        · exact fits
      · rintro kept (⟨⟨⟩⟩ | ⟨_, _, _, lost⟩)
        exact kept lost
      · exact fun kept lost => kept (.inr ⟨language, rfl, absent, lost⟩)
    | false =>
      rw [if_neg Bool.false_ne_true]
      have kept : ¬ ((.ok language : Except Fault Value) = .error .raised ∨
          ∃ other, (.ok language : Except Fault Value) = .ok other ∧ other.falsy = true ∧
            keywordGet options "datatype" = .error .raised) := by
        rintro (⟨⟨⟩⟩ | ⟨_, ⟨⟩, none, _⟩)
        cases absent.symm.trans none
      split
      case h_1 tag =>
        split
        case isTrue fits => exact .ok ⟨_, rfl, .inl ⟨absent, tag, rfl, langtagRe_iff.mp fits⟩⟩ kept
        case isFalse other =>
          refine .refused nofun ?_ kept
          rintro ⟨_, ⟨⟩, ⟨_, _, ⟨⟩, fits⟩ | ⟨none, _⟩⟩
          · exact other (langtagRe_iff.mpr fits)
          · cases absent.symm.trans none
      case h_2 other =>
        refine .refused nofun ?_ kept
        rintro ⟨_, ⟨⟩, ⟨_, tag, same, _⟩ | ⟨none, _⟩⟩
        · exact other tag same
        · cases absent.symm.trans none
  · rw [lost]
    refine .crashed ?_ (not_not_intro (.inl rfl))
    rintro ⟨_, got, _⟩
    cases got

end Decorations

/-! ## Terms -/

/-- What the classification lets through. -/
def Accepted : Canonical → Prop
  | .iri iri => classifyIri iri = none
  | .bnode label => IsText label
  | .literal _ decoration => ∀ iri, decoration = some (.datatype iri) → classifyIri iri = none

def Canonical.isLiteral : Canonical → Bool
  | .literal _ _ => true
  | _ => false

section Terms
variable {options value : Value} {text : Bytes} {position : Position} {canonical : Canonical}

theorem iriAt_follows (iri : Bytes) (position : Position) : Follows .raised (iriAt iri position) (taken.iri iri) True := by
  unfold iriAt
  split
  case h_1 classified => exact .ok (classifyIri_iff.mp classified) trivial
  case h_2 reason classified =>
    refine .refused nofun (fun fits => ?_) trivial
    cases classified.symm.trans (classifyIri_iff.mpr fits)

theorem bnodeAt_follows (label : Bytes) (position : Position) :
    Follows .raised (bnodeAt label position) (position ≠ .predicate ∧ IsText label) True := by
  unfold bnodeAt
  split
  case isTrue same => exact .refused nofun (fun fits => fits.1 same) trivial
  case isFalse other =>
    split
    case isTrue unread => exact .refused nofun (fun fits => isText_iff.mp fits.2 (Option.isNone_iff_eq_none.mp unread)) trivial
    case isFalse read => exact .ok ⟨other, isText_iff.mpr fun unread => read (Option.isNone_iff_eq_none.mpr unread)⟩ trivial

theorem iriAt_accepted (made : iriAt text position = .ok canonical) : Accepted canonical ∧ canonical.isLiteral = false := by
  unfold iriAt at made
  split at made
  case h_1 classified => cases made; exact ⟨classified, rfl⟩
  case h_2 => cases made

theorem bnodeAt_accepted (made : bnodeAt text position = .ok canonical) :
    Accepted canonical ∧ canonical.isLiteral = false := by
  obtain ⟨-, read⟩ := (bnodeAt_follows text position).reads.mp ⟨_, made⟩
  unfold bnodeAt at made
  split at made
  · cases made
  · split at made
    · cases made
    · cases made; exact ⟨read, rfl⟩

theorem datatypeOf_accepted {decoration : Option Decoration} (made : datatypeOf options = .ok decoration) (iri : Bytes)
    (same : decoration = some (.datatype iri)) : classifyIri iri = none := by
  unfold datatypeOf at made
  obtain ⟨datatype, -, made⟩ := bind_ok_iff.mp made
  subst same
  split at made
  · cases made
  · split at made
    case h_1 =>
      split at made
      case h_1 classified => cases made; exact classified
      case h_2 => cases made
    case h_2 => cases made

theorem decorationOf_accepted {decoration : Option Decoration} (made : decorationOf options = .ok decoration) (iri : Bytes)
    (same : decoration = some (.datatype iri)) : classifyIri iri = none := by
  unfold decorationOf at made
  obtain ⟨language, -, made⟩ := bind_ok_iff.mp made
  split at made
  · exact datatypeOf_accepted made iri same
  · subst same
    split at made
    · split at made <;> cases made
    · cases made

theorem literalAt_accepted (made : literalAt text options position = .ok canonical) : Accepted canonical := by
  unfold literalAt at made
  split at made
  case isTrue =>
    cases read : decorationOf options with
    | error fault => rw [read] at made; cases made
    | ok decoration =>
      rw [read] at made
      cases made
      exact decorationOf_accepted read
  case isFalse => cases made

/-- None of the shapes of a term. -/
structure Shapeless (value : Value) : Prop where
  pair : ∀ kind text, value ≠ .tuple [.atom kind, .binary text]
  decorated : ∀ kind text options, value ≠ .tuple [.atom kind, .binary text, options]
  bare : ∀ text, value ≠ .binary text

theorem Shapeless.unfit {rules : Rules} (shapeless : Shapeless value) : ¬ Fits rules position value := by
  intro fits
  unfold Fits at fits
  split at fits
  · exact shapeless.pair _ _ rfl
  · exact shapeless.decorated _ _ _ rfl
  · exact shapeless.bare _ rfl
  · exact fits

theorem Shapeless.kept (shapeless : Shapeless value) : ¬ Crashes value := by
  intro crashes
  unfold Crashes at crashes
  split at crashes
  · exact shapeless.pair _ _ rfl
  · exact shapeless.decorated _ _ _ rfl
  · exact shapeless.bare _ rfl
  · exact crashes

/-- A name is no literal. -/
theorem name_follows (value : Value) (other : position ≠ .object) :
    Follows .raised (term value position) (Fits taken position value) True := by
  unfold term
  split
  case h_1 kind text =>
    have literal : Follows .raised (literalAt text (.list []) position) False True := by
      rw [literalAt, if_neg other]
      exact .refused (by simp) not_false trivial
    split
    case isTrue iri => exact (iriAt_follows text position).iff (by simp [Fits, iri]) Iff.rfl
    case isFalse =>
      split
      case isTrue bnode => exact (bnodeAt_follows text position).iff (by simp [Fits, bnode]) Iff.rfl
      case isFalse =>
        split
        · exact literal.iff (by simp [Fits, *]) Iff.rfl
        · exact .refused (by simp) (by simp [Fits, *]) trivial
  case h_2 kind text options =>
    split
    · rw [literalAt, if_neg other]
      exact .refused (by simp) (by simp [Fits, other]) trivial
    · exact .refused (by simp) (by simp [Fits, other]) trivial
  case h_3 text =>
    rw [if_pos other]
    exact (iriAt_follows text position).iff (by simp [Fits, other]) Iff.rfl
  case h_4 pair decorated bare =>
    exact .refused (by simp) (Shapeless.unfit ⟨pair, decorated, bare⟩) trivial

theorem term_accepted (made : term value position = .ok canonical) :
    Accepted canonical ∧ (position ≠ .object → canonical.isLiteral = false) := by
  have named (both : Accepted canonical ∧ canonical.isLiteral = false) :
      Accepted canonical ∧ (position ≠ .object → canonical.isLiteral = false) := ⟨both.1, fun _ => both.2⟩
  have literal {text : Bytes} {options : Value} (made : literalAt text options position = .ok canonical) :
      Accepted canonical ∧ (position ≠ .object → canonical.isLiteral = false) := by
    refine ⟨literalAt_accepted made, fun other => ?_⟩
    rw [literalAt, if_neg other] at made
    cases made
  unfold term at made
  split at made
  case h_1 =>
    split at made
    · exact named (iriAt_accepted made)
    · split at made
      · exact named (bnodeAt_accepted made)
      · split at made
        · exact literal made
        · cases made
  case h_2 =>
    split at made
    · exact literal made
    · cases made
  case h_3 =>
    split at made
    · exact named (iriAt_accepted made)
    case isFalse inside =>
      split at made
      case isTrue classified =>
        cases made
        exact named ⟨Option.isNone_iff_eq_none.mp classified, rfl⟩
      case isFalse =>
        cases made
        exact ⟨nofun, fun other => absurd other inside⟩
  case h_4 => cases made

end Terms

/-- How a term that is let through is written: a name always, a literal where it is a text. -/
structure Writer {α : Type} (encode : Canonical → Except Fault α) : Prop where
  name : ∀ {canonical}, Accepted canonical → canonical.isLiteral = false → ∃ text, encode canonical = .ok text
  literal : ∀ {value decoration}, Accepted (.literal value decoration) →
    Follows .raised (encode (.literal value decoration)) (IsText value) (IsText value)

section Writing
variable {α : Type} {encode : Canonical → Except Fault α}

theorem object_follows (writer : Writer encode) (value : Value) :
    Follows .raised (term value .object >>= encode) (Fits taken .object value) (¬ Crashes value) := by
  have refused {refusal : Refusal} {reads steady : Prop} (unread : ¬ reads) (kept : steady) :
      Follows .raised ((refuse refusal : Except Fault Canonical) >>= encode) reads steady := .refused nofun unread kept
  have named {result : Except Fault Canonical} {reads : Prop} (follows : Follows .raised result reads True)
      (name : ∀ canonical, result = .ok canonical → Accepted canonical ∧ canonical.isLiteral = false) :
      Follows .raised (result >>= encode) reads True := by
    refine follows.onward fun canonical made => ?_
    obtain ⟨accepted, plain⟩ := name canonical made
    exact writer.name accepted plain
  have plain {text : Bytes} : Accepted (.literal text none) := nofun
  unfold term
  split
  case h_1 kind text =>
    split
    case isTrue iri => exact (named (iriAt_follows text .object) fun _ => iriAt_accepted).iff (by simp [Fits, iri]) (by simp [Crashes, iri])
    case isFalse =>
      split
      case isTrue bnode =>
        exact (named (bnodeAt_follows text .object) fun _ => bnodeAt_accepted).iff (by simp [Fits, bnode]) (by simp [Crashes, bnode])
      case isFalse =>
        split
        case isTrue literal =>
          exact (writer.literal plain).iff (by simp [Fits, literal]) (by simp [Crashes, literal])
        case isFalse => exact refused (by simp [Fits, *]) (by simp [Crashes, *])
  case h_2 kind text options =>
    split
    case isTrue literal =>
      have written (canonical : Canonical) (made : (decorationOf options).map (Canonical.literal text) = .ok canonical) :
          Follows .raised (encode canonical) (IsText text) (IsText text) := by
        cases read : decorationOf options with
        | error fault => rw [read] at made; cases made
        | ok decoration =>
          rw [read] at made
          cases made
          exact writer.literal (decorationOf_accepted read)
      rw [literalAt, if_pos rfl]
      refine (((decorationOf_follows options).map _).bind written).iff ?_ ?_
      · simp [Fits, literal]
      · simp only [Crashes, literal]
        tauto
    case isFalse other =>
      refine refused (fun fits => other ⟨fits.1, fits.2.2.1⟩) fun crashes => other ⟨crashes.1, crashes.2.1⟩
  case h_3 text =>
    rw [if_neg (not_not_intro rfl)]
    split
    case isTrue classified =>
      have absolute : classifyIri text = none := Option.isNone_iff_eq_none.mp classified
      obtain ⟨_, chars, same, _⟩ := classifyIri_iff.mp absolute
      obtain ⟨written, made⟩ := @writer.name (.iri text) absolute rfl
      show Follows .raised (encode (.iri text)) _ _
      rw [made]
      exact .ok ⟨chars, same⟩ (not_not_intro ⟨chars, same⟩)
    case isFalse => exact (writer.literal plain).iff (by simp [Fits]) (by simp [Crashes])
  case h_4 pair decorated bare =>
    exact refused (Shapeless.unfit ⟨pair, decorated, bare⟩) (Shapeless.kept ⟨pair, decorated, bare⟩)

theorem tripleOf_follows (writer : Writer encode) (triple : Value) :
    Follows .raised (tripleOf encode triple) (Statement taken triple) (¬ Crashing triple) := by
  unfold tripleOf
  split
  case h_1 subject predicate object hasSubject hasPredicate hasObject =>
    have front : Position.subject ≠ .object := nofun
    have middle : Position.predicate ≠ .object := nofun
    have rest {first second : Canonical} (one : term subject .subject = .ok first)
        (two : term predicate .predicate = .ok second) :
        Follows .raised (term object .object >>= fun object => encode first >>= fun first => encode second >>= fun second =>
          encode object >>= fun third => pure (first, second, third)) (Fits taken .object object) (¬ Crashes object) := by
      obtain ⟨subjectText, written⟩ := writer.name (term_accepted one).1 ((term_accepted one).2 front)
      obtain ⟨predicateText, also⟩ := writer.name (term_accepted two).1 ((term_accepted two).2 middle)
      have last := (object_follows writer object).map fun third => (subjectText, predicateText, third)
      have same : (term object .object >>= fun object => encode first >>= fun first => encode second >>= fun second =>
          encode object >>= fun third => pure (first, second, third)) =
          (term object .object >>= encode).map fun third => (subjectText, predicateText, third) := by
        rw [written, also]
        cases term object .object with
        | error => rfl
        | ok canonical =>
          show (encode canonical >>= fun third => pure (subjectText, predicateText, third)) = (encode canonical).map _
          cases encode canonical <;> rfl
      rw [same]
      exact last
    refine ((name_follows subject front).bind fun first one => (name_follows predicate middle).bind fun second two =>
      rest one two).iff ?_ ?_
    · simp [Statement, hasSubject, hasPredicate, hasObject]
    · simp [Crashing, hasSubject, hasPredicate, hasObject]
  case h_2 missing =>
    refine .refused nofun ?_ ?_
    · rintro ⟨subject, predicate, object, one, two, three, _⟩
      exact missing _ _ _ one two three
    · rintro ⟨subject, predicate, object, one, two, three, _⟩
      exact missing _ _ _ one two three

end Writing

/-! ## Writers -/

section Writers
variable {iri value : Bytes}

theorem escape_follows (escaped : Char → List Char) (value : Bytes) :
    Follows .raised (escape escaped value) (IsText value) (IsText value) := by
  unfold escape
  split
  case h_1 unread => exact .crashed (not_isText_iff.mpr unread) (not_isText_iff.mpr unread)
  case h_2 chars read => exact .ok ⟨chars, charlist_iff.mp read⟩ ⟨chars, charlist_iff.mp read⟩

theorem angled_ok (text : IsText iri) : ∃ written, angled iri = .ok written :=
  ((escape_follows iriChar iri).map _).reads.mpr text

theorem quoted_follows (value : Bytes) : Follows .raised (quoted value) (IsText value) (IsText value) :=
  (escape_follows literalChar value).map _

theorem bnodeText_ok (text : IsText value) : ∃ written, bnodeText value = .ok written := by
  obtain ⟨chars, same⟩ := text
  rw [bnodeText, charlist_iff.mpr same]
  exact ⟨_, rfl⟩

theorem isText_of_classified (classified : classifyIri iri = none) : IsText iri := by
  obtain ⟨_, chars, same, _⟩ := classifyIri_iff.mp classified
  exact ⟨chars, same⟩

theorem encodeTerm_writer : Writer encodeTerm where
  name := by
    intro canonical accepted plain
    cases canonical with
    | iri iri => exact angled_ok (isText_of_classified accepted)
    | bnode label => exact bnodeText_ok accepted
    | literal => cases plain
  literal := by
    intro value decoration accepted
    refine (quoted_follows value).onward fun text _ => ?_
    cases decoration with
    | none => exact ⟨_, rfl⟩
    | some decoration =>
      cases decoration with
      | language tag => exact ⟨_, rfl⟩
      | datatype iri =>
        obtain ⟨written, made⟩ := angled_ok (isText_of_classified (accepted iri rfl))
        dsimp only
        rw [made]
        exact ⟨_, rfl⟩

theorem turtleIri_ok (options : Options) (classified : classifyIri iri = none) : ∃ written, turtleIri options iri = .ok written := by
  obtain ⟨written, made⟩ := angled_ok (isText_of_classified classified)
  unfold turtleIri
  split
  · exact ⟨_, rfl⟩
  · rw [made]
    exact ⟨_, rfl⟩

theorem turtleTerm_writer (options : Options) : Writer (turtleTerm options) where
  name := by
    intro canonical accepted plain
    cases canonical with
    | iri iri => exact turtleIri_ok options accepted
    | bnode label =>
      obtain ⟨written, made⟩ := bnodeText_ok accepted
      exact ⟨(written, []), by rw [turtleTerm, made]; rfl⟩
    | literal => cases plain
  literal := by
    intro value decoration accepted
    refine (quoted_follows value).onward fun text _ => ?_
    cases decoration with
    | none => exact ⟨_, rfl⟩
    | some decoration =>
      cases decoration with
      | language tag => exact ⟨_, rfl⟩
      | datatype iri =>
        obtain ⟨written, made⟩ := turtleIri_ok options (accepted iri rfl)
        dsimp only
        rw [made]
        exact ⟨_, rfl⟩

end Writers

/-! ## The header -/

section Header
variable {options : Options} {iri : Bytes}

/-- The namespace of a name that is used is a text. -/
theorem compact_used {prefixes : Prefixes} {name rest : Bytes} (text : IsText iri)
    (found : compact iri prefixes = some (name, rest)) : ∃ line, prefixLine prefixes name = .ok line := by
  obtain ⟨⟨own, namespace_⟩, member, fits⟩ := List.exists_of_findSome?_eq_some found
  dsimp only at fits
  split at fits
  case h_1 behind dropped =>
    split at fits
    case isTrue safe =>
      cases fits
      obtain ⟨front, split, same⟩ := List.dropPrefix?_eq_some_iff.mp dropped
      obtain rfl := eq_of_beq same
      have known : IsText front := isText_front (safeLocal_ascii safe.2) (split ▸ text)
      obtain ⟨written, made⟩ := angled_ok known
      rw [prefixLine, lookup_of_mem prefixes.keys (List.mem_mergeSort.mp member)]
      dsimp only
      rw [made]
      exact ⟨_, rfl⟩
    case isFalse => cases fits
  case h_2 => cases fits

theorem turtleIri_used {written : Bytes × List Bytes} (classified : classifyIri iri = none)
    (made : turtleIri options iri = .ok written) : ∀ name ∈ written.2, ∃ line, prefixLine options.prefixes name = .ok line := by
  unfold turtleIri at made
  split at made
  case h_1 name rest found =>
    cases made
    split at found
    · intro other member
      obtain rfl := List.mem_singleton.mp member
      exact compact_used (isText_of_classified classified) found
    · cases found
  case h_2 =>
    obtain ⟨text, whole⟩ := angled_ok (isText_of_classified classified)
    rw [whole] at made
    cases made
    exact nofun

theorem turtleTerm_used {canonical : Canonical} {written : Bytes × List Bytes} (accepted : Accepted canonical)
    (made : turtleTerm options canonical = .ok written) :
    ∀ name ∈ written.2, ∃ line, prefixLine options.prefixes name = .ok line := by
  cases canonical with
  | iri iri => exact turtleIri_used accepted made
  | bnode label =>
    obtain ⟨text, whole⟩ := bnodeText_ok accepted
    rw [turtleTerm, whole] at made
    cases made
    exact nofun
  | literal value decoration =>
    obtain ⟨text, -, made⟩ := bind_ok_iff.mp made
    cases decoration with
    | none => cases made; exact nofun
    | some decoration =>
      cases decoration with
      | language tag => cases made; exact nofun
      | datatype iri =>
        obtain ⟨⟨datatype, used⟩, shown, made⟩ := bind_ok_iff.mp made
        cases made
        have names := turtleIri_used (accepted iri rfl) shown
        exact names

theorem tripleOf_ok {α : Type} {encode : Canonical → Except Fault α} {triple : Value} {written : α × α × α}
    (made : tripleOf encode triple = .ok written) :
    ∃ first second third, Accepted first ∧ Accepted second ∧ Accepted third ∧ encode first = .ok written.1 ∧
      encode second = .ok written.2.1 ∧ encode third = .ok written.2.2 := by
  unfold tripleOf at made
  split at made
  case h_1 =>
    obtain ⟨first, one, made⟩ := bind_ok_iff.mp made
    obtain ⟨second, two, made⟩ := bind_ok_iff.mp made
    obtain ⟨third, three, made⟩ := bind_ok_iff.mp made
    obtain ⟨a, first_made, made⟩ := bind_ok_iff.mp made
    obtain ⟨b, second_made, made⟩ := bind_ok_iff.mp made
    obtain ⟨c, third_made, made⟩ := bind_ok_iff.mp made
    cases made
    exact ⟨first, second, third, (term_accepted one).1, (term_accepted two).1, (term_accepted three).1, first_made,
      second_made, third_made⟩
  case h_2 => cases made

theorem turtleTriple_used {triple : Value} {written : Bytes × List Bytes} (made : turtleTriple options triple = .ok written) :
    ∀ name ∈ written.2, ∃ line, prefixLine options.prefixes name = .ok line := by
  unfold turtleTriple at made
  cases parts : tripleOf (turtleTerm options) triple with
  | error fault => rw [parts] at made; cases made
  | ok texts =>
    obtain ⟨first, second, third, one, two, three, a, b, c⟩ := tripleOf_ok parts
    rw [parts] at made
    cases made
    intro name member
    obtain subject | others := List.mem_append.mp member
    · exact turtleTerm_used one a name subject
    · obtain predicate | object := List.mem_append.mp others
      · exact turtleTerm_used two b name predicate
      · exact turtleTerm_used three c name object

end Header

/-! ## Documents -/

section Documents
variable {triples : List Value} {options : Options} {result : Except Fault Bytes}

/-- Triples are written up to the first that is not taken. -/
def checked : Check Value := ⟨Statement taken, fun triple => ¬ Crashing triple⟩

theorem encodeTriple_described : checked.Describes .raised encodeTriple := fun triple =>
  (tripleOf_follows encodeTerm_writer triple).map _

theorem turtleTriple_described (options : Options) : checked.Describes .raised (turtleTriple options) := fun triple =>
  (tripleOf_follows (turtleTerm_writer options) triple).map _

theorem toNtriples_follows (triples : List Value) :
    Follows .raised (toNtriples triples) (checked.each.reads triples) (checked.each.steady triples) :=
  (encodeTriple_described.mapM triples).map List.flatten

theorem header_lines {lines : List (Bytes × List Bytes)} (made : triples.mapM (turtleTriple options) = .ok lines) :
    ∀ name ∈ ((lines.flatMap Prod.snd).dedup.mergeSort fun left right => left ≤ right),
      ∃ line, prefixLine options.prefixes name = .ok line := by
  intro name member
  have used := List.mem_dedup.mp (List.mem_mergeSort.mp member)
  obtain ⟨line, among, names⟩ := List.mem_flatMap.mp used
  obtain ⟨pairs, rfl, rfl, each⟩ := mapM_ok_iff.mp made
  obtain ⟨pair, given, rfl⟩ := List.mem_map.mp among
  exact turtleTriple_used (each pair given) name names

theorem header_made {prefixes : Prefixes} {names : List Bytes}
    (lines : ∀ name ∈ names, ∃ line, prefixLine prefixes name = .ok line) :
    ∃ header, names.mapM (prefixLine prefixes) = .ok header := by
  have described : Check.Describes ⟨fun name => ∃ line, prefixLine prefixes name = .ok line,
    fun name => prefixLine prefixes name ≠ .error .raised⟩ .raised (prefixLine prefixes) := fun _ => ⟨Iff.rfl, Iff.rfl⟩
  exact (described.mapM names).reads.mpr lines

theorem toTurtle_follows (triples : List Value) (options : Options) :
    Follows .raised (toTurtle triples options) (checked.each.reads triples) (checked.each.steady triples) := by
  refine ((turtleTriple_described options).mapM triples).onward fun lines made => ?_
  obtain ⟨header, headed⟩ := header_made (header_lines made)
  dsimp only
  rw [headed]
  exact ⟨_, rfl⟩

/-- It refuses where some triple is none of the grammar, and never raises. -/
def Exact (triples : List Value) (result : Except Fault Bytes) : Prop :=
  ((∃ refusal, result = .error (.refused refusal)) ↔ ∃ triple ∈ triples, ¬ Statement grammar triple) ∧
    result ≠ .error .raised

theorem exact_iff (follows : Follows .raised result (checked.each.reads triples) (checked.each.steady triples)) :
    Exact triples result ↔ checked.each.steady triples ∧
      ((∀ triple ∈ triples, Statement taken triple) ↔ ∀ triple ∈ triples, Statement grammar triple) := by
  have refuses (kept : result ≠ .error .raised) :
      (∃ refusal, result = .error (.refused refusal)) ↔ ¬ ∀ triple ∈ triples, Statement taken triple := by
    have reads : (∃ text, result = .ok text) ↔ ∀ triple ∈ triples, Statement taken triple := follows.reads
    rw [← reads]
    cases result with
    | ok text => exact iff_of_false nofun (not_not_intro ⟨text, rfl⟩)
    | error fault =>
      cases fault with
      | refused refusal => exact iff_of_true ⟨refusal, rfl⟩ nofun
      | raised => exact absurd rfl kept
  have illegal : (∃ triple ∈ triples, ¬ Statement grammar triple) ↔ ¬ ∀ triple ∈ triples, Statement grammar triple := by
    simp only [not_forall, exists_prop]
  rw [Exact, illegal, ← follows.steady, and_comm]
  refine and_congr_right fun kept => ?_
  rw [refuses kept, not_iff_not]

end Documents

/-- They refuse what the grammar has not, and nothing raises, exactly where no triple on which they raise is
reached and what they take of the list is what the grammar has. -/
theorem refusals_exact_iff (triples : List Value) (options : Options) :
    (Exact triples (toNtriples triples) ∧ Exact triples (toTurtle triples options)) ↔
      (∀ before triple after, triples = before ++ triple :: after → (∀ other ∈ before, Statement taken other) →
        ¬ Crashing triple) ∧
      ((∀ triple ∈ triples, Statement taken triple) ↔ ∀ triple ∈ triples, Statement grammar triple) :=
  (and_congr (exact_iff (toNtriples_follows triples)) (exact_iff (toTurtle_follows triples options))).trans (and_self_iff)

/-- The object is one byte that is no text. -/
def brokenObject : Value := .record [("subject", .text "a:b"), ("predicate", .text "a:c"), ("object", .binary [0xFF])]

theorem broken_object_raises : ¬ Exact [brokenObject] (toNtriples [brokenObject]) := fun same => same.2 rfl

end AshA2A.Semantic.Serialize
