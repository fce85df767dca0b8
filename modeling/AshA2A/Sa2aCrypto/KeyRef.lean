import AshA2A.Passport.Encoding
import AshA2A.Sa2aCrypto
import Mathlib.Data.Nat.Digits.Defs

/-! The identity of a key: a hash of its standard encoding, which determines the key. -/

namespace AshA2A.Sa2aCrypto

/-- The two parts of a hybrid suite. No part has a plus sign in it. -/
def Suite.hybridParts (alg : String) : Option (String × String) :=
  (classical.flatMap fun first => pqc.map fun second => (first, second)).find? fun parts =>
    parts.1 ++ "+" ++ parts.2 = alg

namespace KeyRef

def p256Prefix : Bytes :=
  [0x30, 0x59, 0x30, 0x13, 0x06, 0x07, 0x2a, 0x86, 0x48, 0xce, 0x3d, 0x02, 0x01, 0x06, 0x08, 0x2a, 0x86, 0x48,
    0xce, 0x3d, 0x03, 0x01, 0x07, 0x03, 0x42, 0x00]

def edPrefix : Bytes := [0x30, 0x2a, 0x30, 0x05, 0x06, 0x03, 0x2b, 0x65, 0x70, 0x03, 0x21, 0x00]

def oids : List (String × List Nat) :=
  [("ML-DSA-44", [2, 16, 840, 1, 101, 3, 4, 3, 17]), ("ML-DSA-65", [2, 16, 840, 1, 101, 3, 4, 3, 18]),
    ("ML-DSA-87", [2, 16, 840, 1, 101, 3, 4, 3, 19]), ("SLH-DSA-SHA2-128S", [2, 16, 840, 1, 101, 3, 4, 3, 20]),
    ("SLH-DSA-SHA2-128F", [2, 16, 840, 1, 101, 3, 4, 3, 21]), ("SLH-DSA-SHA2-192S", [2, 16, 840, 1, 101, 3, 4, 3, 22]),
    ("SLH-DSA-SHA2-192F", [2, 16, 840, 1, 101, 3, 4, 3, 23]), ("SLH-DSA-SHA2-256S", [2, 16, 840, 1, 101, 3, 4, 3, 24]),
    ("SLH-DSA-SHA2-256F", [2, 16, 840, 1, 101, 3, 4, 3, 25]), ("SLH-DSA-SHAKE-128S", [2, 16, 840, 1, 101, 3, 4, 3, 26]),
    ("SLH-DSA-SHAKE-128F", [2, 16, 840, 1, 101, 3, 4, 3, 27]), ("SLH-DSA-SHAKE-192S", [2, 16, 840, 1, 101, 3, 4, 3, 28]),
    ("SLH-DSA-SHAKE-192F", [2, 16, 840, 1, 101, 3, 4, 3, 29]), ("SLH-DSA-SHAKE-256S", [2, 16, 840, 1, 101, 3, 4, 3, 30]),
    ("SLH-DSA-SHAKE-256F", [2, 16, 840, 1, 101, 3, 4, 3, 31])]

/-- The high bit is set on all digits but the last. -/
def base128 (number : Nat) : Bytes :=
  if number < 128 then [.ofNat number]
  else
    let digits := (Nat.digits 128 number).reverse
    (digits.dropLast.map fun digit => .ofNat (digit + 128)) ++ (digits.drop (digits.length - 1)).map UInt8.ofNat

def oidBody : List Nat → Bytes
  | first :: second :: rest => .ofNat (first * 40 + second) :: rest.flatMap base128
  | _ => []

/-- A length from 65536 on is cut to its last two bytes. -/
def derLen (length : Nat) : Bytes :=
  if length < 0x80 then [.ofNat length]
  else if length < 0x100 then [0x81, .ofNat length]
  else [0x82, .ofNat (length / 256), .ofNat (length % 256)]

def der (tag : UInt8) (body : Bytes) : Bytes := tag :: derLen body.length ++ body

/-- The encoding of a key of one suite. -/
def single (alg : String) (pub : Bytes) : Option Bytes :=
  if alg = "ES256" then
    if pub.length = 65 ∧ pub.head? = some 4 then some (p256Prefix ++ pub) else none
  else if alg = "EdDSA" then
    if pub.length = 32 then some (edPrefix ++ pub) else none
  else (oids.lookup alg).map fun oid =>
    der 0x30 (der 0x30 (der 0x06 (oidBody oid)) ++ der 0x03 (0 :: pub))

def spki (alg : String) : PublicKey → Option Bytes
  | .single pub => single alg pub
  | .hybrid cpub ppub => do
    let (c, p) ← Suite.hybridParts alg
    let cs ← single c cpub
    let ps ← single p ppub
    return cs ++ ps

/-- The first 16 bytes of the hash. -/
def kid (sha256 : Bytes → Bytes) (alg : String) (pub : PublicKey) : Option String :=
  (spki alg pub).map fun spki => Base64.encode ((sha256 spki).take 16)

end KeyRef

/-! ## Decoding -/

namespace Registry.Spki

def body (tag : UInt8) (length : Nat) (rest : Bytes) : Option (UInt8 × Bytes × Bytes) :=
  if length ≤ rest.length then some (tag, rest.take length, rest.drop length) else none

def tlv : Bytes → Option (UInt8 × Bytes × Bytes)
  | tag :: 0x81 :: length :: rest => if 0x80 ≤ length.toNat then body tag length.toNat rest else none
  | tag :: 0x82 :: high :: low :: rest =>
    if 0x100 ≤ high.toNat * 256 + low.toNat then body tag (high.toNat * 256 + low.toNat) rest else none
  | tag :: length :: rest => if length.toNat < 0x80 then body tag length.toNat rest else none
  | _ => none

def extractSingle (der : Bytes) : Option Bytes := do
  let (0x30, body, []) ← tlv der | none
  let (0x30, _, rest) ← tlv body | none
  let (0x03, 0 :: key, []) ← tlv rest | none
  return key

def split (der : Bytes) : Option (Bytes × Bytes) := do
  let (0x30, _, rest) ← tlv der | none
  return (der.take (der.length - rest.length), rest)

def extract (alg : String) (der : Bytes) : Option PublicKey :=
  match Suite.hybridParts alg with
  | some _ => do
    let (first, rest) ← split der
    return .hybrid (← extractSingle first) (← extractSingle rest)
  | none => (extractSingle der).map .single

/-- The decoded key encodes to the same bytes. -/
def decode (alg : String) (der : Bytes) : Option PublicKey :=
  (extract alg der).filter fun pub => KeyRef.spki alg pub = some der

theorem encoded {alg : String} {der : Bytes} {pub : PublicKey} (given : decode alg der = some pub) :
    KeyRef.spki alg pub = some der := of_decide_eq_true (Option.filter_eq_some_iff.mp given).2

end Registry.Spki

/-! ## The encoding determines the key -/

namespace KeyRef

theorem derLen_length_le {first second : Nat} (le : first ≤ second) : (derLen first).length ≤ (derLen second).length := by
  unfold derLen
  split_ifs <;> simp <;> omega

theorem der_length (tag : UInt8) (body : Bytes) : (der tag body).length = 1 + (derLen body.length).length + body.length := by
  simp only [der, List.cons_append, List.length_cons, List.length_append]
  omega

/-- A longer body has the longer encoding. -/
theorem body_length {tag tag' : UInt8} {body other : Bytes} (same : (der tag body).length = (der tag' other).length) :
    body.length = other.length := by
  rw [der_length, der_length] at same
  obtain less | equal | more := Nat.lt_trichotomy body.length other.length
  · have := derLen_length_le (Nat.le_of_lt less)
    omega
  · exact equal
  · have := derLen_length_le (Nat.le_of_lt more)
    omega

theorem der_injective {tag : UInt8} {body other : Bytes} (same : der tag body = der tag other) : body = other :=
  List.append_inj_right' same (body_length (congrArg List.length same))

theorem oids_classical {alg : String} (given : (oids.lookup alg).isSome) : alg ∉ Suite.classical := by
  intro classical
  simp only [Suite.classical, List.mem_cons, List.not_mem_nil, or_false] at classical
  obtain rfl | rfl := classical <;> exact absurd given (by decide)

theorem single_injective {alg : String} {pub other : Bytes} {bytes : Bytes} (first : single alg pub = some bytes)
    (second : single alg other = some bytes) : pub = other := by
  unfold single at first second
  split_ifs at first second
  · exact List.append_cancel_left (Option.some.inj (first.trans second.symm))
  · exact List.append_cancel_left (Option.some.inj (first.trans second.symm))
  · obtain ⟨oid, found, rfl⟩ := Option.map_eq_some_iff.mp first
    obtain ⟨oid', found', same⟩ := Option.map_eq_some_iff.mp second
    obtain rfl := Option.some.inj (found.symm.trans found')
    exact (List.cons.inj (der_injective (List.append_cancel_left (der_injective same)))).2.symm

/-- The keys of a classical suite all have one length. -/
theorem single_length {alg : String} {pub bytes : Bytes} (classical : alg ∈ Suite.classical)
    (given : single alg pub = some bytes) : bytes.length = if alg = "ES256" then 91 else 44 := by
  unfold single at given
  split_ifs at given with es256 sized eddsa sized <;> try rw [if_pos es256]
  · obtain rfl := Option.some.inj given
    rw [List.length_append, sized.1]
    rfl
  · rw [if_neg es256]
    obtain rfl := Option.some.inj given
    rw [List.length_append, sized]
    rfl
  · obtain ⟨oid, found, _⟩ := Option.map_eq_some_iff.mp given
    exact absurd classical (oids_classical (by rw [found]; rfl))

theorem hybridParts_classical {alg : String} {parts : String × String} (given : Suite.hybridParts alg = some parts) :
    parts.1 ∈ Suite.classical := by
  have member := List.mem_of_find?_eq_some given
  obtain ⟨first, classical, inner⟩ := List.mem_flatMap.mp member
  obtain ⟨second, _, rfl⟩ := List.mem_map.mp inner
  exact classical

theorem hybridParts_unregistered {alg : String} {bytes pub : Bytes} {parts : String × String}
    (split : Suite.hybridParts alg = some parts) : single alg pub ≠ some bytes := by
  have member := List.mem_of_find?_eq_some split
  have named : parts.1 ++ "+" ++ parts.2 = alg := by
    unfold Suite.hybridParts at split
    simpa using List.find?_some split
  have absent : ∀ parts ∈ Suite.classical.flatMap fun first => Suite.pqc.map fun second => (first, second),
      single (parts.1 ++ "+" ++ parts.2) pub = none := by
    simp [Suite.classical, Suite.pqc, single, oids]
  rw [← named, absent parts member]
  exact (Option.some_ne_none _).symm

theorem spki_injective {alg : String} {pub other : PublicKey} {bytes : Bytes} (first : spki alg pub = some bytes)
    (second : spki alg other = some bytes) : pub = other := by
  cases pub with
  | single pub =>
    cases other with
    | single other => rw [single_injective first second]
    | hybrid cpub ppub =>
      obtain ⟨parts, split, _⟩ := Option.bind_eq_some_iff.mp second
      exact absurd first (hybridParts_unregistered split)
  | hybrid cpub ppub =>
    obtain ⟨parts, split, first⟩ := Option.bind_eq_some_iff.mp first
    cases other with
    | single other => exact absurd second (hybridParts_unregistered split)
    | hybrid cpub' ppub' =>
      obtain ⟨parts', split', second⟩ := Option.bind_eq_some_iff.mp second
      obtain rfl := Option.some.inj (split.symm.trans split')
      obtain ⟨c, first_c, first⟩ := Option.bind_eq_some_iff.mp first
      obtain ⟨p, first_p, first⟩ := Option.bind_eq_some_iff.mp first
      obtain ⟨c', second_c, second⟩ := Option.bind_eq_some_iff.mp second
      obtain ⟨p', second_p, second⟩ := Option.bind_eq_some_iff.mp second
      have whole : c ++ p = c' ++ p' := Option.some.inj (first.trans second.symm)
      have classical := hybridParts_classical split
      have length : c.length = c'.length := (single_length classical first_c).trans (single_length classical second_c).symm
      obtain ⟨rfl, rfl⟩ := List.append_inj whole length
      rw [single_injective first_c second_c, single_injective first_p second_p]

end KeyRef

end AshA2A.Sa2aCrypto
