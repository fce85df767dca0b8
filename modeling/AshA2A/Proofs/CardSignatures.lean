import AshA2A.Outcome
import AshA2A.Protocol.CardSigning

/-! The verification of a card against signatures that anybody may have written. -/

namespace AshA2A.Protocol.CardSigning

/-! ## Key sets -/

/-- What a key is good for. -/
inductive Kind where
  | secret | rsa | ec
  deriving Repr, DecidableEq

def Alg.kind : Alg → Kind
  | .hs256 => .secret
  | .rs256 => .rsa
  | .es256 => .ec

namespace Key

def recordKind : Key → Option Kind
  | .rsaPublicKey .. | .rsaPrivateKey .. => some .rsa
  | .ecPoint .. | .ecPublicKey .. | .ecPrivateKey .. => some .ec
  | _ => none

/-- A record of `:public_key`, with its public part and on the curve of ES256. -/
def SoundRecord : Key → Prop
  | .rsaPublicKey .. | .rsaPrivateKey .. => True
  | .ecPublicKey _ params | .ecPrivateKey params (some _) => params ≠ .other
  | _ => False

/-- A JWK has a kind by its `kty`. -/
def jwkKind (jwk : List (String × Key)) : Option Kind :=
  if isText "RSA" (jwk.lookup "kty") then some .rsa
  else if isText "EC" (jwk.lookup "kty") then some .ec
  else none

/-- The member of a JWK is a base64 text. -/
def Encoded (jwk : List (String × Key)) (name : String) : Prop :=
  ∃ value bytes, jwk.lookup name = some (.binary value) ∧ b64urlDecode value = some bytes

def SoundJwk (jwk : List (String × Key)) : Prop :=
  match jwkKind jwk with
  | some .rsa => Encoded jwk "n" ∧ Encoded jwk "e"
  | some .ec => isText "P-256" (jwk.lookup "crv") ∧ Encoded jwk "x" ∧ Encoded jwk "y"
  | _ => False

/-- The keys of a set under their kids, or the one key that is given. -/
def members : Key → List Key
  | .map entries =>
    if (entries.lookup "kty").isSome then [.map entries]
    else
      match entries.lookup "keys" with
      | some (.list items) => items.filterMap listed
      | some _ => []
      | none => entries.map Prod.snd
  | .list items => items.filterMap listed
  | key => [key]
where
  listed : Key → Option Key
    | .pair _ material => some material
    | .map jwk => some (.map jwk)
    | _ => none

/-- The key that a header selects. -/
def selected (keys : Key) (alg : Alg) (header : Json) : Option Key :=
  match alg, keys with
  | .hs256, .binary secret => some (.binary secret)
  | .hs256, _ | _, .binary _ => none
  | _, .map entries =>
    if (entries.lookup "kty").isSome then some (.map entries)
    else
      match entries.lookup "keys" with
      | some (.list items) => (header.string? "kid").bind fun kid => findKid kid (.list items)
      | _ => (header.string? "kid").bind fun kid => findKid kid (.map entries)
  | _, .list items => (header.string? "kid").bind fun kid => findKid kid (.list items)
  | _, key => some key

section Kinds
variable (libs : Libraries)

def kind : Key → Option Kind
  | .binary value => if isPem value then (libs.pem value).head?.bind recordKind else some .secret
  | .map jwk => jwkKind jwk
  | key => key.recordKind

def Sound : Key → Prop
  | .binary value => isPem value → ∃ record rest, libs.pem value = record :: rest ∧ record.SoundRecord
  | .map jwk => SoundJwk jwk
  | key => key.SoundRecord

/-- A PEM text whose first entry is the public key of an elliptic curve. -/
def PublicEcPem : Key → Prop
  | .binary value => isPem value ∧ ∃ point params rest, libs.pem value = .ecPublicKey point params :: rest
  | _ => False

/-- The key is of the algorithm's kind, in a form that the code takes. -/
def Suits (alg : Alg) (key : Key) : Prop := key.kind libs = some alg.kind ∧ ¬ key.PublicEcPem libs

end Kinds

theorem isText_iff {text : String} {key : Option Key} : isText text key ↔ key = some (.binary (utf8 text)) := by
  unfold isText
  split
  · rw [decide_eq_true_iff, Option.some.injEq, Key.binary.injEq]
  · rename_i other
    exact iff_of_false nofun fun same => other _ same

/-- What a public key of an algorithm is once it has been read. -/
inductive Public : Alg → Key → Prop where
  | rsa (n e : Nat) : Public .rs256 (.rsaPublicKey n e)
  | ec (point : Bytes) (params : Curve) : Public .es256 (.ecPublicKey point params)

/-- Either the key suits and is read, or the code raises on it. -/
inductive Reading (libs : Libraries) (alg : Alg) (key : Key) : Option Key → Prop where
  | read {record : Key} (suits : key.Suits libs alg) (usable : Public alg record) : Reading libs alg key (some record)
  | lost (unsuited : ¬ key.Suits libs alg) : Reading libs alg key none

section Material
variable {libs : Libraries} {key : Key} {jwk : List (String × Key)}

theorem jwkKind_rsa : jwkKind jwk = some .rsa ↔ isText "RSA" (jwk.lookup "kty") := by
  unfold jwkKind
  split
  · exact iff_of_true rfl ‹_›
  · split <;> exact iff_of_false nofun ‹_›

theorem jwkKind_ec : jwkKind jwk = some .ec ↔ isText "EC" (jwk.lookup "kty") := by
  unfold jwkKind
  split
  · rename_i rsa
    refine iff_of_false nofun fun ec => ?_
    have texts : utf8 "RSA" = utf8 "EC" :=
      Key.binary.inj (Option.some.inj ((isText_iff.mp rsa).symm.trans (isText_iff.mp ec)))
    exact absurd texts (by decide)
  · split
    · exact iff_of_true rfl ‹_›
    · exact iff_of_false nofun ‹_›

theorem suits_map (alg : Alg) : (Key.map jwk).Suits libs alg ↔ jwkKind jwk = some alg.kind :=
  and_iff_left id

theorem rsaPublicFromJwk_read (n : Encoded jwk "n") (e : Encoded jwk "e") :
    ∃ modulus exponent, rsaPublicFromJwk jwk = some (.rsaPublicKey modulus exponent) := by
  obtain ⟨n, modulus, member, decoded⟩ := n
  obtain ⟨e, exponent, other, decoded'⟩ := e
  exact ⟨decodeUnsigned modulus, decodeUnsigned exponent, by simp [rsaPublicFromJwk, member, other, decoded, decoded']⟩

theorem ecPublicFromJwk_read (curve : isText "P-256" (jwk.lookup "crv")) (x : Encoded jwk "x")
    (y : Encoded jwk "y") : ∃ point, ecPublicFromJwk jwk = some (.ecPublicKey point .secp256r1) := by
  obtain ⟨x, first, member, decoded⟩ := x
  obtain ⟨y, second, other, decoded'⟩ := y
  exact ⟨0x04 :: first ++ second, by simp [ecPublicFromJwk, curve, member, other, decoded, decoded']⟩

/-- A record has its own kind. -/
theorem not_suits_kind {alg : Alg} {kind : Option Kind} (own : key.kind libs = kind) (other : kind ≠ some alg.kind) :
    ¬ key.Suits libs alg := fun suits => other (own.symm.trans suits.1)

theorem kind_pem {value : Bytes} {record : Key} {rest : List Key} (pem : isPem value)
    (entries : libs.pem value = record :: rest) : (Key.binary value).kind libs = record.recordKind := by
  simp [kind, pem, entries]

theorem rsaPublic_reading (sound : key.Sound libs) : Reading libs .rs256 key (rsaPublic libs key) := by
  cases key with
  | rsaPublicKey n e => exact .read ⟨rfl, id⟩ (.rsa n e)
  | rsaPrivateKey n e => exact .read ⟨rfl, id⟩ (.rsa n e)
  | ecPoint _ | ecPublicKey _ _ | ecPrivateKey _ _ => exact .lost (not_suits_kind rfl nofun)
  | list _ | pair _ _ | other => exact .lost (not_suits_kind rfl nofun)
  | map jwk =>
    show Reading libs .rs256 _ (if isText "RSA" (jwk.lookup "kty") then rsaPublicFromJwk jwk else none)
    by_cases rsa : isText "RSA" (jwk.lookup "kty")
    · rw [if_pos rsa]
      replace rsa := jwkKind_rsa.mpr rsa
      have members : Encoded jwk "n" ∧ Encoded jwk "e" := by simpa only [Sound, SoundJwk, rsa] using sound
      obtain ⟨n, e, read⟩ := rsaPublicFromJwk_read members.1 members.2
      rw [read]
      exact .read ((suits_map _).mpr rsa) (.rsa n e)
    · rw [if_neg rsa]
      exact .lost fun suits => rsa (jwkKind_rsa.mp ((suits_map _).mp suits))
  | binary value =>
    show Reading libs .rs256 _ (if isPem value then _ else none)
    by_cases pem : isPem value
    · rw [if_pos pem]
      obtain ⟨record, rest, entries, sound⟩ := sound pem
      have kind := kind_pem pem entries
      rw [entries]
      have readable (own : record.recordKind = some .rsa) : (Key.binary value).Suits libs .rs256 := by
        refine ⟨kind.trans own, fun ⟨_, point, params, others, first⟩ => ?_⟩
        rw [entries, List.cons.injEq] at first
        cases own.symm.trans (congrArg recordKind first.1)
      cases record with
      | rsaPublicKey n e => exact .read (readable rfl) (.rsa n e)
      | rsaPrivateKey n e => exact .read (readable rfl) (.rsa n e)
      | _ => exact .lost (not_suits_kind kind nofun)
    · rw [if_neg pem]
      exact .lost (not_suits_kind (if_neg pem : (Key.binary value).kind libs = some .secret) nofun)

theorem curveParam_sound {params : Curve} (sound : params ≠ .other) : curveParam params = some .secp256r1 := by
  cases params <;> first | rfl | exact absurd rfl sound

theorem ecPublic_reading (sound : key.Sound libs) : Reading libs .es256 key (ecPublic libs key) := by
  cases key with
  | rsaPublicKey _ _ | rsaPrivateKey _ _ => exact .lost (not_suits_kind rfl nofun)
  | ecPoint _ => exact sound.elim
  | ecPublicKey point params => exact .read ⟨rfl, id⟩ (.ec point params)
  | ecPrivateKey params point =>
    cases point with
    | none => exact sound.elim
    | some point =>
      show Reading libs .es256 _ ((curveParam params).map _)
      rw [curveParam_sound sound]
      exact .read ⟨rfl, id⟩ (.ec point _)
  | list _ | pair _ _ | other => exact .lost (not_suits_kind rfl nofun)
  | map jwk =>
    show Reading libs .es256 _ (if isText "EC" (jwk.lookup "kty") then ecPublicFromJwk jwk else none)
    by_cases ec : isText "EC" (jwk.lookup "kty")
    · rw [if_pos ec]
      replace ec := jwkKind_ec.mpr ec
      have members : isText "P-256" (jwk.lookup "crv") ∧ Encoded jwk "x" ∧ Encoded jwk "y" := by
        simpa only [Sound, SoundJwk, ec] using sound
      obtain ⟨point, read⟩ := ecPublicFromJwk_read members.1 members.2.1 members.2.2
      rw [read]
      exact .read ((suits_map _).mpr ec) (.ec point _)
    · rw [if_neg ec]
      exact .lost fun suits => ec (jwkKind_ec.mp ((suits_map _).mp suits))
  | binary value =>
    show Reading libs .es256 _ (if isPem value then _ else none)
    by_cases pem : isPem value
    · rw [if_pos pem]
      obtain ⟨record, rest, entries, sound⟩ := sound pem
      have kind := kind_pem pem entries
      rw [entries]
      cases record with
      | ecPrivateKey params point =>
        cases point with
        | none => exact sound.elim
        | some point =>
          show Reading libs .es256 _ ((curveParam params).map _)
          rw [curveParam_sound sound]
          refine .read ⟨kind, fun ⟨_, _, _, _, first⟩ => ?_⟩ (.ec point _)
          rw [entries, List.cons.injEq] at first
          cases first.1
      | ecPublicKey point params => exact .lost fun suits => suits.2 ⟨pem, point, params, rest, entries⟩
      | ecPoint _ => exact sound.elim
      | _ => exact .lost (not_suits_kind kind nofun)
    · rw [if_neg pem]
      exact .lost (not_suits_kind (if_neg pem : (Key.binary value).kind libs = some .secret) nofun)

theorem publicMaterial_reading {alg : Alg} (asymmetric : alg ≠ .hs256) (sound : key.Sound libs) :
    Reading libs alg key (publicMaterial libs alg key) := by
  cases alg with
  | hs256 => exact absurd rfl asymmetric
  | rs256 => exact rsaPublic_reading sound
  | es256 => exact ecPublic_reading sound

end Material

theorem findKid_list {items : List Key} {kid : String} {key : Key} (found : findKid kid (.list items) = some key) :
    key ∈ items.filterMap members.listed := by
  obtain ⟨item, among, taken⟩ := List.exists_of_findSome?_eq_some found
  refine List.mem_filterMap.mpr ⟨item, among, ?_⟩
  cases item with
  | pair name material => exact (Option.ite_none_right_eq_some.mp taken).2
  | map jwk => exact (Option.ite_none_right_eq_some.mp taken).2
  | _ => cases taken

theorem findKid_map {entries : List (String × Key)} {kid : String} {key : Key}
    (found : findKid kid (.map entries) = some key) :
    entries.lookup "keys" = none ∧ key ∈ entries.map Prod.snd := by
  obtain ⟨bare, found⟩ := Option.ite_none_left_eq_some.mp found
  exact ⟨Option.not_isSome_iff_eq_none.mp bare, List.mem_map.mpr ⟨_, mem_of_lookup found, rfl⟩⟩

end Key

/-! ## Keys that headers select -/

section Verification
variable {libs : Libraries} {keys : Key}

/-- The key that is selected is one of the set, and is read; or no key is selected, and that is said. -/
inductive Resolves (libs : Libraries) (keys : Key) (alg : Alg) : Option Key → Except Fault Key → Prop where
  | found {key : Key} (among : key ∈ keys.members) :
    Resolves libs keys alg (some key) (raiseOnNone (publicMaterial libs alg key))
  | refused {fault : Fault} (other : fault ≠ .raised) : Resolves libs keys alg none (.error fault)

theorem resolveKid_resolves {alg : Alg} {header : Json} {set : Key} {index : Nat}
    (held : ∀ kid key, findKid kid set = some key → key ∈ keys.members) :
    Resolves libs keys alg ((header.string? "kid").bind fun kid => findKid kid set)
      (resolveKid libs header alg set index) := by
  unfold resolveKid
  cases header.string? "kid" with
  | none => exact .refused (by simp)
  | some kid =>
    rw [Option.bind_some]
    cases found : findKid kid set with
    | none =>
      simp only [found]
      exact .refused (by simp)
    | some key =>
      simp only [found]
      exact .found (held kid key found)

theorem resolveKey_resolves (alg : Alg) (header : Json) (index : Nat) :
    Resolves libs keys alg (keys.selected alg header) (resolveKey libs header alg keys index) := by
  have asymmetric (other : alg ≠ .hs256) :
      Resolves libs keys alg (keys.selected alg header) (resolveKey libs header alg keys index) := by
    cases keys with
    | map entries =>
      have unfolded : Resolves libs (.map entries) alg
          (if (entries.lookup "kty").isSome then some (.map entries)
            else
              match entries.lookup "keys" with
              | some (.list items) => (header.string? "kid").bind fun kid => findKid kid (.list items)
              | _ => (header.string? "kid").bind fun kid => findKid kid (.map entries))
          (if (entries.lookup "kty").isSome then raiseOnNone (publicMaterial libs alg (.map entries))
            else
              match entries.lookup "keys" with
              | some (.list items) => resolveKid libs header alg (.list items) index
              | _ => resolveKid libs header alg (.map entries) index) := by
        by_cases jwk : (entries.lookup "kty").isSome
        · rw [if_pos jwk, if_pos jwk]
          refine .found ?_
          rw [Key.members, if_pos jwk]
          exact List.mem_singleton_self _
        · rw [if_neg jwk, if_neg jwk]
          split
          · rename_i items listed
            refine resolveKid_resolves fun kid key found => ?_
            rw [Key.members, if_neg jwk, listed]
            exact Key.findKid_list found
          · refine resolveKid_resolves fun kid key found => ?_
            obtain ⟨bare, among⟩ := Key.findKid_map found
            rw [Key.members, if_neg jwk, bare]
            exact among
      cases alg <;> first | exact absurd rfl other | exact unfolded
    | list items =>
      have listed : Resolves libs (.list items) alg ((header.string? "kid").bind fun kid => findKid kid (.list items))
          (resolveKid libs header alg (.list items) index) :=
        resolveKid_resolves fun kid key found => Key.findKid_list found
      cases alg <;> first | exact absurd rfl other | exact listed
    | binary value => cases alg <;> first | exact absurd rfl other | exact .refused nofun
    | _ => cases alg <;> first | exact absurd rfl other | exact .found (List.mem_singleton_self _)
  cases alg with
  | hs256 =>
    cases keys with
    | binary secret => exact Resolves.found (List.mem_singleton_self _)
    | _ => exact .refused nofun
  | _ => exact asymmetric nofun

/-! ## Signatures that count -/

variable (libs) in
/-- The signature is one under the key, by the algorithm of its header. -/
def Validates (bytes : Bytes) (shown : Presented) (key : Key) : Prop :=
  let input := signingInput shown.protectedB64 bytes
  match shown.alg with
  | .hs256 => ∃ secret, key = .binary secret ∧ libs.hmac secret input = shown.signature
  | .rs256 => ∃ n e, rsaPublic libs key = some (.rsaPublicKey n e) ∧ libs.verifyRsa n e input shown.signature
  | .es256 => ∃ point params der, ecPublic libs key = some (.ecPublicKey point params) ∧
      rawToDer libs shown.signature = some der ∧ libs.verifyEc point params input der

variable (libs) in
/-- The entry is over these bytes, and under the key that its header selects. -/
def Accepted (keys : Key) (bytes : Bytes) (entry : Json) : Prop :=
  ∃ shown key, present libs entry = .ok shown ∧ shown.digest = sha256Hex libs bytes ∧
    keys.selected shown.alg shown.header = some key ∧ Validates libs bytes shown key

variable (libs) in
/-- The header of the entry selects no public key, or one for its own algorithm. -/
def Matched (keys : Key) (entry : Json) : Prop :=
  ∀ shown, present libs entry = .ok shown → shown.alg ≠ .hs256 →
    ∀ key, keys.selected shown.alg shown.header = some key → key.Suits libs shown.alg

theorem Validates.material {bytes : Bytes} {shown : Presented} {key : Key} (valid : Validates libs bytes shown key) :
    (publicMaterial libs shown.alg key).isSome := by
  unfold Validates at valid
  cases named : shown.alg <;> simp only [named] at valid
  · rfl
  · obtain ⟨n, e, read, _⟩ := valid
    exact Option.isSome_of_eq_some read
  · obtain ⟨point, params, der, read, _⟩ := valid
    exact Option.isSome_of_eq_some read

/-- What is checked of a key that was read. -/
theorem signatureValid_public (bytes : Bytes) {shown : Presented} {key record : Key}
    (read : publicMaterial libs shown.alg key = some record) (usable : Key.Public shown.alg record) :
    ∃ valid, signatureValid libs shown.alg (signingInput shown.protectedB64 bytes) shown.signature record = some valid ∧
      (valid = true ↔ Validates libs bytes shown key) := by
  obtain ⟨protectedB64, header, alg, digest, signature⟩ := shown
  cases usable with
  | rsa n e =>
    refine ⟨_, rfl, ?_, ?_⟩
    · exact fun valid => ⟨n, e, read, valid⟩
    · rintro ⟨n', e', read', valid⟩
      cases (Option.some.inj (read.symm.trans read') : Key.rsaPublicKey n e = .rsaPublicKey n' e')
      exact valid
  | ec point params =>
    unfold signatureValid
    dsimp only
    cases raw : rawToDer libs signature with
    | none =>
      refine ⟨false, rfl, iff_of_false Bool.false_ne_true ?_⟩
      rintro ⟨_, _, der, _, given, _⟩
      cases raw.symm.trans given
    | some der =>
      refine ⟨_, rfl, fun valid => ⟨point, params, der, read, raw, valid⟩, ?_⟩
      rintro ⟨point', params', der', read', given, valid⟩
      cases (Option.some.inj (read.symm.trans read') : Key.ecPublicKey point params = .ecPublicKey point' params')
      cases raw.symm.trans given
      exact valid

theorem signatureValid_secret (libs : Libraries) (bytes : Bytes) {shown : Presented} (secret : Bytes) (symmetric : shown.alg = .hs256) :
    ∃ valid, signatureValid libs shown.alg (signingInput shown.protectedB64 bytes) shown.signature (.binary secret) =
      some valid ∧ (valid = true ↔ Validates libs bytes shown (.binary secret)) := by
  obtain ⟨protectedB64, header, alg, digest, signature⟩ := shown
  cases symmetric
  refine ⟨_, rfl, decide_eq_true_iff.trans ⟨fun same => ⟨secret, rfl, same⟩, ?_⟩⟩
  rintro ⟨_, ⟨⟩, same⟩
  exact same

/-- Once the key is read, the entry is accepted or refused. -/
theorem verifyEntry_read {bytes : Bytes} {entry : Json} {index : Nat} {shown : Presented} {key record : Key}
    (presented : present libs entry = .ok shown) (chosen : keys.selected shown.alg shown.header = some key)
    (resolved : resolveKey libs shown.header shown.alg keys index = .ok record) {valid : Bool}
    (checked : signatureValid libs shown.alg (signingInput shown.protectedB64 bytes) shown.signature record = some valid)
    (means : valid = true ↔ Validates libs bytes shown key) :
    Follows .raised (verifyEntry libs keys bytes entry index) (Accepted libs keys bytes entry) True := by
  have accepted : Accepted libs keys bytes entry ↔ shown.digest = sha256Hex libs bytes ∧ valid = true := by
    constructor
    · rintro ⟨shown', key', presented', same, chosen', valid⟩
      cases presented.symm.trans presented'
      cases chosen.symm.trans chosen'
      exact ⟨same, means.mpr valid⟩
    · exact fun both => ⟨shown, key, presented, both.1, chosen, means.mp both.2⟩
  refine Follows.iff ?_ accepted.symm Iff.rfl
  simp only [verifyEntry, presented, Except.mapError, Bind.bind, Except.bind, resolved, checked]
  by_cases same : shown.digest = sha256Hex libs bytes
  · rw [if_neg (not_not.mpr same)]
    cases valid with
    | true => exact .ok ⟨same, rfl⟩ trivial
    | false => exact .refused (by simp) (fun both => by cases both.2) trivial
  · rw [if_pos same]
    exact .refused (by simp) (fun both => same both.1) trivial

theorem selected_mem (libs : Libraries) {alg : Alg} {header : Json} {key : Key} (chosen : keys.selected alg header = some key) :
    key ∈ keys.members := by
  have resolves : Resolves libs keys alg (keys.selected alg header) (resolveKey libs header alg keys 0) :=
    resolveKey_resolves alg header 0
  rw [chosen] at resolves
  generalize resolveKey libs header alg keys 0 = result at resolves
  cases resolves with
  | found among => exact among

variable (libs) in
/-- Every public key that a header may select is well formed. -/
def Key.Usable (keys : Key) : Prop :=
  ∀ {alg : Alg} {header : Json} {key : Key}, alg ≠ .hs256 → keys.selected alg header = some key → key.Sound libs

theorem usable_of_sound (sound : ∀ key ∈ keys.members, key.Sound libs) : keys.Usable libs :=
  fun _ chosen => sound _ (selected_mem libs chosen)

theorem binary_unselected {value : Bytes} {alg : Alg} {header : Json} {key : Key} (asymmetric : alg ≠ .hs256) :
    (Key.binary value).selected alg header ≠ some key := by
  cases alg <;> first | exact absurd rfl asymmetric | nofun

theorem selected_secret {header : Json} {key : Key} (chosen : keys.selected .hs256 header = some key) :
    ∃ secret, keys = .binary secret ∧ key = .binary secret := by
  cases keys with
  | binary secret => exact ⟨secret, rfl, (Option.some.inj chosen).symm⟩
  | _ => cases chosen

theorem verifyEntry_follows (sound : keys.Usable libs) (bytes : Bytes) (entry : Json) (index : Nat) :
    Follows .raised (verifyEntry libs keys bytes entry index) (Accepted libs keys bytes entry)
      (Matched libs keys entry) := by
  cases presented : present libs entry with
  | error reason =>
    have refused : verifyEntry libs keys bytes entry index = .error (.malformed index reason) := by
      simp only [verifyEntry, presented, Except.mapError, Bind.bind, Except.bind]
    rw [refused]
    refine .refused nofun ?_ ?_
    · rintro ⟨shown, key, presented', _⟩
      cases presented.symm.trans presented'
    · intro shown presented'
      cases presented.symm.trans presented'
  | ok shown =>
    have stopped {fault : Fault} (resolved : resolveKey libs shown.header shown.alg keys index = .error fault) :
        verifyEntry libs keys bytes entry index = .error fault := by
      simp only [verifyEntry, presented, Except.mapError, Bind.bind, Except.bind, resolved]
    have resolves : Resolves libs keys shown.alg (keys.selected shown.alg shown.header)
        (resolveKey libs shown.header shown.alg keys index) := resolveKey_resolves shown.alg shown.header index
    generalize resolved : resolveKey libs shown.header shown.alg keys index = result at resolves
    cases chosen : keys.selected shown.alg shown.header with
    | none =>
      rw [chosen] at resolves
      cases resolves with
      | refused other =>
        rw [stopped resolved]
        refine .refused other ?_ ?_
        · rintro ⟨shown', key, presented', _, chosen', _⟩
          cases presented.symm.trans presented'
          cases chosen.symm.trans chosen'
        · intro shown' presented' _ key chosen'
          cases presented.symm.trans presented'
          cases chosen.symm.trans chosen'
    | some key =>
      rw [chosen] at resolves
      cases resolves with
      | found among =>
        by_cases symmetric : shown.alg = .hs256
        · rw [symmetric] at chosen resolved
          obtain ⟨secret, rfl, rfl⟩ := selected_secret chosen
          obtain ⟨valid, checked, means⟩ := signatureValid_secret libs bytes secret symmetric
          refine (verifyEntry_read presented (symmetric ▸ chosen) (symmetric ▸ resolved) checked means).iff Iff.rfl ?_
          refine iff_of_true trivial fun shown' presented' asymmetric => ?_
          cases presented.symm.trans presented'
          exact absurd symmetric asymmetric
        · have reading := Key.publicMaterial_reading symmetric (sound symmetric chosen)
          generalize read : publicMaterial libs shown.alg key = material at reading resolved
          cases reading with
          | read suits usable =>
            obtain ⟨valid, checked, means⟩ := signatureValid_public bytes read usable
            refine (verifyEntry_read presented chosen resolved checked means).iff Iff.rfl ?_
            refine iff_of_true trivial fun shown' presented' _ key' chosen' => ?_
            cases presented.symm.trans presented'
            cases chosen.symm.trans chosen'
            exact suits
          | lost unsuited =>
            rw [stopped resolved]
            refine .crashed ?_ fun matched => unsuited (matched shown presented symmetric key chosen)
            rintro ⟨shown', key', presented', _, chosen', valid⟩
            cases presented.symm.trans presented'
            cases chosen.symm.trans chosen'
            have readable := valid.material
            rw [read] at readable
            cases readable

/-! ## Cards -/

variable (libs) in
/-- The entry is a signature over the card, by a key of the type that its header names. -/
def SignedBy (card : AgentCard) (entry : Json) (key : Key) : Prop :=
  ∃ bytes shown, jcsBytes libs card = .ok bytes ∧ present libs entry = .ok shown ∧
    shown.digest = sha256Hex libs bytes ∧ key.kind libs = some shown.alg.kind ∧ Validates libs bytes shown key

variable (libs) in
structure FailClosed (card : AgentCard) (keys : Key) : Prop where
  typed : verify libs card keys ≠ .error .raised
  signed : verify libs card keys = .ok () → ∃ entries entry key, card.signatures = .array entries ∧ entry ∈ entries ∧
    key ∈ keys.members ∧ SignedBy libs card entry key

/-- A PEM text in the place of the shared secret. -/
def Key.IsPem : Key → Prop
  | .binary value => isPem value
  | _ => False

variable (libs) in
/-- The signatures keep clear of what the code does not refuse. -/
def Harmless (card : AgentCard) (keys : Key) : Prop :=
  match card.signatures with
  | .array [] => True
  | .array entries => ∃ bytes, jcsBytes libs card = .ok bytes ∧
      (∀ before entry after, entries = before ++ entry :: after →
        (∀ earlier ∈ before, Accepted libs keys bytes earlier) → Matched libs keys entry) ∧
      (keys.IsPem → ∃ entry ∈ entries, ¬ Accepted libs keys bytes entry)
  | .object entries => entries ≠ [] ∧ ∃ bytes, jcsBytes libs card = .ok bytes
  | _ => False

theorem raiseOnNone_error {α : Type} {value : Option α} {fault : Fault} (failed : raiseOnNone value = .error fault) :
    fault = .raised := by
  cases value <;> cases failed
  rfl

theorem jcsBytes_error {card : AgentCard} {fault : Fault} (failed : jcsBytes libs card = .error fault) :
    fault = .raised := by
  unfold jcsBytes at failed
  split at failed
  · exact raiseOnNone_error failed
  · exact (Except.error.inj failed).symm

theorem kind_of_isPem {key : Key} (sound : ∀ key ∈ keys.members, key.Sound libs) (pem : keys.IsPem)
    (among : key ∈ keys.members) : key.kind libs ≠ some .secret := by
  cases keys with
  | binary value =>
    cases List.mem_singleton.mp among
    obtain ⟨record, rest, entries, sound⟩ := sound _ among pem
    rw [Key.kind_pem pem entries]
    cases record <;> nofun
  | _ => exact pem.elim

/-- An accepted entry is signed by a key of the set, unless a PEM text was taken for a secret. -/
theorem Accepted.signed {card : AgentCard} {bytes : Bytes} {entry : Json} (canonical : jcsBytes libs card = .ok bytes)
    (accepted : Accepted libs keys bytes entry) (matched : Matched libs keys entry) (secret : ¬ keys.IsPem) :
    ∃ key ∈ keys.members, SignedBy libs card entry key := by
  obtain ⟨shown, key, presented, same, chosen, valid⟩ := accepted
  refine ⟨key, selected_mem libs chosen, bytes, shown, canonical, presented, same, ?_, valid⟩
  by_cases symmetric : shown.alg = .hs256
  · rw [symmetric] at chosen ⊢
    obtain ⟨secret', rfl, rfl⟩ := selected_secret chosen
    exact if_neg secret
  · exact (matched shown presented symmetric key chosen).1

/-- No entry that is accepted under a PEM text is signed by it. -/
theorem Accepted.not_signed {card : AgentCard} {bytes : Bytes} {entry : Json} {key : Key}
    (sound : ∀ key ∈ keys.members, key.Sound libs) (pem : keys.IsPem) (accepted : Accepted libs keys bytes entry)
    (among : key ∈ keys.members) : ¬ SignedBy libs card entry key := by
  rintro ⟨_, shown, _, presented, _, kind, _⟩
  obtain ⟨shown', key', presented', _, chosen, _⟩ := accepted
  cases presented.symm.trans presented'
  have symmetric : shown.alg = .hs256 := by
    cases keys with
    | binary value => exact of_not_not fun asymmetric => binary_unselected asymmetric chosen
    | _ => exact pem.elim
  exact kind_of_isPem sound pem among (kind.trans (by rw [symmetric]; rfl))

theorem verify_entries {card : AgentCard} {bytes : Bytes} {first : Json} {rest : List Json}
    (sound : keys.Usable libs) (canonical : jcsBytes libs card = .ok bytes)
    (given : card.signatures = .array (first :: rest)) :
    Follows .raised (verify libs card keys) (∀ entry ∈ first :: rest, Accepted libs keys bytes entry)
      (∀ before entry after, first :: rest = before ++ entry :: after →
        (∀ earlier ∈ before, Accepted libs keys bytes earlier) → Matched libs keys entry) := by
  have unfolded : verify libs card keys =
      (first :: rest).zipIdx.forM fun item => verifyEntry libs keys bytes item.1 item.2 := by
    simp only [verify, given, canonical]
    rfl
  have each : ((⟨Accepted libs keys bytes, Matched libs keys⟩ : Check Json).on Prod.fst).Describes Fault.raised
      fun item : Json × Nat => verifyEntry libs keys bytes item.1 item.2 :=
    fun item => verifyEntry_follows sound bytes item.1 item.2
  rw [unfolded]
  exact Check.Describes.forM_zipIdx each (first :: rest)

/-- Under a shared secret nothing raises but what the signatures are, and the card itself. -/
theorem verify_secret_survives {card : AgentCard} {secret : Bytes} : verify libs card (.binary secret) ≠ .error .raised ↔
    card.signatures = .array [] ∨
      ((card.signatures.isArray ∨ card.signatures.isObject) ∧ ∃ bytes, jcsBytes libs card = .ok bytes) := by
  have unencoded {fault : Fault} (failed : jcsBytes libs card = .error fault)
      (same : verify libs card (.binary secret) = .error fault) : ¬ verify libs card (.binary secret) ≠ .error .raised :=
    fun survives => survives (same.trans (congrArg Except.error (jcsBytes_error failed)))
  cases given : card.signatures with
  | array entries =>
    cases entries with
    | nil =>
      refine iff_of_true ?_ (.inl rfl)
      simp only [verify, given]
      nofun
    | cons first rest =>
      cases canonical : jcsBytes libs card with
      | error fault =>
        refine iff_of_false (unencoded canonical ?_) (by simp)
        simp only [verify, given, canonical]
        rfl
      | ok bytes =>
        have usable : (Key.binary secret).Usable libs := fun asymmetric chosen =>
          absurd chosen (binary_unselected asymmetric)
        refine iff_of_true ((verify_entries usable canonical given).steady.mpr ?_) (.inr ⟨.inl rfl, bytes, rfl⟩)
        exact fun _ entry _ _ _ shown _ asymmetric key chosen => absurd chosen (binary_unselected asymmetric)
  | object entries =>
    cases canonical : jcsBytes libs card with
    | error fault =>
      refine iff_of_false (unencoded canonical ?_) (by simp)
      simp only [verify, given, canonical]
      rfl
    | ok bytes =>
      refine iff_of_true ?_ (.inr ⟨.inr rfl, bytes, rfl⟩)
      simp only [verify, given, canonical]
      cases entries <;> nofun
  | _ =>
    refine iff_of_false (fun survives => survives ?_) (by simp [Json.isArray, Json.isObject])
    simp only [verify, given]

theorem failClosed_iff (card : AgentCard) (sound : ∀ key ∈ keys.members, key.Sound libs) :
    FailClosed libs card keys ↔ Harmless libs card keys := by
  have refused {fault : Fault} (typed : verify libs card keys = .error fault) (other : fault ≠ .raised) :
      FailClosed libs card keys :=
    ⟨by rw [typed]; exact fun same => other (Except.error.inj same), by rw [typed]; intro same; cases same⟩
  have unencoded {fault : Fault} (failed : jcsBytes libs card = .error fault)
      (same : verify libs card keys = .error fault) : ¬ FailClosed libs card keys := fun closed =>
    closed.typed (same.trans (congrArg Except.error (jcsBytes_error failed)))
  cases given : card.signatures with
  | array entries =>
    cases entries with
    | nil =>
      have empty : verify libs card keys = .error .noSignatures := by simp only [verify, given]
      refine iff_of_true (refused empty (by simp)) ?_
      simp only [Harmless, given]
    | cons first rest =>
      cases canonical : jcsBytes libs card with
      | error fault =>
        refine iff_of_false (unencoded canonical ?_) ?_
        · simp only [verify, given, canonical]
          rfl
        · simp only [Harmless, given, canonical]
          rintro ⟨bytes, failed, _⟩
          cases failed
      | ok bytes =>
        obtain ⟨accepts, steady⟩ := verify_entries (usable_of_sound sound) canonical given
        have harmless : Harmless libs card keys ↔
            (∀ before entry after, first :: rest = before ++ entry :: after →
              (∀ earlier ∈ before, Accepted libs keys bytes earlier) → Matched libs keys entry) ∧
            (keys.IsPem → ∃ entry ∈ first :: rest, ¬ Accepted libs keys bytes entry) := by
          simp only [Harmless, given, canonical, Except.ok.injEq, exists_eq_left']
        rw [harmless, ← steady]
        constructor
        · intro closed
          refine ⟨closed.typed, fun pem => ?_⟩
          by_contra all
          have all : ∀ entry ∈ first :: rest, Accepted libs keys bytes entry := by
            intro entry member
            by_contra other
            exact all ⟨entry, member, other⟩
          obtain ⟨⟨⟩, verified⟩ := accepts.mpr all
          obtain ⟨entries, entry, key, same, member, among, signed⟩ := closed.signed verified
          cases given.symm.trans same
          exact (all entry member).not_signed sound pem among signed
        · rintro ⟨typed, secret⟩
          refine ⟨typed, fun verified => ?_⟩
          have all := accepts.mp ⟨(), verified⟩
          have matched := steady.mp typed [] first rest rfl (List.forall_mem_nil _)
          have plain : ¬ keys.IsPem := fun pem => by
            obtain ⟨entry, member, other⟩ := secret pem
            exact other (all entry member)
          obtain ⟨key, among, signed⟩ := (all first List.mem_cons_self).signed canonical matched plain
          exact ⟨_, first, key, given, List.mem_cons_self, among, signed⟩
  | object entries =>
    cases canonical : jcsBytes libs card with
    | error fault =>
      refine iff_of_false (unencoded canonical ?_) ?_
      · simp only [verify, given, canonical]
        rfl
      · simp only [Harmless, given, canonical]
        rintro ⟨_, bytes, failed⟩
        cases failed
    | ok bytes =>
      simp only [Harmless, given, canonical]
      cases entries with
      | nil =>
        -- Nothing is signed, and nothing is refused.
        have vacuous : verify libs card keys = .ok () := by
          simp only [verify, given, canonical]
          rfl
        refine iff_of_false (fun closed => ?_) fun harmless => harmless.1 rfl
        obtain ⟨entries, _, _, same, _⟩ := closed.signed vacuous
        cases given.symm.trans same
      | cons entry entries =>
        refine iff_of_true (refused ?_ (by simp : Fault.malformed 0 .notAMap ≠ .raised)) ⟨List.cons_ne_nil _ _, bytes, rfl⟩
        simp only [verify, given, canonical]
        rfl
  | _ =>
    refine iff_of_false (fun closed => closed.typed ?_) ?_
    · simp only [verify, given]
    · simp only [Harmless, given, not_false_eq_true]

end Verification

/-! ## A header that names the other algorithm -/

def confusedText : String := "\x7b\"alg\":\"RS256\",\"sha256\":\"\"\x7d"

/-- As far as one header needs them. -/
def plainLibraries : Libraries where
  decode bytes := if bytes = utf8 confusedText then
    some (.object [("alg", .string "RS256"), (digestMember, .string "")]) else none
  canonical _ := some []
  sha256 bytes := bytes
  hmac key input := key ++ input
  verifyRsa _ _ _ _ := false
  verifyEc _ _ _ _ := false
  der _ _ := []
  pem _ := []

/-- The base point of the curve, as a JWK. -/
def pointJwk : List (String × Key) :=
  [("kty", .binary (utf8 "EC")), ("crv", .binary (utf8 "P-256")),
    ("x", .binary (utf8 "axfR8uEsQkf4vOblY6RA8ncDfYEt6zOg9KE5RdiYwpY")),
    ("y", .binary (utf8 "T-NC4v4af5uO5-tKfA-eFivOM1drMV7Oy7ZAaDe_UfU"))]

def confusedCard : AgentCard where
  name := .string "name"
  description := .string "description"
  url := .string "http://localhost"
  version := .string "1"
  skills := []
  signatures := .array [.object
    [("protected", .string "eyJhbGciOiJSUzI1NiIsInNoYTI1NiI6IiJ9"), ("signature", .string "")]]

theorem encoded_text {jwk : List (String × Key)} {name text : String}
    (member : jwk.lookup name = some (.binary (utf8 text))) (decodes : (b64urlDecode (utf8 text)).isSome) :
    Key.Encoded jwk name := by
  obtain ⟨bytes, decoded⟩ := Option.isSome_iff_exists.mp decodes
  exact ⟨utf8 text, bytes, member, decoded⟩

theorem pointJwk_sound : ∀ key ∈ (Key.map pointJwk).members, key.Sound plainLibraries := by
  intro key member
  cases List.mem_singleton.mp member
  have kind : Key.jwkKind pointJwk = some .ec := Key.jwkKind_ec.mpr (Key.isText_iff.mpr rfl)
  simp only [Key.Sound, Key.SoundJwk, kind]
  exact ⟨Key.isText_iff.mpr rfl, encoded_text rfl (by decide), encoded_text rfl (by decide)⟩

theorem failClosed_iff_confused :
    FailClosed plainLibraries confusedCard (.map pointJwk) ↔ Harmless plainLibraries confusedCard (.map pointJwk) :=
  failClosed_iff confusedCard pointJwk_sound

theorem confused_raises : ¬ ∀ libs card (keys : Key), (∀ key ∈ keys.members, key.Sound libs) →
    FailClosed libs card keys := by
  intro closed
  exact (closed plainLibraries confusedCard (.map pointJwk) pointJwk_sound).typed rfl

end AshA2A.Protocol.CardSigning
