import AshA2A.Actuator.Fence
import AshA2A.Proofs.Standing
import Mathlib.Data.List.Dedup

/-! What it takes to pass the fence. -/

namespace AshA2A.Actuator.Fence

open Sa2aCrypto

variable {host : Host} {context : Context} {request : Request} {view : View}

theorem firstRefusal_ok {results : List (Nat × Except String Unit)} :
    firstRefusal results = .ok () ↔ ∀ result ∈ results, result.2 = .ok () := by
  induction results with
  | nil => simp [firstRefusal]
  | cons result results ih =>
    obtain ⟨number, answer⟩ := result
    cases answer with
    | error code => simp [firstRefusal]
    | ok _ => simp [firstRefusal, ih]

@[simp] theorem require_ok {condition : Bool} {code : String} :
    require condition code = .ok () ↔ condition = true := by
  cases condition <;> simp [require]

/-! ## Signatures -/

/-- A custodian of the registry whose active, unrevoked key signed exactly the message made of
the certificate's fields. -/
def Vouched (host : Host) (signed : PublicKey → Bytes → Prop) (context : Context) (request : Request)
    (custodian : String) : Prop :=
  ∃ signature ∈ request.cert.signatures, ∃ key text,
    context.registry signature.kid = some key ∧ key.custodianId = custodian ∧ key.state = .active ∧
    (∀ revocation, context.revocation = some revocation → signature.kid ∉ revocation.revoked) ∧
    host.library.encode (request.cert.fields signature) = some text ∧
    signed key.publicKey (SignedMessage.header ++ text)

theorem verifyOne_ok {read : Nat} {signature : Signature} {standing : Standing}
    (valid : verifyOne host context request read signature = .ok standing) :
    ∃ key text, context.registry signature.kid = some key ∧ key.state = .active ∧
      standing.custodianId = key.custodianId ∧ request.cert.audience = context.audience ∧
      host.library.encode (request.cert.fields signature) = some text ∧
      host.verify signature.alg (SignedMessage.header ++ text) signature.signature key.publicKey =
        .ok () := by
  unfold verifyOne at valid
  split at valid
  · cases valid
  next bytes built =>
    obtain ⟨text, encoded, rfl⟩ := build_ok built
    obtain ⟨key, found, active, addressed, verified, custodian, _⟩ := verifyEnvelope_ok valid
    exact ⟨key, text, found, active, custodian, (Option.some.inj addressed).symm, encoded, verified⟩

theorem mem_custodians {standings : List (Except String Standing)} {custodian : String}
    (member : custodian ∈ custodians standings) :
    ∃ standing, .ok standing ∈ standings ∧ standing.custodianId = custodian := by
  simp only [custodians, List.mem_dedup, List.mem_filterMap] at member
  obtain ⟨result, present, named⟩ := member
  cases result with
  | error code => cases named
  | ok standing => exact ⟨standing, present, Option.some.inj named⟩

theorem quorumFor_pos (consequenceClass : String) : 0 < context.quorumFor consequenceClass := by
  unfold Context.quorumFor
  split
  · exact Nat.succ_pos _
  · simp [Context.unsatisfiable]

/-! ## The fence -/

/-- The certificate is about this effect, this actuator and this moment. -/
structure Covers (host : Host) (context : Context) (view : View) (request : Request) (bytes : Bytes) :
    Prop where
  digest : request.cert.effectDigest = host.digest bytes
  principal : request.cert.principal = request.effect.principal
  policyEpoch : request.cert.policyEpoch = context.policyEpoch
  revocationEpoch : ∃ revocation, context.revocation = some revocation ∧
    revocation.epoch ≤ request.cert.revocationEpoch
  generation : request.cert.generation = expectedGeneration context request view
  audience : request.cert.audience = context.audience
  started : (request.cert.notBefore : Int) ≤ context.clock 12 + context.skew
  unexpired : context.clock 12 < request.cert.expires

theorem window_ok (passed : check12ValidityWindow context request = .ok ()) :
    (request.cert.notBefore : Int) ≤ context.clock 12 + context.skew ∧
      context.clock 12 < request.cert.expires := by
  simp only [check12ValidityWindow] at passed
  split at passed
  · cases passed
  split at passed
  · cases passed
  split at passed
  · cases passed
  next started =>
  split at passed
  · cases passed
  next unexpired => omega

theorem revocation_ok (passed : check13Revocation context request = .ok ()) :
    ∃ revocation, context.revocation = some revocation ∧
      revocation.epoch ≤ request.cert.revocationEpoch ∧
      ∀ signature ∈ request.cert.signatures, signature.kid ∉ revocation.revoked := by
  unfold check13Revocation at passed
  cases known : context.revocation with
  | none => simp [known] at passed
  | some revocation =>
    simp only [known] at passed
    split at passed
    · cases passed
    split at passed
    · cases passed
    split at passed
    · cases passed
    next fresh =>
    split at passed
    · cases passed
    next unrevoked =>
    refine ⟨revocation, rfl, Nat.not_lt.mp fresh, ?_⟩
    intro signature member
    simp only [List.any_eq_true, decide_eq_true_eq, not_exists, not_and] at unrevoked
    exact unrevoked signature member

/-- Enough distinct custodians signed exactly this certificate, and it covers the effect. -/
theorem accepted_vouched {effectBytes certBytes : Bytes} {signed : PublicKey → Bytes → Prop}
    (unforgeable : ∀ alg message signature key,
      host.verify alg message signature key = .ok () → signed key message)
    (parsed : parse host.library effectBytes certBytes = .ok request)
    (accepted : run host context request view = .ok ()) :
    (∃ custodians : List String, custodians.Nodup ∧
      context.quorumFor request.effect.consequenceClass ≤ custodians.length ∧
      ∀ custodian ∈ custodians, Vouched host signed context request custodian) ∧
    Covers host context view request effectBytes := by
  have bytes : request.bytes = effectBytes := by
    simp only [parse, bind, Except.bind] at parsed
    split at parsed
    · cases parsed
    split at parsed
    · cases parsed
    cases parsed
    rfl
  have passes := firstRefusal_ok.mp accepted
  simp only [checks, List.forall_mem_cons] at passes
  obtain ⟨_, digest, principal, _, _, _, _, _, policyEpoch, _, quorum, window, revoked, _, _, generation, _⟩ :=
    passes
  simp only [check02EffectDigest, check03Principal, check09PolicyEpoch, check11Quorum, check16Generation,
    require_ok, Bool.decide_and, Bool.and_eq_true, decide_eq_true_eq]
    at digest principal policyEpoch quorum generation
  obtain ⟨revocation, known, epoch, unrevoked⟩ := revocation_ok revoked
  have vouched : ∀ custodian ∈ custodians (verifyAll host context request 11),
      Vouched host signed context request custodian ∧ request.cert.audience = context.audience := by
    intro custodian member
    obtain ⟨standing, present, rfl⟩ := mem_custodians member
    obtain ⟨signature, given, valid⟩ := List.mem_map.mp present
    obtain ⟨key, text, found, active, named, addressed, encoded, verified⟩ := verifyOne_ok valid
    refine ⟨⟨signature, given, key, text, found, named.symm, active, ?_, encoded, ?_⟩, addressed⟩
    · intro other same
      cases known.symm.trans same
      exact unrevoked signature given
    · exact unforgeable _ _ _ _ verified
  -- a quorum is never zero, so that some signature vouches for the audience
  obtain ⟨custodian, member⟩ := List.exists_mem_of_length_pos
    (Nat.lt_of_lt_of_le (quorumFor_pos request.effect.consequenceClass) quorum)
  obtain ⟨started, unexpired⟩ := window_ok window
  refine ⟨⟨custodians (verifyAll host context request 11), List.nodup_dedup _, quorum,
    fun custodian member => (vouched custodian member).1⟩, ?_⟩
  exact {
    digest := by rw [← bytes, digest]
    principal := principal.1.symm
    policyEpoch := policyEpoch.2
    revocationEpoch := ⟨revocation, known, epoch⟩
    generation := generation
    audience := (vouched custodian member).2
    started := started
    unexpired := unexpired }

/-! A probe that one custodian certifies. -/

theorem ok_of_toBool {result : Except (Nat × String) Unit} (passed : result.toBool = true) :
    result = .ok () := by
  cases result with
  | error code => cases passed
  | ok _ => rfl

def probeEffect : Json :=
  .object [("v", .int 1), ("principal", .string "principal"), ("subject", .string "subject"),
    ("capability", .string "actuator.noop.probe"), ("consequence_class", .string "none"),
    ("effect_type", .string "noop_probe"), ("effect_instance_id", .string "instance-1"),
    ("resource_bounds", .object [("max_bytes", .int 0)]), ("policy_epoch", .int 0),
    ("params", .object [])]

def probeDigest : String := "sha256:" ++ String.ofList (List.replicate 64 'a')

def probeSignature : Signature := ⟨"kid", "EdDSA", "nonce", [0, 0, 0]⟩

def probeCertificate : Certificate :=
  ⟨1, probeDigest, "principal", 0, 0, 1, 0, 60, "actuator", [probeSignature]⟩

def probeCertificateJson : Json :=
  .object [("v", .int 1), ("effect_digest", .string probeDigest), ("principal", .string "principal"),
    ("policy_epoch", .int 0), ("revocation_epoch", .int 0), ("generation", .int 1), ("not_before", .int 0),
    ("expires", .int 60), ("audience", .string "actuator"),
    ("signatures", .array [.object [("kid", .string "kid"), ("alg", .string "EdDSA"),
      ("nonce", .string "nonce"), ("signature", .string "AAAA")]])]

/-- Three texts, each read back to its own value. -/
def probeLibrary : Json.Library where
  decode bytes :=
    if bytes = [1] then some probeEffect
    else if bytes = [2] then some probeCertificateJson
    else if bytes = [3] then some (probeCertificate.fields probeSignature)
    else none
  encode json :=
    if (json.string? "capability").isSome then some [1]
    else if (json.string? "nonce").isSome then some [3]
    else some [2]

def probeKey : KeyRecord :=
  { kid := "kid", alg := "EdDSA", publicKey := .single [7], custodianId := "custodian", custodyTier := .i3
    state := .active }

def probeHost : Host where
  library := probeLibrary
  sha256 _ := String.ofList (List.replicate 64 'a')
  kidOf _ _ := some "kid"
  supports _ := true
  verify _ message _ key :=
    if message = SignedMessage.header ++ [3] ∧ key = .single [7] then .ok () else .error "bad_signature"

def probeContext : Context :=
  { registry := fun kid => if kid = "kid" then some probeKey else none
    audience := "actuator"
    policyEpoch := 0
    revocation := some ⟨0, 0, []⟩
    allowedSubjects := ["subject"]
    quorumDefault := .integer 1
    clock := fun _ => 10 }

def probeRequest : Request :=
  ⟨⟨1, "principal", "subject", "actuator.noop.probe", "none", "noop_probe", "instance-1", 0, 0, .object []⟩,
    [1], probeCertificate⟩

theorem accepted_vouched_probe :
    (∃ custodians : List String, custodians.Nodup ∧
      probeContext.quorumFor "none" ≤ custodians.length ∧
      ∀ custodian ∈ custodians, Vouched probeHost
        (fun key message => key = .single [7] ∧ message = SignedMessage.header ++ [3])
        probeContext probeRequest custodian) ∧
    Covers probeHost probeContext ⟨none, fun _ => none⟩ probeRequest [1] := by
  have parsed : parse probeHost.library [1] [2] = .ok probeRequest := rfl
  have passed : (run probeHost probeContext probeRequest ⟨none, fun _ => none⟩).toBool = true := by
    decide +kernel
  refine accepted_vouched ?_ parsed (ok_of_toBool passed)
  intro alg message signature key verified
  by_cases signed : message = SignedMessage.header ++ [3] ∧ key = .single [7]
  · exact signed.symm
  · simp [probeHost, signed] at verified

end AshA2A.Actuator.Fence
