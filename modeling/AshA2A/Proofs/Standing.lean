import AshA2A.Sa2aCrypto
import AshA2A.Term

/-! What a built message and a verified envelope say. -/

namespace AshA2A.Sa2aCrypto

variable {host : Host}

theorem build_ok {library : Json.Library} {entries : List (String × Json)} {bytes : Bytes}
    (built : SignedMessage.build library (.object entries) = .ok bytes) :
    ∃ text, library.encode (.object entries) = some text ∧ bytes = SignedMessage.header ++ text := by
  simp only [SignedMessage.build, SignedMessage.normalize, bind, Except.bind] at built
  cases walked : SignedMessage.walk 0 0 (.object entries) with
  | error code => simp [walked] at built
  | ok count =>
    simp only [walked] at built
    split at built
    · cases built
    · simp only [SignedMessage.encode] at built
      cases encoded : library.encode (.object entries) with
      | none => simp [encoded] at built
      | some text =>
        simp only [encoded] at built
        split at built
        · cases built
        next short =>
          split at short
          · cases short
            cases built
            exact ⟨_, rfl, rfl⟩
          · cases short

/-- The standing of a signature: an active key of the registry under which it verified, and
an envelope for this audience. -/
theorem verifyEnvelope_ok {envelope : Envelope} {bytes : Bytes} {registry : Registry} {opts : Options}
    {standing : Standing} (valid : verifyEnvelope host envelope bytes registry opts = .ok standing) :
    ∃ key, registry envelope.kid = some key ∧ key.state = .active ∧ opts.audience = some envelope.audience ∧
      host.verify envelope.alg bytes envelope.signature key.publicKey = .ok () ∧
      standing.custodianId = key.custodianId ∧ standing.kid = key.kid ∧
      standing.epoch = key.revocationEpoch := by
  simp only [verifyEnvelope, bind_ok_iff] at valid
  obtain ⟨_, _, _, _, _, _, key, found, _, usable, _, addressed, _, _, _, _, _, signed, same⟩ := valid
  cases same
  refine ⟨key, ?_, ?_, ?_, ?_, rfl, rfl, rfl⟩
  · unfold lookup at found
    split at found
    next known => cases found; exact known
    next => cases found
  · unfold keyUsable at usable
    split at usable
    · cases usable
    next active => exact not_not.mp active
  · unfold Sa2aCrypto.audience at addressed
    split at addressed
    next audience given =>
      split at addressed
      next same => rw [given, same]
      next => cases addressed
    next => cases addressed
  · unfold Sa2aCrypto.signature at signed
    split at signed
    next verified => exact verified
    next => cases signed
    next => cases signed

/-- The whole standing is copied from the registry. -/
theorem verifyEnvelope_standing {envelope : Envelope} {bytes : Bytes} {registry : Registry} {opts : Options}
    {standing : Standing} (valid : verifyEnvelope host envelope bytes registry opts = .ok standing) :
    ∃ key, registry envelope.kid = some key ∧
      standing = ⟨key.kid, key.custodianId, key.custodyTier, key.revocationEpoch⟩ := by
  simp only [verifyEnvelope, bind_ok_iff] at valid
  obtain ⟨_, _, _, _, _, _, key, found, _, _, _, _, _, _, _, _, _, _, same⟩ := valid
  refine ⟨key, ?_, (Except.ok.inj same).symm⟩
  unfold lookup at found
  split at found
  next known => cases found; exact known
  next => cases found

end AshA2A.Sa2aCrypto
