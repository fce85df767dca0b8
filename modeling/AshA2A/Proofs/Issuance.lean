import AshA2A.AuthorityService.Issuer
import AshA2A.Proofs.IssuanceJournal
import AshA2A.Proofs.Standing

/-! What the issuer hands out: each certificate rests on its approvals, and nothing is
issued or counted twice. -/

namespace AshA2A.AuthorityService.Issuer

open Sa2aCrypto Concurrency AppendLog Journal

variable {config : Config} {allowed : Op → Choice → Disk → Prop} {always : Disk → Prop} {disk : Disk}
  {ctx : Ctx}

/-! ## Approvals -/

/-- The signature of the approval had this standing in some view of the registry. -/
def Stands (config : Config) (approval : Approval) (standing : Standing) : Prop :=
  ∃ (view : View) (now : Int), verifyEnvelope config.host approval.envelope approval.message view.keys
    { now := now, audience := some config.authorityAudience } = .ok standing

/-- The message of the approval names what is asked, and expires at this time. -/
def Names (config : Config) (request : Request) (effect : Json) (approval : Approval) (expires : Int) : Prop :=
  ∃ message, SignedMessage.parse config.host.library approval.message = .ok message ∧
    message.string? "effect_digest" = some request.digest ∧
    message.int? "generation" = some (request.generation : Int) ∧
    message.string? "principal" = effect.string? "principal" ∧
    message.int? "policy_epoch" = some (config.policy.epoch : Int) ∧
    message.int? "expires" = some expires

/-- A verified approval of a registered custodian that names what is asked. -/
structure Approves (config : Config) (request : Request) (effect : Json) (approval : Approval)
    (counted : Counted) : Prop where
  stands : ∃ standing, Stands config approval standing ∧ standing.custodianId = counted.custodian
  kid : counted.kid = approval.envelope.kid
  nonce : counted.nonce = approval.envelope.nonce
  registered : counted.custodian ∈ config.policy.approvers
  names : Names config request effect approval counted.expires

theorem eq_ok {same : Bool} {code : String} : eq same code = .ok () ↔ same = true := by
  cases same <;> simp [eq]

theorem epoch_ok {message : Json} {current : Nat} (passed : epoch message current = .ok ()) :
    message.int? "policy_epoch" = some (current : Int) := by
  unfold epoch at passed
  split at passed
  next epoch known =>
    split at passed
    next same => rw [known, same]
    next => split at passed <;> cases passed
  next => cases passed

theorem ttl_ok {message : Json} {policy : Policy} {expires : Int} (passed : ttl message policy = .ok expires) :
    message.int? "expires" = some expires := by
  unfold ttl at passed
  split at passed
  next known _ =>
    split at passed
    · cases passed
      exact known
    · cases passed
  next => cases passed

theorem registered_ok {standing : Standing} {policy : Policy} (passed : registered standing policy = .ok ()) :
    standing.custodianId ∈ policy.approvers := by
  unfold registered at passed
  split at passed
  next member => exact member
  next => cases passed

theorem replay_ok {envelope : Envelope} {seen : List (String × String)} {journal : Journal}
    (passed : replay envelope seen journal = .ok ()) :
    (envelope.kid, envelope.nonce) ∉ seen ∧ (envelope.kid, envelope.nonce) ∉ journal.approvals := by
  unfold replay at passed
  split at passed
  · cases passed
  next new => simpa [approvalSeen, not_or] using new

/-- What an approval has passed when its message is accepted. -/
theorem checkMessage_ok {seen : List (String × String)} {approval : Approval} {standing : Standing}
    {expires : Int} (passed : checkMessage config ctx seen approval standing = .ok expires) :
    standing.custodianId ∈ config.policy.approvers ∧
      (approval.envelope.kid, approval.envelope.nonce) ∉ ctx.journal.approvals ∧
      Names config ctx.request ctx.effect approval expires := by
  simp only [checkMessage, bind_ok_iff] at passed
  obtain ⟨message, parsed, _, digest, _, policy, _, principal, _, generation, _, _, expiry, lasts, _, _, _, member,
    _, unused, same⟩ := passed
  cases same
  refine ⟨registered_ok member, (replay_ok unused).2, message, ?_, ?_, ?_, ?_, epoch_ok policy, ttl_ok lasts⟩
  · cases given : SignedMessage.parse config.host.library approval.message with
    | ok _ => rw [given] at parsed; exact parsed
    | error _ => rw [given] at parsed; cases parsed
  · simpa using eq_ok.mp digest
  · simpa using eq_ok.mp generation
  · simpa using eq_ok.mp principal

theorem verify_upholds {approval : Approval} {now : Int} (kept : always disk) :
    machine.Upholds allowed always
      (fun result last => last = disk ∧ ∀ standing, result = .ok standing → Stands config approval standing)
      (verify config approval now) disk := by
  refine .ask kept fun choice view _ _ served => ?_
  obtain rfl := exec_quiet (show Quiet .registry from trivial) served
  exact .pure kept ⟨rfl, fun standing valid => ⟨view, now, valid⟩⟩

theorem standing_upholds {approval : Approval} {now : Int} (kept : always disk) :
    machine.Upholds allowed always
      (fun result last => last = disk ∧ ∀ standing, result = .ok standing → Stands config approval standing)
      (standing config approval now) disk := by
  refine (verify_upholds kept).bind fun result last kept ⟨same, stands⟩ => ?_
  subst same
  split
  · exact verify_upholds kept
  · exact .pure kept ⟨rfl, stands⟩

theorem check_upholds {seen : List (String × String)} {approval : Approval} (kept : always disk) :
    machine.Upholds allowed always
      (fun result last => last = disk ∧ ∀ standing expires, result = .ok (standing, expires) →
        Stands config approval standing ∧ checkMessage config ctx seen approval standing = .ok expires)
      (check config ctx seen approval) disk := by
  refine (standing_upholds kept).bind fun result last kept ⟨same, stands⟩ => ?_
  subst same
  cases result with
  | error code => exact .pure kept ⟨rfl, nofun⟩
  | ok standing =>
    refine .pure kept ⟨rfl, fun other expires same => ?_⟩
    cases passed : checkMessage config ctx seen approval standing with
    | error code => simp [passed, Except.map] at same
    | ok at' =>
      simp only [passed, Except.map, Except.ok.injEq, Prod.mk.injEq] at same
      obtain ⟨rfl, rfl⟩ := same
      exact ⟨stands _ rfl, passed⟩

/-- What the approvals counted so far amount to. -/
structure Acc.Sound (config : Config) (ctx : Ctx) (acc : Acc) : Prop where
  distinct : (acc.counted.map (·.custodian)).Nodup
  approved : ∀ counted ∈ acc.counted, ∃ approval, Approves config ctx.request ctx.effect approval counted
  unused : ∀ counted ∈ acc.counted, (counted.kid, counted.nonce) ∉ ctx.journal.approvals

theorem Acc.Sound.empty : Acc.Sound config ctx {} := ⟨List.nodup_nil, nofun, nofun⟩

theorem Acc.Sound.refuse {acc : Acc} (sound : acc.Sound config ctx) (code : String) :
    (acc.refuse code).Sound config ctx := ⟨sound.distinct, sound.approved, sound.unused⟩

/-- The registry files a key under its own identifier, so that the journal remembers the
approval under the one it was signed with. -/
theorem Stands.kid {approval : Approval} {standing : Standing} (stands : Stands config approval standing) :
    standing.kid = approval.envelope.kid := by
  obtain ⟨view, now, valid⟩ := stands
  obtain ⟨key, found, _, _, _, _, named, _⟩ := verifyEnvelope_ok valid
  rw [named, view.filed _ _ found]

theorem Acc.Sound.count {acc : Acc} {seen : List (String × String)} {approval : Approval}
    {standing : Standing} {expires : Int} (sound : acc.Sound config ctx) (stands : Stands config approval standing)
    (passed : checkMessage config ctx seen approval standing = .ok expires) :
    (acc.count approval standing expires).Sound config ctx := by
  obtain ⟨member, unused, names⟩ := checkMessage_ok passed
  unfold Acc.count
  dsimp only
  split
  · exact ⟨sound.distinct, sound.approved, sound.unused⟩
  next new =>
    refine ⟨?_, ?_, ?_⟩
    · exact List.nodup_cons.mpr ⟨new, sound.distinct⟩
    · intro counted given
      obtain rfl | given := List.mem_cons.mp given
      · exact ⟨approval, ⟨standing, stands, rfl⟩, stands.kid, rfl, member, names⟩
      · exact sound.approved counted given
    · intro counted given
      obtain rfl | given := List.mem_cons.mp given
      · rw [stands.kid]
        exact unused
      · exact sound.unused counted given

theorem take_upholds {acc : Acc} {approval : Except String Approval} (sound : acc.Sound config ctx)
    (kept : always disk) :
    machine.Upholds allowed always (fun acc last => last = disk ∧ acc.Sound config ctx)
      (take config ctx acc approval) disk := by
  cases approval with
  | error code => exact .pure kept ⟨rfl, sound.refuse code⟩
  | ok approval =>
    refine (check_upholds kept).bind fun result last kept ⟨same, passed⟩ => ?_
    subst same
    cases result with
    | error code => exact .pure kept ⟨rfl, sound.refuse code⟩
    | ok result =>
      obtain ⟨stands, passed⟩ := passed _ _ rfl
      exact .pure kept ⟨rfl, sound.count stands passed⟩

theorem takeAll_upholds {acc : Acc} {approvals : List Json} (sound : acc.Sound config ctx)
    (kept : always disk) :
    machine.Upholds allowed always (fun acc last => last = disk ∧ acc.Sound config ctx)
      (takeAll config ctx acc approvals) disk := by
  induction approvals generalizing acc with
  | nil => exact .pure kept ⟨rfl, sound⟩
  | cons approval rest ih =>
    refine (take_upholds sound kept).bind fun acc last kept ⟨same, sound⟩ => ?_
    subst same
    exact ih sound

theorem solicitAll_upholds {k : Nat} {acc : Acc} {approvers : List String} (sound : acc.Sound config ctx)
    (kept : always disk) :
    machine.Upholds allowed always (fun acc last => last = disk ∧ acc.Sound config ctx)
      (solicitAll config ctx k acc approvers) disk := by
  induction approvers generalizing acc with
  | nil => exact .pure kept ⟨rfl, sound⟩
  | cons approver rest ih =>
    unfold solicitAll
    split
    · exact .pure kept ⟨rfl, sound⟩
    · refine .ask kept fun choice answer _ _ served => ?_
      obtain rfl := exec_quiet (show Quiet (.solicit _ _) from trivial) served
      cases answer with
      | error code => exact ih (sound.refuse _)
      | ok answer =>
        refine (take_upholds sound kept).bind fun acc last kept ⟨same, sound⟩ => ?_
        subst same
        exact ih sound

/-- Enough approvals of distinct registered custodians, none of which the journal knows. -/
structure Gathered (config : Config) (ctx : Ctx) (k : Nat) (counted : List Counted) : Prop where
  enough : k ≤ counted.length
  distinct : (counted.map (·.custodian)).Nodup
  approved : ∀ approval ∈ counted, ∃ given, Approves config ctx.request ctx.effect given approval
  unused : ∀ approval ∈ counted, (approval.kid, approval.nonce) ∉ ctx.journal.approvals

theorem gatherApprovals_upholds {k : Nat} (kept : always disk) :
    machine.Upholds allowed always
      (fun result last => last = disk ∧ ∀ counted, result = .ok counted → Gathered config ctx k counted)
      (gatherApprovals config ctx k) disk := by
  unfold gatherApprovals
  split
  next none =>
    refine .pure kept ⟨rfl, fun counted same => ?_⟩
    cases same
    exact ⟨none.le, List.nodup_nil, nofun, nofun⟩
  next =>
    refine (takeAll_upholds .empty kept).bind fun acc last kept ⟨same, sound⟩ => ?_
    subst same
    have solicited : machine.Upholds allowed always (fun acc later => later = last ∧ acc.Sound config ctx)
        (if acc.counted.length < k then solicit config ctx k acc else pure acc) last := by
      unfold solicit
      split
      · split
        · exact solicitAll_upholds sound kept
        · exact .pure kept ⟨rfl, sound⟩
      · exact .pure kept ⟨rfl, sound⟩
    refine solicited.bind fun acc last kept ⟨same, sound⟩ => ?_
    subst same
    split
    next enough =>
      refine .pure kept ⟨rfl, fun counted same => ?_⟩
      cases same
      exact ⟨enough, sound.distinct, sound.approved, sound.unused⟩
    next => exact .pure kept ⟨rfl, nofun⟩

/-! ## Minting -/

theorem stillStanding_upholds {counted : List Counted} (kept : always disk) :
    machine.Upholds allowed always (fun _ last => last = disk) (stillStanding counted) disk := by
  induction counted with
  | nil => exact .pure kept rfl
  | cons approval rest ih =>
    refine .ask kept fun choice view _ _ served => ?_
    obtain rfl := exec_quiet (show Quiet .registry from trivial) served
    split
    · exact ih
    · exact .pure kept rfl

theorem freshNonce_unseen {journal : Journal} {draws : List Bytes} {nonce : String}
    (drawn : freshNonce journal draws = some nonce) : nonce ∉ journal.nonces := by
  have unseen := List.find?_some drawn
  simpa [nonceSeen] using unseen

/-- A certificate that was made, and the line that was appended for it. -/
structure Minted (config : Config) (ctx : Ctx) (k : Nat) (approvals : List Counted) (disk : Disk)
    (issuance : Issuance) (after : Journal) (last : Disk) : Prop where
  unseen : issuance.fields.nonce ∉ ctx.journal.nonces
  fields : issuance.fields = fieldsOf config ctx k approvals issuance.fields.nonce
  counted : issuance.counted = approvals
  signed : ∃ bytes signature, SignedMessage.build config.host.library issuance.fields.json = .ok bytes ∧
    issuance.certificate = ⟨envelopeOf config issuance.fields bytes signature, Base64.encode bytes⟩
  appended : ∃ hash,
    link config.host ctx.journal.head (ctx.journal.seq + 1) (bodyOf issuance.fields approvals) = some hash ∧
    after = (ctx.journal.next (bodyOf issuance.fields approvals) hash).2.applyEntry
      (bodyOf issuance.fields approvals) ∧
    last = ⟨(disk.journal.write (ctx.journal.next (bodyOf issuance.fields approvals) hash).1 .whole).sync,
      some ⟨after.seq, after.head⟩⟩

/-- A line was appended, and then its certificate was not signed. -/
def Unsigned (allowed : Op → Choice → Disk → Prop) (disk last : Disk) : Prop :=
  (∃ alg bytes code before, allowed (.sign alg bytes) (.sign (.error code)) before) ∧
    ∃ line anchor, last = ⟨(disk.journal.write line .whole).sync, anchor⟩

/-- After a refusal the disk is as it was, unless the journal failed or the signature did. -/
theorem mint_upholds {k : Nat} {counted : List Counted}
    (kept : ∀ nonce hash last,
      Appending disk (ctx.journal.next (bodyOf (fieldsOf config ctx k counted nonce) counted) hash).1 last →
      always last) :
    machine.Upholds allowed always
      (fun result last => match result with
        | .ok (issuance, after) => Minted config ctx k counted disk issuance after last
        | .error refusal => refusal.code = "journal_failed" ∨ last = disk ∨ Unsigned allowed disk last)
      (mint config ctx k counted) disk := by
  have start : always disk := kept "" "" _ .start
  refine .ask start fun choice draws _ _ served => ?_
  obtain rfl := exec_quiet (show Quiet .strongRandBytes from trivial) served
  cases drawn : freshNonce ctx.journal draws with
  | none => exact ⟨start, fun _ reply => reply.elim⟩
  | some nonce =>
    dsimp only
    cases built : SignedMessage.build config.host.library (fieldsOf config ctx k counted nonce).json with
    | error code => exact .pure start (.inr (.inl rfl))
    | ok bytes =>
      refine (stillStanding_upholds start).bind fun live last _ same => ?_
      subst same
      cases live with
      | false => exact .pure start (.inr (.inl rfl))
      | true =>
        refine (append_upholds (kept nonce)).bind fun result last now ⟨hash, _, appended⟩ => ?_
        cases result with
        | none => exact .pure now (.inl rfl)
        | some after =>
          obtain ⟨linked, rfl, rfl⟩ := appended after rfl
          refine .ask now fun choice answer _ permitted served => ?_
          obtain rfl := exec_quiet (show Quiet (.sign _ _) from trivial) served
          cases answer with
          | error code =>
            have failed : choice = .sign (.error code) := by cases choice <;> cases served; rfl
            rw [failed] at permitted
            exact .pure now (.inr (.inr ⟨⟨_, _, _, _, permitted⟩, _, _, rfl⟩))
          | ok signature =>
            dsimp only
            split
            · exact ⟨now, fun _ reply => reply.elim⟩
            · exact .pure now ⟨freshNonce_unseen drawn, rfl, rfl, ⟨bytes, signature, built, rfl⟩, hash, linked, rfl, rfl⟩

/-! ## One call -/

/-- What a request has shown before its approvals are looked at. -/
structure Admitted (config : Config) (journal : Journal) (request : Request) (effect : Json) (k : Nat) :
    Prop where
  digest : config.host.digest request.effect = request.digest
  parsed : parseEffect config request.effect = .ok effect
  required : required config effect = .ok k
  unissued : (request.digest, request.generation) ∉ journal.issued

theorem admission_ok {journal : Journal} {json : Json} {request : Request} {effect : Json} {k : Nat}
    (passed : admission config journal json = .ok (request, effect, k)) :
    Admitted config journal request effect k := by
  simp only [admission, bind_ok_iff] at passed
  obtain ⟨_, _, _, digest, _, effect, _, required, _, unissued, same⟩ := passed
  cases same
  refine ⟨?_, effect, required, ?_⟩
  · unfold digestOk at digest
    split at digest
    next same => exact same
    next => cases digest
  · unfold notIssued at unissued
    split at unissued
    · cases unissued
    next new => simpa [isIssued] using new

/-- How a call can end: with a certificate, or refused with the disk as it was unless the
journal failed or the signature did. -/
def Concluded (config : Config) (allowed : Op → Choice → Disk → Prop) (disk : Disk) (journal : Journal)
    (result : Except Refusal (Issuance × Journal)) (last : Disk) : Prop :=
  match result with
  | .ok (issuance, after) => ∃ (ctx : Ctx) (k : Nat) (approvals : List Counted),
    ctx.journal = journal ∧ Admitted config journal ctx.request ctx.effect k ∧
    Gathered config ctx k approvals ∧ Minted config ctx k approvals disk issuance after last
  | .error refusal => refusal.code = "journal_failed" ∨ last = disk ∨ Unsigned allowed disk last

theorem doIssue_upholds {journal : Journal} {json : Json} {now : Int}
    (kept : ∀ line last, Appending disk line last → always last) :
    machine.Upholds allowed always (Concluded config allowed disk journal) (doIssue config journal json now)
      disk := by
  have start : always disk := kept ⟨0, "", ⟨"", "", "", 0, "", 0, []⟩, ""⟩ _ .start
  unfold doIssue
  cases passed : admission config journal json with
  | error code => exact .pure start (.inr (.inl rfl))
  | ok admitted =>
    obtain ⟨request, effect, k⟩ := admitted
    dsimp only
    refine (gatherApprovals_upholds start).bind fun result last _ ⟨same, gathered⟩ => ?_
    subst same
    cases result with
    | error refusal => exact .pure start (.inr (.inl rfl))
    | ok approvals =>
      refine (mint_upholds fun _ _ _ => kept _ _).weaken (fun _ kept => kept) fun result after _ minted => ?_
      cases result with
      | error refusal => exact minted
      | ok made => exact ⟨⟨request, effect, now, journal⟩, k, approvals, rfl, admission_ok passed,
          gathered _ rfl, minted⟩

/-- The answer of a call and the journal the server keeps. -/
theorem handle_upholds {call : Call} {journal : Journal} (kept : ∀ line last, Appending disk line last → always last) :
    machine.Upholds allowed always
      (fun result last => match result.1 with
        | .ok issuance => ∃ after, result.2 = some after ∧
            Concluded config allowed disk journal (.ok (issuance, after)) last
        | .error refusal => Concluded config allowed disk journal (.error refusal) last ∧
            (result.2 = none ∨ result.2 = some journal ∧ refusal.code ≠ "journal_failed"))
      (handle config call journal) disk := by
  have start : always disk := kept ⟨0, "", ⟨"", "", "", 0, "", 0, []⟩, ""⟩ _ .start
  have timed : machine.Upholds allowed always (fun _ last => last = disk)
      (call.now.elim Service.clock pure : Service Int) disk := by
    cases call.now with
    | some now => exact .pure start rfl
    | none =>
      refine .ask start fun choice reply _ _ served => ?_
      exact .pure (by rwa [exec_quiet (show Quiet .clock from trivial) served])
        (exec_quiet (show Quiet .clock from trivial) served)
  unfold handle
  refine timed.bind fun now last _ same => ?_
  subst same
  refine .ask start fun choice view _ _ served => ?_
  obtain rfl := exec_quiet (show Quiet .registry from trivial) served
  refine (doIssue_upholds kept).bind fun result last now concluded => ?_
  cases result with
  | ok made => exact .pure now ⟨made.2, rfl, concluded⟩
  | error refusal =>
    dsimp only
    split
    · exact .pure now ⟨concluded, .inl rfl⟩
    next code => exact .pure now ⟨concluded, .inr ⟨rfl, code⟩⟩

/-! ## The journal never falls behind -/

/-- No signature fails. -/
def Signs (op : Op) (choice : Choice) (_ : Disk) : Prop :=
  ∀ alg bytes code, op = .sign alg bytes → choice ≠ .sign (.error code)

theorem init_upholds (kept : ∀ last, last.journal = disk.journal → always last) :
    machine.Upholds allowed always
      (fun state last => last.journal = disk.journal ∧
        ∀ journal, state = some journal → Replays config.host last journal) (init config) disk := by
  refine (open_upholds kept).bind fun result last now ⟨same, replays⟩ => ?_
  cases result with
  | error reason => exact .pure now ⟨same, nofun⟩
  | ok journal => exact .pure now ⟨same, fun other given => by cases given; exact replays _ rfl⟩

/-- What a serving issuer is sure of. -/
structure Current (host : Host) (disk : Disk) (journal : Journal) : Prop where
  /-- The replay of the file has what the server has in memory. -/
  replayed : ∃ full, Journal.replay host disk.journal.file = .ok full ∧ full.opened = journal
  /-- The next append extends the chain. -/
  continues : ∀ body hash, link host journal.head (journal.seq + 1) body = some hash →
    ∃ full, Journal.replay host (disk.journal.file.write (journal.next body hash).1 .whole) = .ok full ∧
      full.opened = (journal.next body hash).2.applyEntry body
  /-- Opened again, the file gives the same journal. -/
  reopens : ∃ last, machine.play [.served, .served, .served, .served] (Journal.open host) disk =
    some (some (.ok journal), last)

theorem serving_current {final : Server.Config Disk Journal Call Answer} {journal : Journal}
    (reached : (server config).Reaches Signs (fun _ => True) { world := {} } final) (serving : final.state = some journal) :
    Current config.host final.world journal := by
  have replays := Server.Reaches.invariant
    (fun state world _ => ∀ journal, state = some journal → Replays config.host world journal) ?_ ?_ ?_
    (fun _ serving => by cases serving) reached
  · have current := replays journal serving
    exact ⟨current.replay, fun body hash linked => current.append linked, current.reopens⟩
  · intro world answered _
    exact (init_upholds fun _ _ _ _ => nofun).weaken (fun _ kept => kept) fun state last _ opened => opened.2
  · intro call journal world answered _ replays
    have replays := replays journal rfl
    refine (handle_upholds fun _ _ _ _ _ => nofun).weaken (fun _ kept => kept) ?_
    rintro ⟨answer, next⟩ last _ concluded serving rfl
    cases answer with
    | error refusal =>
      obtain ⟨concluded, ended | ⟨kept, code⟩⟩ := concluded
      · cases ended
      · cases kept
        obtain failed | rfl | ⟨⟨alg, bytes, code, before, signs⟩, _⟩ := concluded
        · exact absurd failed code
        · exact replays
        · exact absurd rfl (signs alg bytes code rfl)
    | ok issuance =>
      obtain ⟨after, kept, ctx, k, approvals, rfl, _, _, minted⟩ := concluded
      cases kept
      obtain ⟨hash, linked, rfl, rfl⟩ := minted.appended
      obtain ⟨full, replayed, same⟩ := replays.append linked
      exact ⟨⟨full, replayed, same⟩, rfl⟩
  · exact fun _ _ _ _ _ _ => nofun

/-! ## Nothing is issued or counted twice -/

/-- The certificates ever returned, newest first. -/
def issuances (answered : List (Call × Answer)) : List Issuance :=
  answered.filterMap fun (_, answer) => answer.toOption

/-- The approval that a certificate counts says what the certificate says, and lasts longer. -/
structure Backs (config : Config) (fields : Fields) (counted : Counted) (approval : Approval) : Prop where
  stands : ∃ standing, Stands config approval standing ∧ standing.custodianId = counted.custodian
  kid : counted.kid = approval.envelope.kid
  nonce : counted.nonce = approval.envelope.nonce
  registered : counted.custodian ∈ config.policy.approvers
  names : ∃ message expires, SignedMessage.parse config.host.library approval.message = .ok message ∧
    message.string? "effect_digest" = some fields.effectDigest ∧
    message.int? "generation" = some (fields.generation : Int) ∧
    message.string? "principal" = some fields.principal ∧
    message.int? "policy_epoch" = some (fields.policyEpoch : Int) ∧
    message.int? "expires" = some expires ∧ fields.expires ≤ expires

/-- A certificate over the fields it was made from, for an effect whose class needs `k`
custodians, with that many of them behind it. -/
structure Justified (config : Config) (issuance : Issuance) : Prop where
  signed : ∃ bytes signature, SignedMessage.build config.host.library issuance.fields.json = .ok bytes ∧
    issuance.certificate = ⟨envelopeOf config issuance.fields bytes signature, Base64.encode bytes⟩
  quorum : ∃ (bytes : Bytes) (effect : Json) (k : Nat),
    config.host.digest bytes = issuance.fields.effectDigest ∧ parseEffect config bytes = .ok effect ∧
    effect.string? "principal" = some issuance.fields.principal ∧
    required config effect = .ok k ∧ k ≤ issuance.counted.length
  distinct : (issuance.counted.map (·.custodian)).Nodup
  backed : ∀ counted ∈ issuance.counted, ∃ approval, Backs config issuance.fields counted approval

/-- Two certificates share neither effect and generation, nor nonce, nor approval. -/
structure Apart (first second : Issuance) : Prop where
  effect : (first.fields.effectDigest, first.fields.generation) ≠
    (second.fields.effectDigest, second.fields.generation)
  nonce : first.fields.nonce ≠ second.fields.nonce
  approvals : ∀ left ∈ first.counted, ∀ right ∈ second.counted,
    (left.kid, left.nonce) ≠ (right.kid, right.nonce)

theorem foldl_min_le (times : List Int) (start : Int) :
    times.foldl min start ≤ start ∧ ∀ time ∈ times, times.foldl min start ≤ time := by
  induction times generalizing start with
  | nil => exact ⟨le_refl _, nofun⟩
  | cons time times ih =>
    obtain ⟨first, rest⟩ := ih (min start time)
    refine ⟨first.trans (min_le_left _ _), fun other member => ?_⟩
    obtain rfl | member := List.mem_cons.mp member
    · exact first.trans (min_le_right _ _)
    · exact rest other member

theorem parseEffect_principal {bytes : Bytes} {effect : Json} (parsed : parseEffect config bytes = .ok effect) :
    effect.string? "principal" = some ((effect.string? "principal").getD "") := by
  unfold parseEffect at parsed
  split at parsed
  · split at parsed
    · cases parsed
    · split at parsed
      · cases parsed
      · split at parsed
        next shaped =>
          cases parsed
          cases principal : effect.string? "principal" with
          | none => simp [principal] at shaped
          | some name => rfl
        next => cases parsed
  · cases parsed

theorem Minted.justified {journal after : Journal} {k : Nat} {approvals : List Counted} {issuance : Issuance}
    {last : Disk} (minted : Minted config ctx k approvals disk issuance after last)
    (admitted : Admitted config journal ctx.request ctx.effect k) (gathered : Gathered config ctx k approvals) :
    Justified config issuance := by
  have principal := parseEffect_principal admitted.parsed
  obtain ⟨unseen, fields, rfl, signed, appended⟩ := minted
  refine ⟨signed, ⟨ctx.request.effect, ctx.effect, k, ?_, admitted.parsed, ?_, admitted.required, gathered.enough⟩,
    gathered.distinct, fun counted member => ?_⟩
  · rw [fields]; exact admitted.digest
  · rw [fields]; exact principal
  · obtain ⟨approval, approves⟩ := gathered.approved counted member
    obtain ⟨message, parsed, digest, generation, named, policy, expires⟩ := approves.names
    refine ⟨approval, approves.stands, approves.kid, approves.nonce, approves.registered, message,
      counted.expires, parsed, ?_, ?_, ?_, ?_, expires, ?_⟩
    · rw [fields]; exact digest
    · rw [fields]; exact generation
    · rw [fields, named]; exact principal
    · rw [fields]; exact policy
    · rw [fields]
      exact (foldl_min_le _ _).2 _ (List.mem_map_of_mem member)

/-- The line of every certificate that was returned is on the disk for certain. -/
structure Stored (disk : Disk) (returned : List Issuance) : Prop where
  begins : disk.journal.synced.Begins disk.journal.file
  lines : ∀ issuance ∈ returned, ∃ line, some line ∈ disk.journal.synced.lines ∧
    line.body = bodyOf issuance.fields issuance.counted

theorem Stored.survives {left : Disk} {returned : List Issuance} (stored : Stored disk returned)
    (survives : disk.Survives left) : Stored left returned := by
  obtain ⟨⟨synced, _, settled⟩, _⟩ := survives
  refine ⟨settled ▸ .refl _, fun issuance member => ?_⟩
  obtain ⟨line, given, same⟩ := stored.lines issuance member
  exact ⟨line, settled ▸ synced.1.subset given, same⟩

theorem Stored.appending {line : Entry} {last : Disk} {returned : List Issuance} (stored : Stored disk returned)
    (appending : Appending disk line last) : Stored last returned := by
  cases appending with
  | written landed anchor => exact ⟨stored.begins.trans (File.begins_write _ _ _), stored.lines⟩
  | synced anchor =>
    refine ⟨.refl _, fun issuance member => ?_⟩
    obtain ⟨line, given, same⟩ := stored.lines issuance member
    exact ⟨line, (stored.begins.trans (File.begins_write _ _ _)).1.subset given, same⟩

/-- What holds of the disk and of a serving issuer between two calls. -/
structure Once (config : Config) (state : Option Journal) (disk : Disk) (answered : List (Call × Answer)) :
    Prop where
  stored : Stored disk (issuances answered)
  whole : state ≠ none → disk.journal.file.torn = false
  remembered : ∀ journal, state = some journal → ∀ issuance ∈ issuances answered,
    journal.Recorded (bodyOf issuance.fields issuance.counted)
  apart : (issuances answered).Pairwise Apart
  justified : ∀ issuance ∈ issuances answered, Justified config issuance

theorem Once.start : Once config none {} [] := by
  refine ⟨⟨.refl _, ?_⟩, fun up => absurd rfl up, ?_, .nil, ?_⟩
  · exact fun _ member => absurd member List.not_mem_nil
  · exact fun _ up => nomatch up
  · exact fun _ member => absurd member List.not_mem_nil

theorem Once.survives {state : Option Journal} {left : Disk} {answered : List (Call × Answer)}
    (once : Once config state disk answered) (survives : disk.Survives left) : Once config none left answered :=
  ⟨once.stored.survives survives, fun up => absurd rfl up, nofun, once.apart, once.justified⟩

theorem Once.refused {state : Option Journal} {call : Call} {refusal : Refusal}
    {answered : List (Call × Answer)} (once : Once config state disk answered) :
    Once config state disk ((call, .error refusal) :: answered) :=
  ⟨once.stored, once.whole, once.remembered, once.apart, once.justified⟩

theorem Once.appending {state : Option Journal} {line : Entry} {last : Disk} {answered : List (Call × Answer)}
    (once : Once config state disk answered) (appending : Appending disk line last) :
    Once config none last answered :=
  ⟨once.stored.appending appending, fun up => absurd rfl up, nofun, once.apart, once.justified⟩

/-- Opening a journal writes an anchor and nothing else. -/
theorem Once.halted {state : Option Journal} {last : Disk} {answered : List (Call × Answer)}
    (once : Once config state disk answered) (same : last.journal = disk.journal) :
    Once config none last answered := by
  refine ⟨⟨?_, ?_⟩, fun up => absurd rfl up, nofun, once.apart, once.justified⟩
  · exact same ▸ once.stored.begins
  · exact same ▸ once.stored.lines

theorem Once.opened {journal : Journal} {answered : List (Call × Answer)}
    (once : Once config none disk answered) (replays : Replays config.host disk journal) :
    Once config (some journal) disk answered := by
  obtain ⟨full, replayed, rfl⟩ := replays.replay
  refine ⟨once.stored, fun _ => (Journal.replay_ok replayed).1, ?_, once.apart, once.justified⟩
  intro other same issuance member
  cases same
  obtain ⟨line, given, body⟩ := once.stored.lines issuance member
  have recorded := replay_recorded replayed (once.stored.begins.1.subset given)
  rw [body] at recorded
  exact ⟨recorded.nonce, recorded.issued, recorded.approvals⟩

theorem Once.issued {after : Journal} {call : Call} {issuance : Issuance} {k : Nat}
    {approvals : List Counted} {answered : List (Call × Answer)} {last : Disk}
    (once : Once config (some ctx.journal) disk answered)
    (admitted : Admitted config ctx.journal ctx.request ctx.effect k)
    (gathered : Gathered config ctx k approvals) (minted : Minted config ctx k approvals disk issuance after last) :
    Once config (some after) last ((call, .ok issuance) :: answered) := by
  have justified := minted.justified admitted gathered
  obtain ⟨unseen, fields, rfl, _, hash, _, rfl, rfl⟩ := minted
  have whole := once.whole nofun
  have older := fun other member => once.remembered _ rfl other member
  refine ⟨⟨.refl _, ?_⟩, fun _ => rfl, ?_, ?_, ?_⟩
  · intro other member
    obtain rfl | member := List.mem_cons.mp member
    · exact ⟨(ctx.journal.next (bodyOf other.fields other.counted) hash).1, by simp [whole], rfl⟩
    · obtain ⟨line, given, same⟩ := once.stored.lines other member
      exact ⟨line, (once.stored.begins.trans (File.begins_write _ _ .whole)).1.subset given, same⟩
  · intro journal same other member
    cases same
    obtain rfl | member := List.mem_cons.mp member
    · exact recorded_applyEntry _ _
    · refine Recorded.applyEntry ?_ _
      exact ⟨(older other member).nonce, (older other member).issued, (older other member).approvals⟩
  · refine List.pairwise_cons.mpr ⟨fun other member => ?_, once.apart⟩
    refine ⟨fun same => ?_, fun same => ?_, fun left mine right theirs same => ?_⟩
    · have known := (older other member).issued
      rw [fields] at same
      exact admitted.unissued (by rw [show (ctx.request.digest, ctx.request.generation) = _ from same]; exact known)
    · have known := (older other member).nonce
      exact unseen (by rw [same]; exact known)
    · have known := (older other member).approvals _ (List.mem_map_of_mem theirs)
      exact gathered.unused left mine (by rw [same]; exact known)
  · intro other member
    obtain rfl | member := List.mem_cons.mp member
    · exact justified
    · exact once.justified other member

theorem issued_once {final : Server.Config Disk Journal Call Answer}
    (reached : (server config).Reachable { world := {} } final) :
    (issuances final.answered).Pairwise Apart ∧
      ∀ issuance ∈ issuances final.answered, Justified config issuance := by
  have once := Server.Reaches.invariant (Once config) ?_ ?_ ?_ ?_ reached
  · exact ⟨once.apart, once.justified⟩
  · intro world answered once
    have kept : ∀ last : Disk, last.journal = world.journal → Once config none last answered :=
      fun _ same => once.halted same
    refine (init_upholds kept).weaken (fun _ once _ survives => once.survives survives) ?_
    intro state last once ⟨_, replays⟩
    cases state with
    | none => exact once
    | some journal => exact once.opened (replays _ rfl)
  · intro call journal world answered _ once
    have kept : ∀ line last, Appending world line last → Once config none last answered :=
      fun _ _ appending => once.appending appending
    refine (handle_upholds kept).weaken (fun _ once _ survives => once.survives survives) ?_
    rintro ⟨answer, next⟩ last ended concluded
    cases answer with
    | ok issuance =>
      obtain ⟨after, kept, ctx, k, approvals, rfl, admitted, gathered, minted⟩ := concluded
      cases kept
      exact once.issued admitted gathered minted
    | error refusal =>
      obtain ⟨concluded, stopped | ⟨kept, code⟩⟩ := concluded
      · cases stopped
        exact ended.refused
      · cases kept
        obtain failed | rfl | ⟨_, line, anchor, rfl⟩ := concluded
        · exact absurd failed code
        · exact once.refused
        · exact ⟨ended.stored, fun _ => by simp [File.write], once.remembered, once.apart, once.justified⟩
  · exact fun _ _ _ _ once survives => once.survives survives
  · exact .start

/-! One certificate of the automated tier. -/

namespace Probe

def effect : Json :=
  .object [("effect_class", .string "class"), ("amount", .int 0), ("principal", .string "principal")]

/-- Five texts, the first of them read back. -/
def library : Json.Library where
  decode bytes := if bytes = [1] then some effect else none
  encode json :=
    if (json.string? "effect_class").isSome then some [1]
    else if (json.string? "effect_digest").isSome then some [2]
    else if (json.string? "profile").isSome then some [3]
    else some [4]

def host : Host where
  library := library
  sha256 _ := "hash"
  kidOf _ _ := some "kid"
  supports _ := true
  verify _ _ _ _ := .error "bad_signature"

def service : Config where
  host := host
  serviceKey := ⟨"ES256", "service", 0⟩
  policy := { epoch := 0, approvers := [], classes := [("class", [0])] }
  authorityAudience := "authority"
  actuatorAudience := some "actuator"

def call : Call :=
  ⟨.object [("effect", .string "AQ"), ("effect_digest", .string "sha256:hash"), ("generation", .int 0)], some 10⟩

def view : View := ⟨fun _ => none, nofun⟩

def boots : List Choice := [.served, .served, .served, .served]

def issues (answer : Except String Bytes) : List Choice :=
  [.registry view, .strongRandBytes [[7]], .served, .served, .served, .sign answer]

def fields : Fields :=
  ⟨"ES256", "service", "sha256:hash", "principal", 0, 0, 0, "Bw", 10, 910, "actuator"⟩

def entry : Entry := ⟨1, genesis, bodyOf fields [], "hash"⟩

def journal : Journal := ({ seq := 1, head := "hash" } : Journal).applyEntry entry.body

def written : Disk := ⟨⟨⟨[some entry], false⟩, ⟨[some entry], false⟩⟩, some ⟨1, "hash"⟩⟩

theorem boot_plays : machine.play boots (init service) {} = some (some (some {}), ⟨{}, some ⟨0, genesis⟩⟩) := rfl

theorem issue_fails : machine.play (issues (.error "unavailable")) (handle service call {})
    ⟨{}, some ⟨0, genesis⟩⟩ = some (some (.error ⟨"sign_failed", []⟩, some {}), written) := rfl

def issuance : Issuance :=
  ⟨fields, [], envelopeOf service fields (SignedMessage.header ++ [2]) [9],
    Base64.encode (SignedMessage.header ++ [2])⟩

theorem issue_plays : machine.play (issues (.ok [9])) (handle service call {})
    ⟨{}, some ⟨0, genesis⟩⟩ = some (some (.ok issuance, some journal), written) := rfl

theorem booted {allowed : Op → Choice → Disk → Prop}
    (permitted : ∀ choice ∈ boots, ∀ op world, allowed op choice world) :
    (server service).Reaches allowed (fun _ => True) { world := {} } ⟨⟨{}, some ⟨0, genesis⟩⟩, some {}, []⟩ :=
  .step .start (.started (Machine.runs_of_play permitted boot_plays))

end Probe

open Probe in
theorem Probe.reached {allowed : Op → Choice → Disk → Prop}
    (permitted : ∀ choice ∈ boots ++ issues (.ok [9]), ∀ op world, allowed op choice world) :
    (server service).Reaches allowed (fun _ => True) { world := {} } ⟨written, some journal, [(call, .ok issuance)]⟩ := by
  refine .step (booted fun choice member => permitted choice (List.mem_append_left _ member)) (.handled trivial ?_)
  exact Machine.runs_of_play (fun choice member => permitted choice (List.mem_append_right _ member)) issue_plays

open Probe in
theorem issued_once_probe : (issuances [(call, .ok issuance)]).Pairwise Apart ∧
    ∀ made ∈ issuances [(call, .ok issuance)], Justified service made :=
  issued_once (Probe.reached fun _ _ _ _ => trivial)

open Probe in
theorem serving_current_issued : Current service.host written journal := by
  have signs : ∀ choice ∈ boots ++ issues (.ok [9]), ∀ op world, Signs op choice world := by
    intro choice member op world alg bytes code _ same
    subst same
    simp [boots, issues] at member
  exact serving_current (Probe.reached signs) rfl

open Probe in
theorem sign_failed_behind : ∃ final journal, (server service).Reachable { world := {} } final ∧
    final.state = some journal ∧ ¬ Current service.host final.world journal := by
  have ran : machine.Runs (fun _ _ _ => True) (handle service call {}) ⟨{}, some ⟨0, genesis⟩⟩
      (some (.error ⟨"sign_failed", []⟩, some {})) written :=
    Machine.runs_of_play (fun _ _ _ _ => trivial) issue_fails
  refine ⟨⟨written, some {}, [(call, .error ⟨"sign_failed", []⟩)]⟩, {},
    .step (booted fun _ _ _ _ => trivial) (.handled trivial ran), rfl, fun current => ?_⟩
  obtain ⟨full, replayed, same⟩ := current.replayed
  have counted : (Journal.replay service.host written.journal.file).toOption.map (·.seq) = some 1 := rfl
  have current : full.seq = 0 := congrArg Journal.seq same
  rw [replayed] at counted
  simp [Except.toOption, current] at counted

end AshA2A.AuthorityService.Issuer
