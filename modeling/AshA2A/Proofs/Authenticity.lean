import AshA2A.Crypto
import AshA2A.Proofs.Lawful

/-! What an accepted receipt says about the calls of the key holder. The links between the
prepared anchor and the head are the part that acceptance leaves open. -/

namespace AshA2A.Receipt

/-- A receipt of which nothing has been observed, as `pending` builds it. -/
structure Unobserved (receipt : Receipt) : Prop where
  status : receipt.status = .pending
  terminalStatus : receipt.terminalStatus = none
  reply : receipt.reply = .nil
  postcondition : receipt.metadata.postcondition = none

/-- A call of the key holder. Anchors are bound before anything is observed, and a
transition keeps the identity of its receipt. -/
inductive Act where
  | bind (receipt : Receipt) (predecessor : Option String) (fresh : Unobserved receipt)
  | transition (prior next : Receipt) (stage : Stage) (lawful : stage ∈ transitionStages)
      (same : SameIdentity next prior)

/-- What the key holder authenticates in one call; a receipt that does not verify is not
sealed anew. -/
def Act.payload (crypto : Crypto) (key : Key) : Act → Option LinkPayload
  | .bind receipt predecessor _ =>
    some (linkPayload crypto key .prepared predecessor (fieldDigests crypto receipt .prepared))
  | .transition prior next stage _ _ =>
    match check crypto key prior with
    | .ok report => some (linkPayload crypto key stage (some report.digest) (fieldDigests crypto next stage))
    | .error _ => none

/-- Without the key, the only digests that authenticate a payload are those the key holder
computed for it. -/
def Unforgeable (crypto : Crypto) (key : Key) (history : List Act) (receipt : Receipt) : Prop :=
  ∀ link ∈ receipt.links, ∀ payload, link.digest = mac crypto payload (some key) →
    ∃ act ∈ history, act.payload crypto key = some payload

/-- The receipt handed to the key holder is `prior` in all that its head link binds. -/
def Agree (crypto : Crypto) (key : Key) (presented prior : Receipt) : Prop :=
  ∃ report other, check crypto key presented = .ok report ∧ check crypto key prior = .ok other ∧
    report.stage = other.stage ∧ report.digest = other.digest ∧
    ∀ field ∈ fields, fieldValue presented report.stage field = fieldValue prior report.stage field

/-- The receipts that sequences of the key holder's calls produce. -/
inductive Performed (crypto : Crypto) (key : Key) (history : List Act) : Receipt → Prop where
  | bind {receipt : Receipt} {predecessor : Option String} {fresh : Unobserved receipt}
      (called : .bind receipt predecessor fresh ∈ history) :
      Performed crypto key history (bind crypto key predecessor receipt)
  | transition {prior presented next : Receipt} {stage : Stage} {lawful : stage ∈ transitionStages}
      {same : SameIdentity next presented} (performed : Performed crypto key history prior)
      (called : .transition presented next stage lawful same ∈ history)
      (agree : Agree crypto key presented prior) :
      Performed crypto key history (transition crypto key prior next stage)

/-- The digest of the link was computed for the link's own stage and predecessor. -/
def Link.Authentic (crypto : Crypto) (key : Key) (link : Link) : Prop :=
  ∃ fields, link.digest = mac crypto (linkPayload crypto key link.stage link.predecessor fields) (some key)

/-- Two receipts with the same values in every bound field. -/
def SameBound (receipt other : Receipt) : Prop :=
  ∀ field ∈ fields, fieldValue receipt .final field = fieldValue other .final field

variable {crypto : Crypto} {key : Key} {history : List Act} {receipt other prior presented : Receipt}

theorem fieldValue_of_ne_prepared {stage : Stage} (observed : stage ≠ .prepared) (receipt : Receipt)
    (field : Field) : fieldValue receipt stage field = fieldValue receipt .final field := by
  cases stage with
  | prepared => exact absurd rfl observed
  | _ => cases field <;> rfl

theorem fieldValue_identity {field : Field} (identity : field ≠ .resultIdentity) (receipt : Receipt)
    (stage : Stage) : fieldValue receipt stage field = fieldValue receipt .prepared field := by
  cases field with
  | resultIdentity => exact absurd rfl identity
  | _ => rfl

theorem sameIdentity_of_bound {stage : Stage}
    (bound : ∀ field ∈ fields, fieldValue receipt stage field = fieldValue other stage field) :
    SameIdentity receipt other := by
  intro field
  by_cases result : field = .resultIdentity
  · subst result
    rfl
  · by_cases listed : field ∈ fields
    · rw [← fieldValue_identity result receipt stage, ← fieldValue_identity result other stage]
      exact bound field listed
    · cases field with
      | other name => rfl
      | _ => simp [fields] at listed

theorem Agree.sameIdentity (agree : Agree crypto key presented prior) : SameIdentity presented prior := by
  obtain ⟨report, other, -, -, -, -, bound⟩ := agree
  exact sameIdentity_of_bound bound

theorem link_authentic (stage : Stage) (predecessor : Option String) (fields : List (Field × String)) :
    (link crypto key stage predecessor fields).Authentic crypto key := ⟨fields, rfl⟩

theorem ne_prepared_of_lawful {stage : Stage} (lawful : stage ∈ transitionStages) : stage ≠ .prepared := by
  rintro rfl
  simp [transitionStages] at lawful

/-- Sequences of calls never leave a receipt that fails to verify, and never leave a link
whose digest was computed for another place. -/
theorem Performed.verifies (performed : Performed crypto key history receipt) :
    ∃ binding root rest, Verifies crypto key receipt binding root rest ∧
      (∀ link ∈ root :: rest, link.Authentic crypto key) ∧
      ((lastLink root rest).stage = .prepared → Unobserved receipt) := by
  induction performed with
  | bind called =>
    rename_i anchor predecessor fresh
    obtain ⟨binding, verifies⟩ := bind_verifies crypto key predecessor anchor fresh.status
    refine ⟨binding, _, [], verifies, ?_, fun _ => ⟨fresh.1, fresh.2, fresh.3, fresh.4⟩⟩
    intro link member
    rw [List.mem_singleton.mp member]
    exact link_authentic _ _ _
  | transition _ called agree ih =>
    rename_i presented next stage lawful same _
    obtain ⟨binding, root, rest, verifies, authentic, -⟩ := ih
    refine ⟨_, root, _, verifies.sealed lawful (same.trans agree.sameIdentity), ?_, ?_⟩
    · intro link member
      rw [← List.cons_append] at member
      rcases List.mem_append.mp member with earlier | last
      · exact authentic link earlier
      · rw [List.mem_singleton.mp last]
        exact link_authentic _ _ _
    · rw [lastLink_append]
      exact fun prepared => absurd prepared (ne_prepared_of_lawful lawful)

/-- A sequence of calls of the key holder ends in these bound values and these links. -/
def Accounted (crypto : Crypto) (key : Key) (history : List Act) (receipt : Receipt) : Prop :=
  ∃ sealed, Performed crypto key history sealed ∧ sealed.links = receipt.links ∧ SameBound sealed receipt

theorem Performed.mono {more : List Act} (grows : history ⊆ more)
    (performed : Performed crypto key history receipt) : Performed crypto key more receipt := by
  induction performed with
  | bind called => exact .bind (grows called)
  | transition _ called agree ih => exact .transition ih (grows called) agree

theorem SameBound.at_stage (same : SameBound receipt other) (stage : Stage) :
    ∀ field ∈ fields, fieldValue receipt stage field = fieldValue other stage field := by
  intro field member
  by_cases prepared : stage = .prepared
  · subst prepared
    exact sameIdentity_of_bound same field
  · rw [fieldValue_of_ne_prepared prepared, fieldValue_of_ne_prepared prepared]
    exact same field member

theorem Accounted.bind (fresh : Unobserved receipt) (predecessor : Option String) :
    Accounted crypto key [.bind receipt predecessor fresh] (bind crypto key predecessor receipt) :=
  ⟨_, .bind List.mem_cons_self, rfl, fun _ _ => rfl⟩

theorem Accounted.transition {binding : Binding} {root : Link} {rest : List Link} {changed : Receipt}
    {stage : Stage} (accounted : Accounted crypto key history receipt)
    (verifies : Verifies crypto key receipt binding root rest) (lawful : stage ∈ transitionStages)
    (same : SameIdentity changed receipt) :
    Accounted crypto key (.transition receipt changed stage lawful same :: history)
      (transition crypto key receipt changed stage) := by
  obtain ⟨sealed, performed, links, bound⟩ := accounted
  obtain ⟨_, first, more, sealedVerifies, -, -⟩ := performed.verifies
  have chain : first :: more = root :: rest := by
    rw [← sealedVerifies.links_eq, links, verifies.links_eq]
  obtain ⟨rfl, rfl⟩ := List.cons.inj chain
  have agree : Agree crypto key receipt sealed :=
    ⟨_, _, check_iff.mpr ⟨_, _, _, verifies, rfl⟩, check_iff.mpr ⟨_, _, _, sealedVerifies, rfl⟩, rfl, rfl,
      fun field member => (bound.at_stage _ field member).symm⟩
  refine ⟨_, .transition (performed.mono (List.subset_cons_self _ _)) List.mem_cons_self agree, ?_, ?_⟩
  · rw [(verifies.sealed lawful same).links_eq,
      (sealedVerifies.sealed lawful (same.trans agree.sameIdentity)).links_eq]
  · intro field _
    rw [fieldValue_transition, fieldValue_transition]

theorem Accounted.applyAll {host : Host} {binding : Binding} {root : Link} {rest : List Link}
    {mutations : List Mutation} {next : Receipt} (keyed : host.key = some key)
    (verifies : Verifies host.crypto host.key receipt binding root rest)
    (accounted : Accounted host.crypto key history receipt)
    (ran : Mutation.applyAll host mutations receipt = some next) :
    ∃ history, Accounted host.crypto key history next := by
  induction mutations generalizing receipt binding rest history with
  | nil =>
    cases ran
    exact ⟨history, accounted⟩
  | cons mutation mutations ih =>
    obtain ⟨middle, applied, ran⟩ := Option.bind_eq_some_iff.mp ran
    obtain ⟨_, more, kept, -, -⟩ := Mutation.apply_extends verifies applied
    rcases Mutation.apply_cases applied with ⟨-, binding, bound⟩ | ⟨-, changed, stage, lawful, same, rfl⟩
    · obtain ⟨sealed, performed, links, alike⟩ := accounted
      refine ih kept ⟨sealed, performed, ?_, ?_⟩ ran
      · rw [links, Receipt.links, Receipt.links, binding]
      · intro field member
        rw [bound]
        exact alike field member
    · rw [keyed] at verifies kept ran
      rw [keyed] at ih
      exact ih kept (accounted.transition verifies lawful same) ran

/-- The receipts this repository builds are among those that calls account for. -/
theorem lawful_accounted (host : Host) (keyed : host.key = some key) (command : Command)
    (executionId : Identity .execution) (consequence : Consequence) (opts : Opts) (stamp : Stamp)
    (mutations : List Mutation)
    (ran : Mutation.applyAll host mutations
      (pending host command executionId consequence opts stamp).1 = some receipt) :
    ∃ history, Accounted host.crypto key history receipt := by
  obtain ⟨_, root, anchored⟩ := pending_verifies host command executionId consequence opts stamp
  have start : (pending host command executionId consequence opts stamp).1 =
      bind host.crypto key opts.chainPredecessor
        { (pending host command executionId consequence opts stamp).1 with binding := none } := by
    rw [← keyed]
    rfl
  rw [start] at anchored ran
  exact Accounted.applyAll keyed anchored (.bind ⟨rfl, rfl, rfl, rfl⟩ _) ran

section Ideal

variable (fieldInjective : ∀ field, Function.Injective fun value => crypto.sha256 (.field field value))
  (macInjective : Function.Injective fun payload => crypto.hmac key (.link payload))

include fieldInjective in
theorem bound_of_digests {stage : Stage}
    (same : fieldDigests crypto receipt stage = fieldDigests crypto other stage) :
    ∀ field ∈ fields, fieldValue receipt stage field = fieldValue other stage field := by
  intro field member
  have entry := (List.map_inj_left.mp same) field member
  have digest : crypto.digest (.field field (fieldValue receipt stage field)) =
      crypto.digest (.field field (fieldValue other stage field)) := (Prod.mk.inj entry).2
  refine fieldInjective field ?_
  simpa [Crypto.digest] using digest

include macInjective in
theorem payload_of_mac {payload given : LinkPayload}
    (same : mac crypto payload (some key) = mac crypto given (some key)) : payload = given := by
  refine macInjective ?_
  simpa [mac] using same

include macInjective in
/-- The digests of a performed sequence were all computed by its calls. -/
theorem Performed.unforgeable (performed : Performed crypto key history receipt) :
    Unforgeable crypto key history receipt := by
  induction performed with
  | bind called =>
    intro link member payload digest
    obtain rfl := List.mem_singleton.mp member
    exact ⟨_, called, congrArg some (payload_of_mac macInjective digest)⟩
  | @transition prior presented next stage lawful same performed called agree ih =>
    obtain ⟨_, root, rest, verifies, -, -⟩ := performed.verifies
    intro link member payload digest
    rw [(verifies.sealed lawful (same.trans agree.sameIdentity)).links_eq, ← List.cons_append] at member
    rcases List.mem_append.mp member with earlier | last
    · exact ih link (by rwa [verifies.links_eq]) payload digest
    · obtain rfl := List.mem_singleton.mp last
      obtain ⟨report, other, presented, checked, -, digests, -⟩ := agree
      have head : other.digest = (lastLink root rest).digest := by
        rw [check_iff.mpr ⟨_, _, _, verifies, rfl⟩] at checked
        exact congrArg Report.digest (Except.ok.inj checked).symm
      refine ⟨_, called, ?_⟩
      simp only [Act.payload, presented, digests, head, Option.some.injEq]
      exact payload_of_mac macInjective digest

include macInjective in
theorem Accounted.unforgeable (accounted : Accounted crypto key history receipt) :
    Unforgeable crypto key history receipt := by
  obtain ⟨sealed, performed, links, -⟩ := accounted
  unfold Unforgeable
  rw [← links]
  exact performed.unforgeable macInjective

include fieldInjective macInjective in
/-- Two verifying receipts with one head digest agree on all that the head binds. -/
theorem agree_of_digest {binding other : Binding} {root first : Link} {rest more : List Link}
    (presentedVerifies : Verifies crypto key presented binding root rest)
    (priorVerifies : Verifies crypto key prior other first more)
    (digest : (lastLink root rest).digest = (lastLink first more).digest) :
    Agree crypto key presented prior := by
  have macs := presentedVerifies.head.trans (digest.trans priorVerifies.head.symm)
  have payloads := payload_of_mac macInjective macs
  have stages : (lastLink root rest).stage = (lastLink first more).stage :=
    congrArg LinkPayload.stage payloads
  have digests := congrArg LinkPayload.fields payloads
  simp only [linkPayload, ← stages] at digests
  exact ⟨_, _, check_iff.mpr ⟨_, _, _, presentedVerifies, rfl⟩,
    check_iff.mpr ⟨_, _, _, priorVerifies, rfl⟩, stages, digest, bound_of_digests fieldInjective digests⟩

theorem follows_of_append {root : Link} {front back : List Link} (chained : follows root (front ++ back)) :
    follows root front := by
  induction front generalizing root with
  | nil => rfl
  | cons link front ih =>
    simp only [List.cons_append, follows, Bool.and_eq_true] at chained ⊢
    exact ⟨chained.1, ih chained.2⟩

/-- The prepared anchor of an accepted receipt was bound by the key holder. -/
theorem Verifies.root_performed {binding : Binding} {root : Link} {rest : List Link}
    (unforgeable : Unforgeable crypto key history receipt)
    (verifies : Verifies crypto key receipt binding root rest) :
    ∃ sealed binding, Performed crypto key history sealed ∧
      Verifies crypto key sealed binding root [] := by
  have member : root ∈ receipt.links := by
    rw [verifies.links_eq]
    exact List.mem_cons_self
  obtain ⟨act, called, issued⟩ := unforgeable root member _ verifies.prepared.symm
  cases act with
  | bind anchor predecessor fresh =>
    have payloads := Option.some.inj issued
    obtain ⟨sealed, anchored⟩ := bind_verifies crypto key predecessor anchor fresh.status
    have same : link crypto key .prepared predecessor (fieldDigests crypto anchor .prepared) = root := by
      have predecessors : predecessor = root.predecessor := congrArg LinkPayload.predecessor payloads
      have digests : fieldDigests crypto anchor .prepared = fieldDigests crypto receipt .prepared :=
        congrArg LinkPayload.fields payloads
      rw [digests, predecessors]
      exact Link.ext verifies.anchored.symm rfl verifies.prepared
    exact ⟨_, sealed, .bind called, same ▸ anchored⟩
  | transition prior next stage lawful same =>
    simp only [Act.payload] at issued
    split at issued
    · exact absurd (congrArg LinkPayload.stage (Option.some.inj issued)) (ne_prepared_of_lawful lawful)
    · cases issued

include fieldInjective macInjective in
/-- Along a chain of authentic links, every prefix was produced by calls of the key holder:
the induction extends the sequence by the call that authenticated the next link. -/
theorem Verifies.prefix_performed {binding : Binding} {root : Link} {rest front back : List Link}
    (unforgeable : Unforgeable crypto key history receipt)
    (verifies : Verifies crypto key receipt binding root rest)
    (authentic : ∀ link ∈ rest, link.Authentic crypto key) (split : rest = front ++ back) :
    ∃ sealed binding, Performed crypto key history sealed ∧
      Verifies crypto key sealed binding root front := by
  induction front using List.reverseRecOn generalizing back with
  | nil => exact verifies.root_performed unforgeable
  | append_singleton front link ih =>
    obtain ⟨prior, bound, performed, priorVerifies⟩ :=
      @ih (link :: back) (by rw [split, List.append_assoc]; rfl)
    have member : link ∈ rest := by simp [split]
    have chained : Receipt.follows root (front ++ [link]) := follows_of_append (split ▸ verifies.follows)
    obtain ⟨-, lawful, named⟩ := follows_append.mp chained
    obtain ⟨digests, computed⟩ := authentic link member
    have listed : link ∈ receipt.links := by
      rw [verifies.links_eq]
      exact List.mem_cons_of_mem _ member
    obtain ⟨act, called, issued⟩ := unforgeable link listed _ computed
    cases act with
    | bind anchor predecessor fresh =>
      have stages := congrArg LinkPayload.stage (Option.some.inj issued)
      exact absurd stages.symm (ne_prepared_of_lawful lawful)
    | transition presented next stage sealing same =>
      simp only [Act.payload] at issued
      cases checked : check crypto key presented with
      | error refusal => simp [checked] at issued
      | ok report =>
        simp only [checked, Option.some.injEq] at issued
        obtain ⟨other, first, more, presentedVerifies, rfl⟩ := check_iff.mp checked
        have stages : stage = link.stage := congrArg LinkPayload.stage issued
        have digest : (lastLink first more).digest = (lastLink root front).digest := by
          have predecessors := congrArg LinkPayload.predecessor issued
          simpa [linkPayload, named] using predecessors
        have agree := agree_of_digest fieldInjective macInjective presentedVerifies priorVerifies digest
        have extended := priorVerifies.sealed sealing (same.trans agree.sameIdentity)
        have last : Receipt.link crypto key stage (some (lastLink root front).digest)
            (fieldDigests crypto next stage) = link := by
          refine Link.ext stages named.symm ?_
          rw [computed, ← issued, digest]
          rfl
        rw [last] at extended
        exact ⟨_, _, .transition performed called agree, extended⟩

theorem Unobserved.of_sameBound (unobserved : Unobserved receipt) (same : SameBound receipt other) :
    Unobserved other := by
  obtain ⟨status, terminalStatus, reply, postcondition⟩ := unobserved
  have result := same .resultIdentity (by decide)
  simp only [fieldValue, FieldValue.resultIdentity.injEq] at result
  obtain ⟨statuses, terminals, replies, observations⟩ := result
  exact ⟨statuses ▸ status, terminals ▸ terminalStatus, replies ▸ reply, observations ▸ postcondition⟩

/-- What a prepared anchor leaves unbound is the same in any two unobserved receipts. -/
theorem SameBound.of_unobserved (identity : SameIdentity receipt other) (left : Unobserved receipt)
    (right : Unobserved other) : SameBound receipt other := by
  intro field _
  by_cases result : field = .resultIdentity
  · subst result
    simp only [fieldValue, left.status, left.terminalStatus, left.reply, left.postcondition,
      right.status, right.terminalStatus, right.reply, right.postcondition]
  · rw [fieldValue_identity result receipt, fieldValue_identity result other]
    exact identity field

theorem Accounted.authentic {report : Report} (accepted : check crypto key receipt = .ok report)
    (accounted : Accounted crypto key history receipt) :
    (∀ link ∈ receipt.links, link.Authentic crypto key) ∧
      (report.stage = .prepared → Unobserved receipt) := by
  obtain ⟨sealed, performed, links, same⟩ := accounted
  obtain ⟨_, root, rest, verifies, authentic, unobserved⟩ := performed.verifies
  obtain ⟨_, first, more, acceptedVerifies, rfl⟩ := check_iff.mp accepted
  have chain : root :: rest = first :: more := by
    rw [← verifies.links_eq, links, acceptedVerifies.links_eq]
  obtain ⟨rfl, rfl⟩ := List.cons.inj chain
  rw [acceptedVerifies.links_eq]
  exact ⟨authentic, fun prepared => (unobserved prepared).of_sameBound same⟩

include fieldInjective macInjective in
theorem Accounted.of_authentic {report : Report} (accepted : check crypto key receipt = .ok report)
    (unforgeable : Unforgeable crypto key history receipt)
    (authentic : ∀ link ∈ receipt.links, link.Authentic crypto key)
    (anchored : report.stage = .prepared → Unobserved receipt) :
    Accounted crypto key history receipt := by
  obtain ⟨_, root, rest, verifies, rfl⟩ := check_iff.mp accepted
  rw [verifies.links_eq] at authentic
  obtain ⟨sealed, _, performed, sealedVerifies⟩ :=
    verifies.prefix_performed fieldInjective macInjective unforgeable
      (fun link member => authentic link (List.mem_cons_of_mem _ member)) (List.append_nil rest).symm
  have macs := sealedVerifies.head.trans verifies.head.symm
  have bound := bound_of_digests fieldInjective
    (congrArg LinkPayload.fields (payload_of_mac macInjective macs))
  refine ⟨sealed, performed, by rw [sealedVerifies.links_eq, verifies.links_eq], ?_⟩
  by_cases prepared : (lastLink root rest).stage = .prepared
  · obtain ⟨_, first, more, again, -, unobserved⟩ := performed.verifies
    have chain : first :: more = root :: rest := by rw [← again.links_eq, sealedVerifies.links_eq]
    obtain ⟨rfl, rfl⟩ := List.cons.inj chain
    exact .of_unobserved (sameIdentity_of_bound bound) (unobserved prepared) (anchored prepared)
  · intro field member
    have values := bound field member
    rwa [fieldValue_of_ne_prepared prepared, fieldValue_of_ne_prepared prepared] at values

end Ideal

/-- A link with another stage, which its digest was not computed for. -/
def Link.relabel (link : Link) (stage : Stage) : Link := { link with stage := stage }

theorem follows_relabel {root middle : Link} {front back : List Link} {stage : Stage}
    (lawful : stage ∈ transitionStages) (chained : follows root (front ++ middle :: back)) :
    follows root (front ++ middle.relabel stage :: back) := by
  induction front generalizing root with
  | nil =>
    simp only [List.nil_append, follows, Bool.and_eq_true, decide_eq_true_eq] at chained ⊢
    refine ⟨⟨lawful, chained.1.2⟩, ?_⟩
    -- the successor compares digests only, and the digest has not changed
    cases back with
    | nil => rfl
    | cons link back => exact chained.2
  | cons link front ih =>
    simp only [List.cons_append, follows, Bool.and_eq_true] at chained ⊢
    exact ⟨chained.1, ih chained.2⟩

theorem Verifies.relabel {key : Option Key} {binding : Binding} {root middle last : Link}
    {front back : List Link} {stage : Stage} (lawful : stage ∈ transitionStages)
    (verifies : Verifies crypto key receipt binding root (front ++ middle :: last :: back)) :
    Verifies crypto key
      { receipt with
        binding := some { binding with
          links := root :: (front ++ middle.relabel stage :: last :: back) } }
      { binding with links := root :: (front ++ middle.relabel stage :: last :: back) }
      root (front ++ middle.relabel stage :: last :: back) := by
  have same : lastLink root (front ++ middle.relabel stage :: last :: back) =
      lastLink root (front ++ middle :: last :: back) := by
    simp [lastLink]
  refine ⟨rfl, rfl, verifies.version, verifies.keys, ?_,
    ⟨verifies.posture.algorithm, verifies.posture.keyed, verifies.posture.keyId, ?_⟩, ?_, ?_,
    verifies.anchored, verifies.prepared, follows_relabel lawful verifies.follows, ?_⟩
  · have listed := verifies.listed
    simp only [Binding.linksOk, verifies.shape, List.all_cons, List.all_append, Bool.and_eq_true,
      decide_eq_true_eq] at listed ⊢
    exact ⟨listed.1, listed.2.1, List.mem_cons_of_mem _ lawful, listed.2.2.2⟩
  · have tagged := verifies.posture.tagged
    simp only [verifies.shape, List.forall_mem_cons, List.forall_mem_append] at tagged ⊢
    exact tagged
  · rw [same]
    exact verifies.fields
  · rw [same]
    exact verifies.head
  · rw [same]
    exact verifies.result

/-- Relabelling a link that is neither the anchor nor the head is never refused, and what
results is no work of the key holder. -/
theorem relabel_accepted {binding : Binding} {root middle last : Link} (front back : List Link)
    {stage : Stage} (macInjective : Function.Injective fun payload => crypto.hmac key (.link payload))
    (accounted : Accounted crypto key history receipt)
    (verifies : Verifies crypto key receipt binding root (front ++ middle :: last :: back))
    (lawful : stage ∈ transitionStages) (different : stage ≠ middle.stage)
    (relabelled : other = { receipt with
      binding := some { binding with
        links := root :: (front ++ middle.relabel stage :: last :: back) } }) :
    (∃ report, check crypto key other = .ok report) ∧ Unforgeable crypto key history other ∧
      ¬ Accounted crypto key history other := by
  subst relabelled
  have relabelled := verifies.relabel lawful
  have accepted := check_iff.mpr ⟨_, _, _, relabelled, rfl⟩
  refine ⟨⟨_, accepted⟩, ?_, ?_⟩
  · have unforgeable := accounted.unforgeable macInjective
    unfold Unforgeable at unforgeable ⊢
    rw [verifies.links_eq] at unforgeable
    rw [relabelled.links_eq]
    simp only [List.forall_mem_cons, List.forall_mem_append, Link.relabel] at unforgeable ⊢
    exact unforgeable
  · intro impossible
    have before := (accounted.authentic (check_iff.mpr ⟨_, _, _, verifies, rfl⟩)).1 middle
      (by simp [verifies.links_eq])
    have after := (impossible.authentic accepted).1 (middle.relabel stage) (by simp [relabelled.links_eq])
    obtain ⟨fields, computed⟩ := before
    obtain ⟨given, claimed⟩ := after
    have payloads := payload_of_mac macInjective (claimed.symm.trans computed)
    exact different (congrArg LinkPayload.stage payloads)

/-- An accepted receipt is accounted for exactly when the links that acceptance does not
recompute are authentic and an anchor without a later link shows no result. -/
theorem accepted_accounted_iff (crypto : Crypto) (key : Key) (history : List Act) (receipt : Receipt)
    (report : Report)
    (fieldInjective : ∀ field, Function.Injective fun value => crypto.sha256 (.field field value))
    (macInjective : Function.Injective fun payload => crypto.hmac key (.link payload))
    (unforgeable : Unforgeable crypto key history receipt)
    (accepted : check crypto key receipt = .ok report) :
    Accounted crypto key history receipt ↔
      (∀ link ∈ receipt.links, link.Authentic crypto key) ∧
        (report.stage = .prepared → Unobserved receipt) := by
  constructor
  · exact Accounted.authentic accepted
  · rintro ⟨authentic, anchored⟩
    exact .of_authentic fieldInjective macInjective accepted unforgeable authentic anchored

section Example

theorem secret_long : ("secret" : String) ≠ "" := by decide

def secret : Key := ⟨"secret", secret_long⟩

def spelledHost : Host where
  crypto := .spelled
  key := secret
  evidenceClass := .nil

theorem spelled_macInjective :
    Function.Injective fun payload => Crypto.spelled.hmac secret (.link payload) :=
  fun _ _ same => Preimage.link.inj (Crypto.spell_injective same)

theorem spelled_fieldInjective (field : Field) :
    Function.Injective fun value => Crypto.spelled.sha256 (.field field value) :=
  fun _ _ same => (Preimage.field.inj (Crypto.spell_injective same)).2

def anchored : Anchor :=
  pending spelledHost transferCommand ⟨"execution"⟩ .change {} ⟨"first", 1, 1⟩

theorem accepted_accounted_iff_anchored :
    ∃ history report, check .spelled secret anchored.1 = .ok report ∧
      (Accounted .spelled secret history anchored.1 ↔
        (∀ link ∈ anchored.1.links, link.Authentic .spelled secret) ∧
          (report.stage = .prepared → Unobserved anchored.1)) := by
  obtain ⟨history, accounted⟩ := lawful_accounted spelledHost rfl transferCommand ⟨"execution"⟩ .change {}
    ⟨"first", 1, 1⟩ [] (rfl : _ = some anchored.1)
  obtain ⟨_, root, verifies⟩ := pending_verifies spelledHost transferCommand ⟨"execution"⟩ .change {}
    ⟨"first", 1, 1⟩
  have accepted := check_iff.mpr ⟨_, _, _, verifies, rfl⟩
  exact ⟨history, _, accepted, accepted_accounted_iff .spelled secret history anchored.1 _
    spelled_fieldInjective spelled_macInjective (accounted.unforgeable spelled_macInjective) accepted⟩

def drained : Receipt :=
  reconcile spelledHost (finalize spelledHost anchored (.reply (.atom "ok")) ⟨"second", 2, 2⟩)
    (.atom "receipt_outbox") 3

/-- The observed outcome now passes for a compensation. -/
def relabelled (receipt : Receipt) : Receipt :=
  { receipt with
    binding := receipt.binding.map fun binding =>
      { binding with links := binding.links.modify 1 (·.relabel .compensated) } }

/-- Any final receipt that was drained can be relabelled. -/
theorem relabel_drained (host : Host) (keyed : host.key = some key)
    (macInjective : Function.Injective fun payload => host.crypto.hmac key (.link payload))
    (command : Command) (executionId : Identity .execution) (consequence : Consequence) (opts : Opts)
    (stamp later : Stamp) (reply : Reply) (detail : Term) (now : Nat) :
    let drained := reconcile host
      (finalize host (pending host command executionId consequence opts stamp) reply later) detail now
    ∃ history, Accounted host.crypto key history drained ∧
      Unforgeable host.crypto key history (relabelled drained) ∧
      (∃ report, check host.crypto key (relabelled drained) = .ok report) ∧
      ¬ Accounted host.crypto key history (relabelled drained) := by
  intro drained
  obtain ⟨history, accounted⟩ := lawful_accounted host keyed command executionId consequence opts stamp
    [.finalize reply later, .reconcile detail now] (rfl : _ = some drained)
  obtain ⟨binding, root, start⟩ := pending_verifies host command executionId consequence opts stamp
  have finished : Verifies host.crypto host.key
      (finalize host (pending host command executionId consequence opts stamp) reply later) _ root
      ([] ++ [_]) :=
    start.sealed (by decide : Stage.final ∈ transitionStages) fun field => by cases field <;> rfl
  obtain ⟨sealed, middle, last, verifies, stage⟩ : ∃ sealed middle last,
      Verifies host.crypto host.key drained sealed root [middle, last] ∧ middle.stage = .final :=
    ⟨_, _, _, finished.sealed (by decide : Stage.reconciled ∈ transitionStages) fun field => by
      cases field <;> rfl, rfl⟩
  rw [keyed] at verifies
  have changed : relabelled drained = { drained with
      binding := some { sealed with links := [root, middle.relabel .compensated, last] } } := by
    simp only [relabelled, verifies.bound, Option.map_some, verifies.shape]
    rfl
  have broken := relabel_accepted [] [] macInjective accounted verifies
    (by decide : Stage.compensated ∈ transitionStages) (by rw [stage]; decide) changed
  exact ⟨history, accounted, broken.2.1, broken.1, broken.2.2⟩

theorem relabelled_accepted :
    ∃ history, Accounted .spelled secret history drained ∧
      Unforgeable .spelled secret history (relabelled drained) ∧
      (∃ report, check .spelled secret (relabelled drained) = .ok report) ∧
      ¬ Accounted .spelled secret history (relabelled drained) :=
  relabel_drained spelledHost rfl spelled_macInjective _ _ _ _ _ _ _ _ _

end Example

end AshA2A.Receipt
