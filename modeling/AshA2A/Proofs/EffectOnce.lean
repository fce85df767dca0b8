import AshA2A.ConsequenceKernel.Pipeline
import AshA2A.Concurrency.Safety

/-! An effect is entered once. The claim on the effect decides which run may enter, since the
store accepts one claim for an effect and forgets none. The state of the prepared record keeps
it from being released afterwards. -/

namespace AshA2A.ConsequenceKernel
open Concurrency

variable {Pid Store : Type} {store : PreparedStore Store} {host : Host}

/-- The process had its claim on the effect accepted. -/
def ClaimedBy (trace : List (Event Pid Op Reply)) (pid : Pid) (effectId : String) : Prop :=
  ∃ claim : EffectClaim, claim.effectId = effectId ∧ ⟨pid, .claims (.put claim), EffectClaimStore.Answer.ok⟩ ∈ trace

/-- The effector is entered for this effect. -/
def enters (effectId : String) (event : Event Pid Op Reply) : Bool :=
  match event.op with
  | .apply p _ => p.effectId = effectId
  | _ => false

/-- Once an effector was entered under a prepared record, that record is not released. -/
def Unreleased (trace : List (Event Pid Op Reply)) : Prop :=
  ∀ later earlier pid digest source,
    trace = later ++ ⟨pid, .prepared (.transition digest source "released"), PreparedEffectStore.Answer.ok⟩ :: earlier →
    ∀ other p token applied, ⟨other, .apply p token, applied⟩ ∈ earlier → p.preparedDigest ≠ digest

structure Sound (store : PreparedStore Store) (shared : Shared Pid Op Reply (World Store)) (entered : Pid → Bool) :
    Prop where
  free : ∀ effectId, shared.world.claims.effects effectId = none → ∀ pid, ¬ ClaimedBy shared.trace pid effectId
  sole : ∀ effectId first second, ClaimedBy shared.trace first effectId → ClaimedBy shared.trace second effectId →
    first = second
  own : ∀ pid p token applied, ⟨pid, .apply p token, applied⟩ ∈ shared.trace → entered pid = true ∧
    ClaimedBy shared.trace pid p.effectId ∧ store.applied shared.world.prepared p.preparedDigest
  once : ∀ effectId, shared.trace.countP (enters effectId) ≤ 1
  unreleased : Unreleased shared.trace

/-- A process enters under its own claim, once, and when its record is past release. -/
def Justified [DecidableEq Pid] (store : PreparedStore Store) (pid : Pid) (op : Op)
    (shared : Shared Pid Op Reply (World Store)) (before after : Pid → Bool) : Prop :=
  match op with
  | .apply p _ => before pid = false ∧ ClaimedBy shared.trace pid p.effectId ∧
    store.applied shared.world.prepared p.preparedDigest ∧ after = Function.update before pid true
  | _ => after = before

/-- A request that does not enter the effector. -/
def Aside (op : Op) : Prop := ∀ p token, op ≠ .apply p token

theorem Aside.justified [DecidableEq Pid] {op : Op} (aside : Aside op) (pid : Pid)
    (shared : Shared Pid Op Reply (World Store)) (entered : Pid → Bool) :
    Justified store pid op shared entered entered := by
  cases op with
  | apply p token => exact absurd rfl (aside p token)
  | _ => exact (rfl : entered = entered)

/-! ### One request -/

section
variable {shared : Shared Pid Op Reply (World Store)} {entered : Pid → Bool} {pid : Pid} {op : Op} {choice : Choice}

theorem ClaimedBy.later {trace : List (Event Pid Op Reply)} {effectId : String} (event : Event Pid Op Reply)
    (claimed : ClaimedBy trace pid effectId) : ClaimedBy (event :: trace) pid effectId := by
  obtain ⟨claim, same, member⟩ := claimed
  exact ⟨claim, same, List.mem_cons_of_mem _ member⟩

/-- Only an accepted claim on it makes an effect claimed. -/
theorem claimedBy_cons {trace : List (Event Pid Op Reply)} {event : Event Pid Op Reply} {effectId : String} :
    ClaimedBy (event :: trace) pid effectId ↔
      (∃ claim : EffectClaim, claim.effectId = effectId ∧ event = ⟨pid, .claims (.put claim), EffectClaimStore.Answer.ok⟩) ∨
        ClaimedBy trace pid effectId := by
  constructor
  · rintro ⟨claim, same, member⟩
    rcases List.mem_cons.mp member with now | before
    · exact .inl ⟨claim, same, now.symm⟩
    · exact .inr ⟨claim, same, before⟩
  · rintro (⟨claim, same, now⟩ | claimed)
    · exact ⟨claim, same, now ▸ List.mem_cons_self⟩
    · exact claimed.later event

variable {reply : Reply op} {after : World Store}

theorem exec_applied (served : exec store choice shared.world op = (reply, after)) {digest : String}
    (applied : store.applied shared.world.prepared digest) : store.applied after.prepared digest := by
  cases op with
  | prepared call =>
    cases served
    exact store.keeps call applied
  | _ =>
    cases served
    exact applied

theorem exec_claimed (served : exec store choice shared.world op = (reply, after)) {effectId : String}
    (claimed : (shared.world.claims.effects effectId).isSome) : (after.claims.effects effectId).isSome := by
  cases op with
  | claims call =>
    cases served
    exact EffectClaimStore.Memory.handle_claimed claimed
  | _ =>
    cases served
    exact claimed

theorem exec_put {claim : EffectClaim}
    (served : exec store choice shared.world (.claims (.put claim)) = (EffectClaimStore.Answer.ok, after)) :
    shared.world.claims.effects claim.effectId = none ∧ (after.claims.effects claim.effectId).isSome := by
  obtain ⟨accepted, rfl⟩ := Prod.mk.inj served
  obtain ⟨free, now⟩ := EffectClaimStore.Memory.put_ok accepted
  refine ⟨free, ?_⟩
  change ((EffectClaimStore.Memory.put shared.world.claims claim).2.effects claim.effectId).isSome = true
  rw [now, Function.update_self]
  rfl

/-- An effect that is free was claimed by nobody, before as after. -/
theorem Sound.free_after (sound : Sound store shared entered)
    (served : exec store choice shared.world op = (reply, after)) {effectId : String}
    (none : after.claims.effects effectId = none) (other : Pid) :
    ¬ ClaimedBy (⟨pid, op, reply⟩ :: shared.trace) other effectId := by
  rw [claimedBy_cons]
  rintro (⟨claim, rfl, now⟩ | before)
  · cases now
    have taken := (exec_put served).2
    rw [none] at taken
    cases taken
  · refine sound.free effectId ?_ other before
    by_contra claimed
    have still := exec_claimed served (Option.ne_none_iff_isSome.mp claimed)
    rw [none] at still
    cases still

/-- A claim is accepted on an effect that nobody claimed before. -/
theorem Sound.sole_after (sound : Sound store shared entered)
    (served : exec store choice shared.world op = (reply, after)) {effectId : String} {first second : Pid}
    (left : ClaimedBy (⟨pid, op, reply⟩ :: shared.trace) first effectId)
    (right : ClaimedBy (⟨pid, op, reply⟩ :: shared.trace) second effectId) : first = second := by
  rcases claimedBy_cons.mp left with ⟨claim, rfl, now⟩ | before
  · cases now
    rcases claimedBy_cons.mp right with ⟨other, same, now⟩ | before
    · cases now
      rfl
    · exact absurd before (sound.free _ (exec_put served).1 second)
  · rcases claimedBy_cons.mp right with ⟨claim, rfl, now⟩ | other
    · cases now
      exact absurd before (sound.free _ (exec_put served).1 first)
    · exact sound.sole effectId first second before other

theorem Sound.unreleased_after (sound : Sound store shared entered)
    (served : exec store choice shared.world op = (reply, after)) :
    Unreleased (⟨pid, op, reply⟩ :: shared.trace) := by
  intro later earlier releaser digest source split other p token applied member same
  cases later with
  | nil =>
    obtain ⟨now, rfl⟩ := List.cons.inj split
    cases now
    have past := (sound.own other p token applied member).2.2
    rw [same] at past
    exact store.refuses source past (congrArg Prod.fst served)
  | cons event later =>
    obtain ⟨-, rest⟩ := List.cons.inj split
    exact sound.unreleased later earlier releaser digest source rest other p token applied member same

theorem Sound.aside [DecidableEq Pid] (sound : Sound store shared entered)
    (served : exec store choice shared.world op = (reply, after)) (aside : Aside op) :
    Sound store (shared.after pid op reply after) entered where
  free _ none other := sound.free_after served none other
  sole _ _ _ left right := sound.sole_after served left right
  own other p token applied member := by
    rcases List.mem_cons.mp member with now | before
    · cases now
      exact absurd rfl (aside p token)
    · obtain ⟨entered, claimed, past⟩ := sound.own other p token applied before
      exact ⟨entered, claimed.later _, exec_applied served past⟩
  once effectId := by
    have other : enters effectId (⟨pid, op, reply⟩ : Event Pid Op Reply) = false := by
      unfold enters
      split
      case h_1 p token now => exact absurd now (aside p token)
      case h_2 => rfl
    rw [Shared.after_trace, List.countP_cons, other]
    exact sound.once effectId
  unreleased := sound.unreleased_after served

/-- The effector is entered by a process that has not entered before. -/
theorem Sound.enter [DecidableEq Pid] (sound : Sound store shared entered) {p : Prepared} {token : EffectorToken}
    {applied : Reply (.apply p token)} (served : exec store choice shared.world (.apply p token) = (applied, after))
    (first : entered pid = false) (claimed : ClaimedBy shared.trace pid p.effectId)
    (past : store.applied shared.world.prepared p.preparedDigest) :
    Sound store (shared.after pid (.apply p token) applied after) (Function.update entered pid true) where
  free _ none other := sound.free_after served none other
  sole _ _ _ left right := sound.sole_after served left right
  own other p' token' applied' member := by
    rcases List.mem_cons.mp member with now | before
    · cases now
      exact ⟨Function.update_self .., claimed.later _, exec_applied served past⟩
    · obtain ⟨earlier, claimed, past⟩ := sound.own other p' token' applied' before
      refine ⟨?_, claimed.later _, exec_applied served past⟩
      by_cases same : other = pid
      · rw [same, Function.update_self]
      · rw [Function.update_of_ne same, earlier]
  once effectId := by
    rw [Shared.after_trace, List.countP_cons]
    by_cases same : enters effectId (⟨pid, .apply p token, applied⟩ : Event Pid Op Reply) = true
    · -- Whoever entered before had the one claim on the effect, and so is this process.
      have never : shared.trace.countP (enters effectId) = 0 := by
        rw [List.countP_eq_zero]
        rintro ⟨other, op, reply⟩ member
        unfold enters
        cases op with
        | apply p' token' =>
          obtain ⟨earlier, held, -⟩ := sound.own other p' token' reply member
          intro enters
          have effect : p'.effectId = p.effectId :=
            (of_decide_eq_true enters).trans (of_decide_eq_true same).symm
          have self := sound.sole p.effectId other pid (effect ▸ held) claimed
          rw [self, first] at earlier
          cases earlier
        | _ => exact Bool.false_ne_true
      rw [never]
      split <;> omega
    · rw [if_neg same]
      exact sound.once effectId
  unreleased := sound.unreleased_after served

end

/-! ### One process -/

variable [DecidableEq Pid]

def discipline (store : PreparedStore Store) :
    Discipline (machine store : Machine Pid Op Reply Choice (World Store)) (Pid → Bool) where
  allowed _ _ _ _ := True
  valid := Sound store
  justified pid op _ shared before after := Justified store pid op shared before after
  keeps {pid op choice reply shared world before after} sound _ justified served := by
    have served := Option.some.inj served
    cases op with
    | apply p token =>
      obtain ⟨first, claimed, past, rfl⟩ := justified
      exact sound.enter served first claimed past
    | _ =>
      have same : after = before := justified
      subst same
      exact sound.aside served nofun

abbrev Assertion (Pid Store : Type) : Type := Shared Pid Op Reply (World Store) → (Pid → Bool) → Prop

/-- When the stage comes to a value, this holds of it. -/
def Meets (store : PreparedStore Store) (pid : Pid) {α : Type} (post : α → Assertion Pid Store) (stage : Stage α)
    (shared : Shared Pid Op Reply (World Store)) (entered : Pid → Bool) : Prop :=
  (discipline store).Safe pid (fun result shared entered => ∀ value, result = .ok value → post value shared entered)
    stage.run shared entered

/-- Nothing that the stage asks for enters the effector. -/
def Quiet {α : Type} (stage : Stage α) : Prop := stage.run.Uses Aside

section
variable {α β : Type} {pid : Pid} {shared : Shared Pid Op Reply (World Store)} {entered : Pid → Bool}
  {frame : Assertion Pid Store}

namespace Meets
variable {post : α → Assertion Pid Store} {stage : Stage α}

theorem pure {value : α} (framed : (discipline store).Framed pid frame) (holds : frame shared entered) :
    Meets store pid (fun found shared entered => found = value ∧ frame shared entered) (pure value) shared entered := by
  refine Discipline.Safe.pure frame framed.stable holds fun shared entered _ held found same => ?_
  cases same
  exact ⟨rfl, held⟩

theorem stop {stop : Stop} : Meets store pid post (throw stop) shared entered :=
  Discipline.Safe.pure (fun _ _ => True) .true trivial fun _ _ _ _ _ => nofun

theorem quiet (quiet : Quiet stage) (framed : (discipline store).Framed pid frame) (holds : frame shared entered) :
    Meets store pid (fun _ => frame) stage shared entered := by
  refine Discipline.Safe.weaken (.quiet quiet ?_ framed holds) fun _ _ _ _ held _ _ => held
  exact fun op reply shared entered aside => aside.justified pid shared entered

theorem weaken {other : α → Assertion Pid Store} (meets : Meets store pid post stage shared entered)
    (implies : ∀ value shared entered, post value shared entered → other value shared entered) :
    Meets store pid other stage shared entered :=
  Discipline.Safe.weaken meets fun _ _ _ _ held value same => implies _ _ _ (held value same)

theorem bind {next : α → Stage β} {final : β → Assertion Pid Store} (sound : Sound store shared entered)
    (meets : Meets store pid post stage shared entered)
    (rest : ∀ value shared entered, Sound store shared entered → post value shared entered →
      Meets store pid final (next value) shared entered) :
    Meets store pid final (stage >>= next) shared entered := by
  refine Discipline.Safe.bind sound meets fun result shared entered sound held => ?_
  cases result with
  | error stop => exact .pure (fun _ _ => True) .true trivial fun _ _ _ _ _ => nofun
  | ok value => exact rest value shared entered sound (held value rfl)

end Meets

namespace Quiet

theorem pure {value : α} : Quiet (pure value : Stage α) := trivial

theorem stop {stop : Stop} : Quiet (throw stop : Stage α) := trivial

theorem ask {op : Op} (aside : Aside op) : Quiet (ask op) := ⟨aside, fun _ => trivial⟩

theorem bind {stage : Stage α} {next : α → Stage β} (first : Quiet stage) (rest : ∀ value, Quiet (next value)) :
    Quiet (stage >>= next) :=
  Program.Uses.bind first fun result => match result with
    | .error _ => trivial
    | .ok value => rest value

theorem guard {code : Code} {holds : Bool} : Quiet (guard code holds) := by
  unfold ConsequenceKernel.guard
  split
  · exact pure
  · exact stop

theorem lift {value : Except Term α} : Quiet (lift value) := by
  cases value with
  | ok value => exact pure
  | error reason => exact stop

theorem claimsOk {request : EffectClaimStore.Call} : Quiet (claimsOk request) := by
  refine bind (ask nofun) fun answer => ?_
  split
  · exact pure
  · exact stop
  · exact stop

theorem call {request : PreparedEffectStore.Call} : Quiet (call request) := by
  refine bind (ask nofun) fun answer => ?_
  split
  · exact pure
  · exact stop
  · exact stop

theorem digest {p : Prepared} : Quiet (PreparedDigest.fetch p) := by
  unfold PreparedDigest.fetch
  split
  · exact stop
  · exact pure

theorem verify {claim : EffectClaim} {key : String} : Quiet (ClaimAuthenticator.verify host claim key) := by
  unfold ClaimAuthenticator.verify
  split
  · exact guard
  · exact stop

theorem append {claim : EffectClaim} {event : ClaimState} : Quiet (ClaimProtocol.append host claim event) := by
  refine bind (ask nofun) fun answer => ?_
  split <;> exact bind lift fun _ => claimsOk

theorem fetch {id : String} : Quiet (ClaimProtocol.fetch id) := by
  refine bind (ask nofun) fun answer => ?_
  split
  · exact pure
  · exact stop
  · exact stop

theorem fetchVerified {context : ClaimProtocol.Context} : Quiet (ClaimProtocol.fetchVerified host context) :=
  bind fetch fun _ => bind verify fun _ => pure

theorem advance {claim : EffectClaim} {source target : ClaimState} :
    Quiet (ClaimProtocol.advance host claim source target) :=
  bind claimsOk fun _ => bind fetch fun _ => append

theorem beginDo {context : ClaimProtocol.Context} : Quiet (ClaimProtocol.beginDo host context) :=
  bind fetchVerified fun _ => advance

theorem recordOutcome {context : ClaimProtocol.Context} {succeeded : Bool} :
    Quiet (ClaimProtocol.recordOutcome host context succeeded) :=
  bind fetchVerified fun _ => advance

theorem recover {context : ClaimProtocol.Context} {observation : ClaimProtocol.Observation} :
    Quiet (ClaimProtocol.recover host context observation) :=
  bind fetchVerified fun _ => bind guard fun _ => bind advance fun _ => pure

theorem prepareStage {p : Prepared} : Quiet (PrepareStage.run p) := bind digest fun _ => call

theorem verifyExisting {digest : String} : Quiet (verifyExisting digest) := by
  refine bind (ask nofun) fun answer => ?_
  split
  · refine bind (ask nofun) fun verified => ?_
    split
    · exact guard
    · exact stop
  · exact stop
  · exact stop
  · exact stop

theorem prepareSealed {p : Prepared} : Quiet (prepareSealed p) := by
  refine bind (ask nofun) fun sealing => ?_
  split
  · exact stop
  · refine bind (ask nofun) fun answer => ?_
    split
    · exact pure
    · exact verifyExisting
    · exact stop
    · exact stop

theorem prepare {p : Prepared} {opts : ClaimProtocol.Options} : Quiet (Pipeline.prepare p opts) := by
  unfold Pipeline.prepare
  split
  · exact prepareSealed
  · exact prepareStage

theorem claimStage {p : Prepared} {owner : Term} : Quiet (ClaimStage.run p owner) :=
  bind digest fun _ => bind call fun _ => bind call fun _ => bind digest fun _ => call

theorem authorityStage {principal : Term} {p : Prepared} : Quiet (AuthorityStage.run principal p) := by
  refine bind (ask nofun) fun answer => ?_
  split
  · exact pure
  · exact pure
  · exact stop
  · exact stop

theorem release {p : Prepared} {source : String} : Quiet (ReleaseStage.release p source) := by
  unfold ReleaseStage.release
  split
  · exact bind digest fun _ => call
  · exact stop

theorem lifted {stage : Stage α} (quiet : Quiet stage) : Quiet (ExceptT.lift stage.run : Stage (Except Stop α)) :=
  Program.Uses.bind quiet fun _ => trivial

theorem config {opts : ClaimProtocol.Options} : Quiet (ClaimProtocol.config opts) := by
  unfold ClaimProtocol.config
  split
  · split
    · exact pure
    · exact stop
  · exact stop

theorem settled {stage : Stage Unit} {outcome : Pipeline.Outcome} (quiet : Quiet stage) :
    Quiet (Pipeline.settled stage outcome) := by
  refine Program.Uses.bind quiet fun result => ?_
  split <;> trivial

theorem conclusion {p : Prepared} {opts : ClaimProtocol.Options} {context : ClaimProtocol.Context}
    {outcome : Pipeline.Outcome} : Quiet (Pipeline.conclusion host p opts context outcome) := by
  refine bind (bind digest fun _ => ?_) fun outcome => bind ?_ fun outcome => ?_
  · split
    · exact settled call
    · exact settled call
  · unfold Pipeline.recordCompletion
    split
    · exact bind digest fun _ => settled call
    · exact pure
  · refine bind (lifted recordOutcome) fun ignored => ?_
    split
    · exact stop
    · exact pure

end Quiet

/-! ### The way to the effector -/

/-- The process has not entered the effector. -/
def Outside (pid : Pid) : Assertion Pid Store := fun _ entered => entered pid = false

theorem outside_framed : (discipline store).Framed pid (Outside pid) := by
  intro other shared before after final moves own outside
  cases moves with
  | @served op _ _ _ _ _ _ justified _ =>
    by_cases same : other = pid
    · rw [Outside, own same]
      exact outside
    · cases op with
      | apply p token =>
        obtain ⟨-, -, -, rfl⟩ := justified
        rw [Outside, Function.update_of_ne (Ne.symm same)]
        exact outside
      | _ =>
        have kept : final = before := justified
        rw [kept]
        exact outside

theorem claimedBy_framed (effectId : String) :
    (discipline store).Framed pid fun shared _ => ClaimedBy shared.trace pid effectId := by
  intro other shared before after final moves _ claimed
  cases moves with
  | served => exact claimed.later _

theorem applied_framed (digest : String) :
    (discipline store).Framed pid fun (shared : Shared Pid Op Reply (World Store)) _ =>
      store.applied shared.world.prepared digest := by
  intro other shared before after final moves _ applied
  cases moves with
  | served _ _ _ served => exact exec_applied (Option.some.inj served) applied

namespace Meets

/-- A request that does not enter the effector, and what its answer says for good. -/
theorem ask {op : Op} {fact : Reply op → Assertion Pid Store} (aside : Aside op)
    (framed : (discipline store).Framed pid frame) (facts : ∀ answer, (discipline store).Framed pid (fact answer))
    (holds : frame shared entered)
    (serve : ∀ (shared : Shared Pid Op Reply (World Store)) entered choice answer after,
      exec store choice shared.world op = (answer, after) → fact answer (shared.after pid op answer after) entered) :
    Meets store pid (fun answer shared entered => frame shared entered ∧ fact answer shared entered) (ask op) shared
      entered := by
  refine Discipline.Safe.request frame framed.stable holds ?_
  intro shared before sound held choice answer after _ served
  have justified : Justified store pid op shared before before := aside.justified pid shared before
  refine ⟨before, justified, Discipline.Safe.pure (fun shared entered => frame shared entered ∧ fact answer shared entered)
    (framed.and (facts answer)).stable ⟨?_, ?_⟩ fun shared entered _ held value same => ?_⟩
  · exact framed (.served sound trivial justified served) (fun _ => rfl) held
  · exact serve shared before choice answer after (Option.some.inj served)
  · cases same
    exact held

theorem digest {p : Prepared} (framed : (discipline store).Framed pid frame) (holds : frame shared entered) :
    Meets store pid (fun digest shared entered => digest = p.preparedDigest ∧ frame shared entered)
      (PreparedDigest.fetch p) shared entered := by
  unfold PreparedDigest.fetch
  split
  · exact stop
  · exact pure framed holds

/-- The claim that is issued is one on the effect. -/
theorem issue {p : Prepared} {owner : Term} {key : String} (sound : Sound store shared entered)
    (framed : (discipline store).Framed pid frame) (holds : frame shared entered) :
    Meets store pid (fun claim shared entered => claim.effectId = p.effectId ∧ frame shared entered)
      (ClaimAuthenticator.issue host p owner key) shared entered := by
  refine bind sound (quiet Quiet.guard framed holds) fun _ shared entered sound holds => ?_
  refine bind sound (quiet Quiet.lift framed holds) fun id shared entered sound holds => ?_
  refine bind sound (quiet (Quiet.ask nofun) framed holds) fun now shared entered sound holds => ?_
  refine bind sound (quiet Quiet.lift framed holds) fun body shared entered sound holds => ?_
  refine (pure framed holds).weaken ?_
  rintro claim shared entered ⟨rfl, holds⟩
  exact ⟨rfl, holds⟩

/-- The process that has its claim accepted is the one that claimed. -/
theorem put {claim : EffectClaim} (sound : Sound store shared entered)
    (framed : (discipline store).Framed pid frame) (holds : frame shared entered) :
    Meets store pid (fun _ shared entered => ClaimedBy shared.trace pid claim.effectId ∧ frame shared entered)
      (claimsOk (.put claim)) shared entered := by
  have claimed : ∀ answer : EffectClaimStore.Answer, (discipline store).Framed pid fun shared _ =>
      answer = .ok → ClaimedBy shared.trace pid claim.effectId := by
    intro answer other shared before after final moves own held same
    exact claimedBy_framed claim.effectId moves own (held same)
  refine bind sound (ask nofun framed claimed holds ?_) ?_
  · intro shared entered choice answer after served same
    exact ⟨claim, rfl, same ▸ List.mem_cons_self⟩
  · intro answer shared entered sound held
    split
    · exact (pure ((claimedBy_framed _).and framed) ⟨held.2 rfl, held.1⟩).weaken fun _ _ _ held => held.2
    · exact stop
    · exact stop

theorem claim {p : Prepared} {opts : ClaimProtocol.Options} (sound : Sound store shared entered)
    (framed : (discipline store).Framed pid frame) (holds : frame shared entered) :
    Meets store pid (fun _ shared entered => ClaimedBy shared.trace pid p.effectId ∧ frame shared entered)
      (ClaimProtocol.claim host p opts) shared entered := by
  refine bind sound (quiet Quiet.config framed holds) fun key shared entered sound holds => ?_
  refine bind sound (issue sound framed holds) fun claim shared entered sound ⟨same, holds⟩ => ?_
  refine bind sound (quiet Quiet.guard framed holds) fun _ shared entered sound holds => ?_
  refine bind sound (quiet Quiet.guard framed holds) fun _ shared entered sound holds => ?_
  refine bind sound (quiet Quiet.guard framed holds) fun _ shared entered sound holds => ?_
  refine bind sound (put sound framed holds) fun _ shared entered sound held => ?_
  rw [same] at held
  have framed := (claimedBy_framed p.effectId).and framed
  refine bind sound (quiet Quiet.verify framed held) fun _ shared entered sound held => ?_
  refine bind sound (quiet Quiet.append framed held) fun _ shared entered sound held => ?_
  exact (pure framed held).weaken fun _ _ _ held => held.2

/-- A record that is being applied is past release. -/
theorem applying {p : Prepared} (sound : Sound store shared entered)
    (framed : (discipline store).Framed pid frame) (holds : frame shared entered) :
    Meets store pid (fun _ shared entered => store.applied shared.world.prepared p.preparedDigest ∧ frame shared entered)
      (ApplyingStage.run p) shared entered := by
  refine bind sound (digest framed holds) fun digest shared entered sound ⟨same, holds⟩ => ?_
  subst same
  have applied : ∀ answer : PreparedEffectStore.Answer, (discipline store).Framed pid
      fun (shared : Shared Pid Op Reply (World Store)) _ =>
        answer = .ok → store.applied shared.world.prepared p.preparedDigest := by
    intro answer other shared before after final moves own held same
    exact applied_framed p.preparedDigest moves own (held same)
  refine bind sound (ask nofun framed applied holds ?_) ?_
  · intro shared entered choice answer after served same
    obtain ⟨answered, rfl⟩ := Prod.mk.inj served
    exact store.enters (answered.trans same)
  · intro answer shared entered sound held
    split
    · exact (pure ((applied_framed _).and framed) ⟨held.2 rfl, held.1⟩).weaken fun _ _ _ held => held.2
    · exact stop
    · exact stop

/-- Whoever comes through has its claim on the effect accepted and its record past release. -/
theorem boundary {p : Prepared} {opts : ClaimProtocol.Options} (sound : Sound store shared entered)
    (outside : Outside pid shared entered) :
    Meets store pid (fun _ shared entered => store.applied shared.world.prepared p.preparedDigest ∧
        ClaimedBy shared.trace pid p.effectId ∧ Outside pid shared entered)
      (Pipeline.boundary host p opts) shared entered := by
  have framed : (discipline store).Framed pid (Outside pid) := outside_framed
  refine bind sound (quiet Quiet.prepare framed outside) fun _ shared entered sound holds => ?_
  refine bind sound (quiet Quiet.claimStage framed holds) fun _ shared entered sound holds => ?_
  refine bind sound (quiet Quiet.authorityStage framed holds) fun _ shared entered sound holds => ?_
  refine bind sound (quiet Quiet.guard framed holds) fun _ shared entered sound holds => ?_
  refine bind sound (claim sound framed holds) fun context shared entered sound held => ?_
  have framed := (claimedBy_framed p.effectId).and framed
  refine bind sound (quiet Quiet.beginDo framed held) fun _ shared entered sound held => ?_
  refine bind sound (applying sound framed held) fun _ shared entered sound held => ?_
  exact (pure ((applied_framed _).and framed) held).weaken fun _ _ _ held => held.2

end Meets

/-- A run of the pipeline keeps to the discipline, from any state in which its process has not
entered the effector. -/
theorem execute_safe {p : Prepared} {opts : ClaimProtocol.Options} (sound : Sound store shared entered)
    (outside : Outside pid shared entered) :
    (discipline store).Safe pid (fun _ _ _ => True) (Pipeline.execute host p opts) shared entered := by
  refine Discipline.Safe.bind sound (Meets.boundary sound outside) fun result shared entered sound held => ?_
  cases result with
  | error stop => exact .pure (fun _ _ => True) .true trivial fun _ _ _ _ => trivial
  | ok context =>
    have held := held context rfl
    have framed : (discipline store).Framed pid fun (shared : Shared Pid Op Reply (World Store)) entered =>
        store.applied shared.world.prepared p.preparedDigest ∧ ClaimedBy shared.trace pid p.effectId ∧
          Outside pid shared entered := (applied_framed _).and ((claimedBy_framed _).and outside_framed)
    refine Discipline.Safe.request _ framed.stable held ?_
    intro shared before sound ⟨past, claimed, first⟩ choice applied after _ served
    refine ⟨Function.update before pid true, ⟨first, claimed, past, rfl⟩, ?_⟩
    refine .quiet (?_ : Program.Uses Aside _) (fun _ _ shared entered aside => aside.justified pid shared entered) .const
      trivial
    dsimp only [Program.bind]
    split
    · exact Quiet.conclusion
    · trivial

end

/-! ### Every run -/

/-- Any number of runs of the pipeline, each with its own prepared effect, owner and options, next
to any other users of the two stores. However their requests interleave and wherever each of them
stops, an effect is entered once at most, its claim stays, and no record under which an effector
was entered is released. -/
theorem entered_once (store : PreparedStore Store) (world : World Store)
    (programs : Pid → Program Op Reply (Except Stop Pipeline.Outcome))
    (each : ∀ pid, (∃ host p opts, programs pid = Pipeline.execute host p opts) ∨ (programs pid).Uses Aside)
    {final : Config Pid Op Reply (World Store) (Except Stop Pipeline.Outcome)}
    (reached : (machine store).Reachable ⟨⟨world, []⟩, programs⟩ final) :
    (∀ effectId, final.shared.trace.countP (enters effectId) ≤ 1) ∧
      (∀ pid p token applied, ⟨pid, .apply p token, applied⟩ ∈ final.shared.trace →
        (final.shared.world.claims.effects p.effectId).isSome) ∧
      Unreleased final.shared.trace := by
  have none : ∀ pid effectId, ¬ ClaimedBy ([] : List (Event Pid Op Reply)) pid effectId := by
    rintro pid effectId ⟨claim, -, member⟩
    cases member
  have start : Sound store (⟨world, []⟩ : Shared Pid Op Reply (World Store)) fun _ => false := {
    free := fun effectId _ pid => none pid effectId
    sole := fun effectId first _ claimed => absurd claimed (none first effectId)
    own := fun _ _ _ _ member => absurd member List.not_mem_nil
    once := fun _ => Nat.zero_le 1
    unreleased := fun later earlier _ _ _ split => by cases later <;> cases split }
  have verified : (discipline store).Verified (fun _ _ _ _ => True) ⟨⟨world, []⟩, programs⟩ fun _ => false := by
    refine ⟨start, fun pid => ?_⟩
    rcases each pid with ⟨host, p, opts, runs⟩ | aside
    · dsimp only
      rw [runs]
      exact execute_safe start rfl
    · exact .quiet aside (fun _ _ shared entered aside => aside.justified pid shared entered) .const trivial
  obtain ⟨entered, verified⟩ := verified.reaches reached
  have sound : Sound store final.shared entered := verified.valid
  refine ⟨sound.once, fun pid p token applied member => ?_, sound.unreleased⟩
  by_contra free
  exact sound.free p.effectId (Option.not_isSome_iff_eq_none.mp free) pid (sound.own pid p token applied member).2.1

/-! ### Two runs for one effect -/

private def plain : Host where
  identity requestId effectId preparedDigest _ := .ok (requestId ++ ":" ++ effectId ++ ":" ++ preparedDigest)
  body claim := .ok claim.claimId
  mac key body := key ++ body
  chain receipt := .ok (receipt.previous ++ receipt.claimId)
  inspect _ := "#PID<0.1.0>"

private def first : Prepared := ⟨"request-1", "effect", "subject", "digest-1", .atom "change"⟩

private def second : Prepared := ⟨"request-2", "effect", "subject", "digest-2", .atom "change"⟩

private def opts : ClaimProtocol.Options :=
  { owner := .binary "owner", principal := .binary "alice", claimKey := some "0123456789abcdef" }

/-- Two runs for the effect, and a release of the first one's record. -/
private def programs : Nat → Program Op Reply (Except Stop Pipeline.Outcome)
  | 0 => Pipeline.execute plain first opts
  | 1 => Pipeline.execute plain second opts
  | _ => (do ReleaseStage.release first "claimed"; pure (.ok .nil) : Stage Pipeline.Outcome).run

private def started : Config Nat Op Reply (World (Option PreparedEffectStore.State)) (Except Stop Pipeline.Outcome) :=
  ⟨⟨⟨some {}, {}⟩, []⟩, programs⟩

/-- The first run enters the effector. Then the release is tried, and the second run goes on to its claim. -/
private def schedule : List (Nat × Choice) :=
  (List.replicate 16 0 ++ [2] ++ List.replicate 7 1).map fun pid => (pid, {})

theorem entered_once_twice_tried : ∃ final, (machine PreparedStore.memory).Reachable started final ∧
    final.shared.trace.countP (enters "effect") = 1 ∧
    (∀ effectId, final.shared.trace.countP (enters effectId) ≤ 1) ∧ Unreleased final.shared.trace := by
  have ran : (((machine PreparedStore.memory).run schedule started).map fun final =>
      final.shared.trace.countP (enters "effect")) = some 1 := by decide
  obtain ⟨final, reached, entered⟩ := Option.map_eq_some_iff.mp ran
  have reached := Machine.reachable_of_run .start reached
  have each : ∀ pid, (∃ host p opts, programs pid = Pipeline.execute host p opts) ∨ (programs pid).Uses Aside := by
    intro pid
    match pid with
    | 0 => exact .inl ⟨plain, first, opts, rfl⟩
    | 1 => exact .inl ⟨plain, second, opts, rfl⟩
    | _ + 2 => exact .inr (Quiet.bind Quiet.release fun _ => Quiet.pure)
  obtain ⟨once, -, unreleased⟩ := entered_once PreparedStore.memory ⟨some {}, {}⟩ programs each reached
  exact ⟨final, reached, entered, once, unreleased⟩

end AshA2A.ConsequenceKernel
