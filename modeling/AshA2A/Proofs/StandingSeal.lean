import AshA2A.Semantic.Standing
import AshA2A.Term
import Mathlib.Data.List.Basic
import Mathlib.Data.List.Forall2
import Mathlib.Data.List.Induction

/-! What a seal says: the payloads of the steps, and through them the standings. It does not name the
envelope. -/

namespace AshA2A.Semantic

def Envelope.HistoryEntry.edge (entry : Envelope.HistoryEntry) : Standing.State × Standing.State :=
  (entry.origin, entry.next)

namespace Standing

/-! ## Bytes that separate -/

def newline : UInt8 := 0x0a

def bar : UInt8 := 0x7c

theorem utf8_append (first second : String) : utf8 (first ++ second) = utf8 first ++ utf8 second := by
  rw [utf8, String.toList_append, List.flatMap_append]
  rfl

theorem hexDigit_bytes : ∀ value : Fin 16, ∀ byte ∈ String.utf8EncodeChar (Nat.digitChar value),
    byte ≠ newline ∧ byte ≠ 0x3a := by decide +kernel

/-- Hexadecimal digits are neither a line break nor a colon. -/
theorem hex_bytes (bytes : Bytes) : ∀ byte ∈ utf8 (Base16.encode bytes), byte ≠ newline ∧ byte ≠ 0x3a := by
  intro byte member
  obtain ⟨char, listed, coded⟩ := List.mem_flatMap.mp member
  obtain ⟨value, rfl⟩ := Base16.encode_chars char listed
  exact hexDigit_bytes value byte coded

theorem small_bytes {char : Char} (small : char.toNat < 0x61) :
    ∀ byte ∈ String.utf8EncodeChar char, byte.toNat < 0x61 := by
  have low : char.val.toNat < 0x61 := small
  unfold String.utf8EncodeChar
  simp only
  split
  · intro byte member
    cases List.mem_singleton.mp member
    rw [UInt8.toNat_ofNat', Nat.mod_eq_of_lt (show char.val.toNat < 2 ^ 8 by omega)]
    exact low
  · omega

theorem stampSigns : ∀ char ∈ ['-', 'T', ':', '.', 'Z'], char.toNat < 0x61 := by
  have each : ['-', 'T', ':', '.', 'Z'].all (fun char => char.toNat < 0x61) = true := by decide
  simpa only [List.all_eq_true, decide_eq_true_eq] using each

/-- A timestamp has neither a bar nor a small letter. -/
theorem stamp_bytes (now : Calendar.Moment) : ∀ byte ∈ utf8 (Calendar.toIso8601 now), byte.toNat < 0x61 := by
  intro byte member
  obtain ⟨char, listed, coded⟩ := List.mem_flatMap.mp member
  rw [Calendar.toIso8601, String.toList_ofList] at listed
  refine small_bytes ?_ byte coded
  obtain digit | sign := Calendar.text_chars now char listed
  · unfold Calendar.digit at digit
    split at digit
    next between => exact Nat.lt_of_le_of_lt (show char.toNat ≤ 0x39 from between.2) (by decide)
    next => cases digit
  · exact stampSigns char sign

/-- The states that the code knows. -/
def Declared (state : State) : Prop := state ∈ chain ∨ state ∈ terminal

instance (state : State) : Decidable (Declared state) := inferInstanceAs (Decidable (_ ∨ _))

theorem declared_bytes : (chain ++ terminal).all (fun state =>
    (utf8 state).all (fun byte => byte ≠ bar) && (utf8 state).any fun byte => 0x61 ≤ byte.toNat) = true := by
  decide

theorem Declared.bytes {state : State} (declared : Declared state) :
    bar ∉ utf8 state ∧ ∃ byte ∈ utf8 state, 0x61 ≤ byte.toNat := by
  have both := List.all_eq_true.mp declared_bytes state (List.mem_append.mpr declared)
  simp only [Bool.and_eq_true, List.all_eq_true, List.any_eq_true, decide_eq_true_eq] at both
  exact ⟨fun member => both.1 bar member rfl, both.2⟩

/-- No timestamp is the name of a state. -/
theorem stamp_ne_declared (now : Calendar.Moment) {state : State} (declared : Declared state) :
    utf8 (Calendar.toIso8601 now) ≠ utf8 state := by
  intro same
  obtain ⟨byte, member, large⟩ := declared.bytes.2
  rw [← same] at member
  exact Nat.not_le.mpr (stamp_bytes now byte member) large

theorem bar_not_mem_stamp (now : Calendar.Moment) : bar ∉ utf8 (Calendar.toIso8601 now) := by
  intro member
  have small := stamp_bytes now bar member
  exact absurd small (by decide)

/-! ## The chain of tags -/

section Tag

variable (runtime : Runtime)

def tag (payloads : List Bytes) : Bytes := payloads.foldl (sealStep runtime) ledgerGenesis

def message (before : List Bytes) (payload : Bytes) : Bytes := tag runtime before ++ newline :: payload

theorem tag_snoc (before : List Bytes) (payload : Bytes) :
    tag runtime (before ++ [payload]) = utf8 (Base16.encode (runtime.mac (message runtime before payload))) := by
  rw [tag, List.foldl_append]
  show utf8 (Base16.encode (runtime.mac (_ ++ utf8 "\n" ++ payload))) = _
  rw [List.append_assoc]
  rfl

theorem newline_not_mem_tag (payloads : List Bytes) : newline ∉ tag runtime payloads := by
  induction payloads using List.reverseRecOn with
  | nil =>
    show newline ∉ ledgerGenesis
    decide
  | append_singleton before payload _ =>
    rw [tag_snoc]
    exact fun member => (hex_bytes _ _ member).1 rfl

theorem hex_injective : Function.Injective fun bytes : Bytes => utf8 (Base16.encode bytes) := by
  intro first second same
  have decoded := congrArg Base16.decode (utf8_injective same)
  rw [Base16.decode_encode, Base16.decode_encode] at decoded
  exact Option.some.inj decoded

variable {runtime} (macInjective : Function.Injective runtime.mac)

theorem message_inj {before other : List Bytes} {payload second : Bytes}
    (same : message runtime before payload = message runtime other second) :
    tag runtime before = tag runtime other ∧ payload = second := by
  exact split_unique (newline_not_mem_tag runtime before) (newline_not_mem_tag runtime other) same

theorem genesis_ne_tag (before : List Bytes) (payload : Bytes) : tag runtime [] ≠ tag runtime (before ++ [payload]) := by
  intro same
  have colon : (0x3a : UInt8) ∈ tag runtime [] := by
    show (0x3a : UInt8) ∈ ledgerGenesis
    decide +kernel
  rw [same, tag_snoc] at colon
  exact (hex_bytes _ _ colon).2 rfl

include macInjective in
/-- Equal tags seal equal payloads, step by step. -/
theorem tag_injective : Function.Injective (tag runtime) := by
  intro payloads
  induction payloads using List.reverseRecOn with
  | nil =>
    intro others same
    induction others using List.reverseRecOn with
    | nil => rfl
    | append_singleton before payload _ => exact absurd same (genesis_ne_tag before payload)
  | append_singleton before payload ih =>
    intro others same
    induction others using List.reverseRecOn with
    | nil => exact absurd same.symm (genesis_ne_tag before payload)
    | append_singleton other second _ =>
      rw [tag_snoc, tag_snoc] at same
      obtain ⟨tags, payloads⟩ := message_inj (macInjective (hex_injective same))
      rw [ih tags, payloads]

end Tag

/-! ## The path a payload spells -/

section Path

/-- The payload of a step that the code took: declared states and a timestamp, whatever follows. -/
def Spells (edge : State × State) (payload : Bytes) : Prop :=
  Declared edge.1 ∧ Declared edge.2 ∧ ∃ now rest,
    payload = utf8 edge.1 ++ bar :: (utf8 edge.2 ++ bar :: (utf8 (Calendar.toIso8601 now) ++ bar :: rest))

/-- Each step starts where the one before it ended. -/
def Contiguous : State → List (State × State) → Prop
  | _, [] => True
  | current, edge :: edges => edge.1 = current ∧ Contiguous edge.2 edges

variable {runtime : Runtime}

theorem payload_eq {entry : Envelope.HistoryEntry} {payload : Bytes} (given : entryPayload runtime entry = some payload) :
    ∃ rest, payload = utf8 entry.origin ++ bar :: (utf8 entry.next ++ bar :: (entry.stamp ++ bar :: rest)) := by
  unfold entryPayload at given
  obtain ⟨keys, _, built⟩ := Option.bind_eq_some_iff.mp given
  refine ⟨join (utf8 ",") (keys.map bytesOf) ++ bar :: entry.evidenceDigest, ?_⟩
  rw [← Option.some.inj built]
  simp only [join, List.append_assoc]
  rfl

/-- Up to the separator, two texts that go on alike are alike. -/
theorem head_unique {separator : UInt8} {shared first second a b c d : Bytes} (free : separator ∉ first)
    (otherFree : separator ∉ second) (left : shared ++ separator :: a = first ++ separator :: b)
    (right : shared ++ separator :: c = second ++ separator :: d) : first = second := by
  have upTo (bytes rest : Bytes) (free : separator ∉ bytes) :
      (bytes ++ separator :: rest).takeWhile (· ≠ separator) = bytes := by
    have all (byte : UInt8) (member : byte ∈ bytes) : decide (byte ≠ separator) = true :=
      decide_eq_true fun same => free (by rw [← same]; exact member)
    rw [List.takeWhile_append_of_pos all]
    simp
  have agree (a c : Bytes) : (shared ++ separator :: a).takeWhile (· ≠ separator) =
      (shared ++ separator :: c).takeWhile (· ≠ separator) := by
    rw [List.takeWhile_append, List.takeWhile_append]
    simp
  rw [← upTo first b free, ← upTo second d otherFree, ← left, ← right, agree a c]

/-- The name of a state that is gone on from has no bar: what follows would be the timestamp of its own
step and the name of a state in the next. -/
theorem bar_not_mem_next {step second : Envelope.HistoryEntry} {next after : State} {now : Calendar.Moment}
    {payload tail more : Bytes} (known : Declared next)
    (tails : utf8 next ++ bar :: (utf8 (Calendar.toIso8601 now) ++ bar :: tail) = utf8 step.next ++ bar :: more)
    (goes : second.origin = step.next) (written : entryPayload runtime second = some payload)
    (spells : Spells (next, after) payload) : bar ∉ utf8 step.next := by
  intro member
  obtain ⟨name, extra, split, free⟩ := List.eq_append_cons_of_mem member
  rw [split, List.append_assoc, List.cons_append] at tails
  obtain ⟨rfl, own⟩ := split_unique known.bytes.1 free tails
  obtain ⟨_, afterKnown, later, rest, spelled⟩ := spells
  obtain ⟨rest', written'⟩ := payload_eq written
  rw [spelled, goes, split, List.append_assoc, List.cons_append] at written'
  have others := (List.cons.inj (List.append_cancel_left written')).2
  exact stamp_ne_declared now afterKnown
    (head_unique (bar_not_mem_stamp now) afterKnown.bytes.1 own.symm others.symm)

/-- Steps with the payloads of a lawful path go the same way, where they end in a declared state. -/
theorem path_unique {current : State} {steps : List Envelope.HistoryEntry} {edges : List (State × State)}
    {payloads : List Bytes} (contiguous : Contiguous current (steps.map Envelope.HistoryEntry.edge))
    (others : Contiguous current edges) (written : steps.mapM (entryPayload runtime) = some payloads)
    (spelled : List.Forall₂ Spells edges payloads) (declared : ∀ last ∈ steps.getLast?, Declared last.next) :
    steps.map Envelope.HistoryEntry.edge = edges := by
  induction steps generalizing current edges payloads with
  | nil =>
    cases written
    cases spelled
    rfl
  | cons step steps ih =>
    rw [List.mapM_cons] at written
    obtain ⟨payload, first, written⟩ := Option.bind_eq_some_iff.mp written
    obtain ⟨rest, later, written⟩ := Option.bind_eq_some_iff.mp written
    cases Option.some.inj written
    cases spelled with
    | @cons edge _ edges _ spells spelled =>
    obtain ⟨starts, contiguous⟩ := contiguous
    obtain ⟨otherStarts, others⟩ := others
    obtain ⟨origin, next⟩ := edge
    obtain ⟨_, known, now, tail, payloadEq⟩ := spells
    obtain ⟨more, payloadEq'⟩ := payload_eq first
    have origins : step.origin = origin := starts.trans otherStarts.symm
    rw [payloadEq, ← origins] at payloadEq'
    have tails := (List.cons.inj (List.append_cancel_left payloadEq')).2
    have free : bar ∉ utf8 step.next := by
      cases steps with
      | nil => exact (declared step rfl).bytes.1
      | cons second steps =>
        have written := later
        rw [List.mapM_cons] at written
        obtain ⟨payload, secondWritten, written⟩ := Option.bind_eq_some_iff.mp written
        obtain ⟨_, _, written⟩ := Option.bind_eq_some_iff.mp written
        cases Option.some.inj written
        cases spelled with
        | @cons other _ others' _ spells _ =>
        obtain ⟨origin', after⟩ := other
        cases (others.1 : origin' = next)
        exact bar_not_mem_next known tails contiguous.1 secondWritten spells
    have nexts : step.next = next := utf8_injective (split_unique free known.bytes.1 tails.symm).1
    refine List.cons_eq_cons.mpr ⟨Prod.ext origins nexts, ?_⟩
    have restDeclared : ∀ last ∈ steps.getLast?, Declared last.next := by
      intro last ends
      cases steps with
      | nil => cases ends
      | cons second steps => exact declared last (by rw [List.getLast?_cons_cons]; exact ends)
    rw [show next = step.next from nexts.symm] at others
    exact ih contiguous others later spelled restDeclared

theorem Contiguous.take {current : State} {edges : List (State × State)} (contiguous : Contiguous current edges)
    (count : Nat) : Contiguous current (edges.take count) := by
  induction edges generalizing current count with
  | nil => rw [List.take_nil]; trivial
  | cons edge edges ih =>
    cases count with
    | zero => trivial
    | succ count => exact ⟨contiguous.1, ih contiguous.2 count⟩

theorem Contiguous.snoc {current : State} {edges : List (State × State)} (contiguous : Contiguous current edges)
    {origin next : State} (goes : ((edges.getLast?.map Prod.snd).getD current) = origin) :
    Contiguous current (edges ++ [(origin, next)]) := by
  induction edges generalizing current with
  | nil => exact ⟨goes.symm, trivial⟩
  | cons edge edges ih =>
    refine ⟨contiguous.1, ih contiguous.2 ?_⟩
    cases edges with
    | nil => exact goes
    | cons second edges =>
      rw [List.getLast?_cons_cons] at goes
      rw [← goes]
      cases ends : (second :: edges).getLast? with
      | none => cases List.getLast?_eq_none_iff.mp ends
      | some last => rfl

theorem contiguous_of_origins {current : State} {steps : List Envelope.HistoryEntry}
    (same : (current :: steps.map fun entry => entry.next).dropLast = steps.map fun entry => entry.origin) :
    Contiguous current (steps.map Envelope.HistoryEntry.edge) := by
  induction steps generalizing current with
  | nil => trivial
  | cons step steps ih =>
    rw [List.map_cons, List.map_cons, List.dropLast_cons_cons, List.cons.injEq] at same
    exact ⟨same.1.symm, ih same.2⟩

end Path

/-! ## What is accepted -/

section Accepted

variable {runtime : Runtime} {envelope : Envelope}

def sealed (runtime : Runtime) (payloads : List Bytes) : Bytes := utf8 "hmac-sha256:" ++ tag runtime payloads

/-- An envelope with steps, as the ledger check accepts it. -/
structure Carries (runtime : Runtime) (envelope : Envelope) (steps : List Envelope.HistoryEntry)
    (payloads : List Bytes) : Prop where
  history : envelope.standingHistory = .entries steps
  written : steps.mapM (entryPayload runtime) = some payloads
  stamped : envelope.standingSeal = some (sealed runtime payloads)
  contiguous : Contiguous "candidate" (steps.map Envelope.HistoryEntry.edge)
  standing : ∃ last, steps.getLast? = some last ∧ envelope.standing = last.next

theorem sealChain_eq {steps : List Envelope.HistoryEntry} {payloads : List Bytes}
    (written : steps.mapM (entryPayload runtime) = some payloads) : sealChain runtime steps = some (sealed runtime payloads) := by
  unfold sealChain
  rw [written]
  rfl

/-- The genesis, or a contiguous history that is sealed and ends at the standing. -/
theorem verifyLedger_ok {next : State} (accepted : verifyLedger runtime envelope next = .ok ()) :
    (envelope.standing = "candidate" ∧ envelope.standingHistory = .entries [] ∧ envelope.standingSeal = none) ∨
      ∃ steps payloads, Carries runtime envelope steps payloads := by
  unfold verifyLedger at accepted
  split at accepted
  · cases accepted
  next history =>
    split at accepted
    next genesis => exact .inl ⟨genesis.1, history, genesis.2⟩
    · cases accepted
  · cases accepted
  next first rest history =>
    right
    obtain ⟨_, contiguous, accepted⟩ := bind_ok_iff.mp accepted
    obtain ⟨_, matches', accepted⟩ := bind_ok_iff.mp accepted
    unfold verifyChainContiguous at contiguous
    unfold verifyStandingMatchesLedger at matches'
    dsimp only at contiguous matches'
    split at contiguous
    · split at matches'
      · next same standing =>
        unfold verifySeal at accepted
        dsimp only at accepted
        split at accepted
        · cases accepted
        next claimed presented =>
          split at accepted
          · cases accepted
          next computed sealing =>
            split at accepted
            next agrees =>
              unfold sealChain at sealing
              obtain ⟨payloads, written, tagged⟩ := Option.bind_eq_some_iff.mp sealing
              refine ⟨first :: rest, payloads, history, written, ?_, contiguous_of_origins same,
                rest.getLastD first, by rw [List.getLast?_cons, List.getLastD_eq_getLast?], standing⟩
              rw [presented, agrees, ← Option.some.inj tagged]
              rfl
            · cases accepted
      · cases matches'
    · cases contiguous

/-- A step to a state that the code knows, taken by an envelope whose ledger is accepted. -/
theorem transition_extends {next evidence : Evidence} {now : Calendar.Moment} {result : Envelope}
    (taken : transition runtime envelope next evidence now = .ok result) :
    ∃ state shown, Declared state ∧ verifyLedger runtime envelope state = .ok () ∧
      extendSeal runtime envelope envelope.standing state shown now = .ok result := by
  unfold transition at taken
  split at taken
  next state =>
    split at taken
    · obtain ⟨_, accepted, taken⟩ := bind_ok_iff.mp taken
      split at taken
      · cases taken
      split at taken
      next ended =>
        obtain ⟨refusal, _, taken⟩ := bind_ok_iff.mp taken
        obtain ⟨_, _, taken⟩ := bind_ok_iff.mp taken
        exact ⟨state, _, .inr ended, accepted, taken⟩
      split at taken
      next living =>
        obtain ⟨_, _, taken⟩ := bind_ok_iff.mp taken
        obtain ⟨_, _, taken⟩ := bind_ok_iff.mp taken
        obtain ⟨_, _, taken⟩ := bind_ok_iff.mp taken
        exact ⟨state, evidence, .inl living, accepted, taken⟩
      · unfold refuse at taken
        cases taken
    · cases taken
  · cases taken

theorem extendSeal_ok {next : State} {evidence : Evidence} {now : Calendar.Moment} {result : Envelope}
    (extended : extendSeal runtime envelope envelope.standing next evidence now = .ok result) :
    ∃ entry steps payloads, entry.edge = (envelope.standing, next) ∧ entry.stamp = utf8 (Calendar.toIso8601 now) ∧
      steps = envelope.standingHistory.steps ++ [entry] ∧ steps.mapM (entryPayload runtime) = some payloads ∧
        result = { envelope with
          standing := next, standingHistory := .entries steps, standingSeal := some (sealed runtime payloads) } := by
  unfold extendSeal at extended
  dsimp only at extended
  cases made : historyEntry runtime envelope.standing next evidence now with
  | none => rw [made] at extended; cases extended
  | some entry =>
    rw [made] at extended
    have fields : entry.edge = (envelope.standing, next) ∧ entry.stamp = utf8 (Calendar.toIso8601 now) := by
      unfold historyEntry at made
      obtain ⟨keys, _, made⟩ := Option.bind_eq_some_iff.mp made
      obtain ⟨digest, _, made⟩ := Option.bind_eq_some_iff.mp made
      cases Option.some.inj made
      exact ⟨rfl, rfl⟩
    cases sealing : sealChain runtime (envelope.standingHistory.steps ++ [entry]) with
    | none => simp [sealing] at extended
    | some claimed =>
      simp only [sealing, Option.bind_eq_bind, Option.bind_some, Option.pure_def, Option.map_some, Option.getD_some,
        Except.ok.injEq] at extended
      obtain ⟨payloads, written, tagged⟩ := Option.bind_eq_some_iff.mp sealing
      refine ⟨entry, _, payloads, fields.1, fields.2, rfl, written, ?_⟩
      rw [← extended, ← Option.some.inj tagged]
      rfl

/-- The ledger check looks at nothing that the envelope says. -/
theorem verifyLedger_relabel (subject : Envelope.Subject) (next : State) :
    verifyLedger runtime { envelope with subject } next = verifyLedger runtime envelope next := rfl

theorem origins_of_contiguous {current : State} {steps : List Envelope.HistoryEntry}
    (contiguous : Contiguous current (steps.map Envelope.HistoryEntry.edge)) :
    (current :: steps.map fun entry => entry.next).dropLast = steps.map fun entry => entry.origin := by
  induction steps generalizing current with
  | nil => rfl
  | cons step steps ih =>
    have rest := ih contiguous.2
    rw [List.map_cons, List.map_cons, List.dropLast_cons_cons, show step.next = step.edge.2 from rfl, rest]
    exact congrArg (· :: _) contiguous.1.symm

/-- The check accepts what carries a sealed history. -/
theorem Carries.accepted {steps : List Envelope.HistoryEntry} {payloads : List Bytes}
    (carries : Carries runtime envelope steps payloads) (next : State) : verifyLedger runtime envelope next = .ok () := by
  obtain ⟨last, ends, standing⟩ := carries.standing
  cases steps with
  | nil => cases ends
  | cons step steps =>
    rw [List.getLast?_cons, Option.some.injEq, ← List.getLastD_eq_getLast?] at ends
    unfold verifyLedger
    rw [carries.history]
    dsimp only
    unfold verifyChainContiguous verifyStandingMatchesLedger verifySeal
    rw [ends, if_pos standing, carries.stamped, sealChain_eq carries.written]
    dsimp only
    rw [if_pos (origins_of_contiguous carries.contiguous), if_pos rfl]
    rfl

end Accepted

/-! ## Runs -/

/-- The messages whose tags are computed to seal the payloads. -/
def messages (runtime : Runtime) (payloads : List Bytes) : List Bytes :=
  payloads.mapIdx fun index payload => message runtime (payloads.take index) payload

/-- A seal that is the tag of a message was computed for it, to seal an envelope of the log. -/
def Unforgeable (runtime : Runtime) (log : List Envelope) (envelope : Envelope) : Prop :=
  ∀ before payload, envelope.standingSeal = some (sealed runtime (before ++ [payload])) →
    ∃ issued ∈ log, ∃ payloads, issued.standingHistory.steps.mapM (entryPayload runtime) = some payloads ∧
      message runtime before payload ∈ messages runtime payloads

/-- The seal was not issued for another envelope, and the standing is one that the code knows. -/
structure Own (log : List Envelope) (envelope : Envelope) : Prop where
  issued : ∀ other ∈ log, other.standingSeal = envelope.standingSeal → other.subject = envelope.subject
  declared : Declared envelope.standing

/-- Transitions are asked for any envelopes; the log has what they returned. -/
inductive Sealed (runtime : Runtime) : List Envelope → Prop where
  | empty : Sealed runtime []
  | step {log : List Envelope} {envelope result : Envelope} {next evidence : Evidence} {now : Calendar.Moment}
      (before : Sealed runtime log) (unforged : Unforgeable runtime log envelope) (own : Own log envelope)
      (taken : transition runtime envelope next evidence now = .ok result) : Sealed runtime (log ++ [result])

def edgesOf (envelope : Envelope) : List (State × State) := envelope.standingHistory.steps.map Envelope.HistoryEntry.edge

/-- The envelope itself went where it stands, step by step. -/
def Travelled (log : List Envelope) (envelope : Envelope) : Prop :=
  (envelope.standing = "candidate" ∧ edgesOf envelope = []) ∨
    (∃ issued ∈ log, issued.subject = envelope.subject ∧ issued.standing = envelope.standing ∧
      edgesOf issued = edgesOf envelope) ∧
    ∀ count, 0 < count → count ≤ (edgesOf envelope).length →
      ∃ issued ∈ log, issued.subject = envelope.subject ∧ edgesOf issued = (edgesOf envelope).take count

/-- What is known of an envelope of the log. -/
structure Recorded (runtime : Runtime) (log : List Envelope) (envelope : Envelope)
    (steps : List Envelope.HistoryEntry) (payloads : List Bytes) : Prop extends
    Carries runtime envelope steps payloads where
  spelled : List.Forall₂ Spells (steps.map Envelope.HistoryEntry.edge) payloads
  earlier : ∀ count, 0 < count → count ≤ payloads.length →
    ∃ issued ∈ log, issued.subject = envelope.subject ∧ issued.standingSeal = some (sealed runtime (payloads.take count))

section Run

variable {runtime : Runtime} {log : List Envelope} {envelope : Envelope}

theorem sealed_injective (macInjective : Function.Injective runtime.mac) : Function.Injective (sealed runtime) :=
  fun _ _ same => tag_injective macInjective (List.append_cancel_left same)

theorem Recorded.grows {steps : List Envelope.HistoryEntry} {payloads : List Bytes}
    (recorded : Recorded runtime log envelope steps payloads) (more : List Envelope) :
    Recorded runtime (log ++ more) envelope steps payloads := by
  refine ⟨recorded.toCarries, recorded.spelled, fun count positive within => ?_⟩
  obtain ⟨issued, member, facts⟩ := recorded.earlier count positive within
  exact ⟨issued, List.mem_append_left _ member, facts⟩

/-- The last step of a recorded envelope ends in a state that the code knows. -/
theorem Recorded.declared {steps : List Envelope.HistoryEntry} {payloads : List Bytes}
    (recorded : Recorded runtime log envelope steps payloads) : ∀ last ∈ steps.getLast?, Declared last.next := by
  intro last ends
  have listed : last.edge ∈ steps.map Envelope.HistoryEntry.edge :=
    List.mem_map_of_mem (List.mem_of_getLast? ends)
  have all := List.forall₂_iff_get.mp recorded.spelled
  obtain ⟨index, within, same⟩ := List.getElem_of_mem listed
  have spells := all.2 index within (all.1 ▸ within)
  rw [List.get_eq_getElem, same] at spells
  exact spells.2.1

theorem no_steps {steps : List Envelope.HistoryEntry} (written : steps.mapM (entryPayload runtime) = some []) :
    steps = [] := by
  cases steps with
  | nil => rfl
  | cons step steps =>
    rw [List.mapM_cons] at written
    obtain ⟨_, _, written⟩ := Option.bind_eq_some_iff.mp written
    obtain ⟨_, _, written⟩ := Option.bind_eq_some_iff.mp written
    cases written

/-- Where the log is recorded, an accepted envelope with steps has them from envelopes of its own. -/
theorem accepted_recorded (macInjective : Function.Injective runtime.mac)
    (known : ∀ issued ∈ log, ∃ steps payloads, Recorded runtime log issued steps payloads)
    (unforged : Unforgeable runtime log envelope) (own : Own log envelope) {steps : List Envelope.HistoryEntry}
    {payloads : List Bytes} (carries : Carries runtime envelope steps payloads) :
    Recorded runtime log envelope steps payloads ∧
      ∃ issued ∈ log, issued.subject = envelope.subject ∧ issued.standing = envelope.standing ∧
        edgesOf issued = edgesOf envelope := by
  obtain ⟨last, ends, standing⟩ := carries.standing
  obtain ⟨before, payload, rfl⟩ : ∃ before payload, payloads = before ++ [payload] := by
    refine List.eq_nil_or_concat' payloads |>.resolve_left fun none => ?_
    have written := carries.written
    rw [none] at written
    rw [no_steps written] at ends
    cases ends
  obtain ⟨other, member, others, otherWritten, hashed⟩ := unforged before payload carries.stamped
  obtain ⟨otherSteps, otherPayloads, otherRecorded⟩ := known other member
  have same : others = otherPayloads := by
    rw [otherRecorded.history] at otherWritten
    exact Option.some.inj (otherWritten.symm.trans otherRecorded.written)
  subst same
  obtain ⟨index, within, hashed⟩ := List.getElem_of_mem hashed
  rw [messages, List.length_mapIdx] at within
  have split : others.take (index + 1) = before ++ [payload] := by
    simp only [messages, List.getElem_mapIdx] at hashed
    obtain ⟨tags, rfl⟩ := message_inj hashed
    rw [← tag_injective macInjective tags, List.take_append_getElem within]
  obtain ⟨issued, listed, _, stamp⟩ := otherRecorded.earlier (index + 1) (Nat.succ_pos _) within
  rw [split, ← carries.stamped] at stamp
  have subject := own.issued issued listed stamp
  obtain ⟨ownSteps, ownPayloads, recorded⟩ := known issued listed
  have payloadsEq : ownPayloads = before ++ [payload] := by
    have seals := recorded.stamped.symm.trans (stamp.trans carries.stamped)
    exact sealed_injective macInjective (Option.some.inj seals)
  subst payloadsEq
  have edges := path_unique carries.contiguous recorded.contiguous carries.written recorded.spelled (by
    intro final ends'
    cases ends.symm.trans ends'
    exact standing ▸ own.declared)
  refine ⟨⟨carries, edges ▸ recorded.spelled, ?_⟩, issued, listed, subject, ?_, ?_⟩
  · rw [← subject]
    exact recorded.earlier
  · obtain ⟨ownLast, ownEnds, ownStanding⟩ := recorded.standing
    have lasts := congrArg List.getLast? edges
    rw [List.getLast?_map, List.getLast?_map, ends, ownEnds] at lasts
    rw [ownStanding, standing]
    exact (Prod.ext_iff.mp (Option.some.inj lasts)).2.symm
  · rw [edgesOf, edgesOf, recorded.history, carries.history]
    exact edges.symm

/-- A step of a recorded envelope, or the first one, is recorded. -/
theorem extended_recorded {current : State} {steps : List Envelope.HistoryEntry} {payloads : List Bytes}
    {entry : Envelope.HistoryEntry} {payload : Bytes} {result : Envelope} {now : Calendar.Moment}
    (spelled : List.Forall₂ Spells (steps.map Envelope.HistoryEntry.edge) payloads)
    (contiguous : Contiguous "candidate" (steps.map Envelope.HistoryEntry.edge))
    (written : steps.mapM (entryPayload runtime) = some payloads)
    (earlier : ∀ count, 0 < count → count ≤ payloads.length → ∃ issued ∈ log,
      issued.subject = result.subject ∧ issued.standingSeal = some (sealed runtime (payloads.take count)))
    (goes : (((steps.map Envelope.HistoryEntry.edge).getLast?.map Prod.snd).getD "candidate") = current)
    (edge : entry.edge = (current, result.standing)) (stamp : entry.stamp = utf8 (Calendar.toIso8601 now))
    (declared : Declared current ∧ Declared result.standing) (last : entryPayload runtime entry = some payload)
    (history : result.standingHistory = .entries (steps ++ [entry]))
    (stamped : result.standingSeal = some (sealed runtime (payloads ++ [payload]))) :
    Recorded runtime (log ++ [result]) result (steps ++ [entry]) (payloads ++ [payload]) := by
  have spells : Spells entry.edge payload := by
    obtain ⟨rest, same⟩ := payload_eq last
    rw [edge]
    refine ⟨declared.1, declared.2, now, rest, ?_⟩
    rw [same, stamp]
    have fields := Prod.ext_iff.mp edge
    rw [show entry.origin = current from fields.1, show entry.next = result.standing from fields.2]
  refine ⟨⟨history, ?_, stamped, ?_, entry, List.getLast?_concat .., (Prod.ext_iff.mp edge).2.symm⟩, ?_, ?_⟩
  · rw [List.mapM_append, written, List.mapM_cons, last]
    rfl
  · rw [List.map_append, List.map_singleton, edge]
    exact contiguous.snoc goes
  · rw [List.map_append, List.map_singleton]
    exact List.rel_append spelled (.cons spells .nil)
  · intro count positive within
    by_cases inside : count ≤ payloads.length
    · obtain ⟨issued, member, subject, issuedStamp⟩ := earlier count positive inside
      refine ⟨issued, List.mem_append_left _ member, subject, ?_⟩
      rw [issuedStamp, List.take_append_of_le_length inside]
    · refine ⟨result, List.mem_append_right _ (List.mem_singleton.mpr rfl), rfl, ?_⟩
      rw [List.length_append, List.length_singleton] at within
      rw [stamped, List.take_of_length_le (by rw [List.length_append, List.length_singleton]; omega)]

/-- Every envelope of the log is recorded. -/
theorem Sealed.recorded (macInjective : Function.Injective runtime.mac) (run : Sealed runtime log) :
    ∀ issued ∈ log, ∃ steps payloads, Recorded runtime log issued steps payloads := by
  induction run with
  | empty => exact fun _ member => absurd member List.not_mem_nil
  | @step log envelope result next evidence now _ unforged own taken ih =>
    obtain ⟨state, shown, declared, accepted, extended⟩ := transition_extends taken
    obtain ⟨entry, _, _, edge, stamp, rfl, written, rfl⟩ := extendSeal_ok extended
    refine List.forall_mem_append.mpr ⟨fun issued member => ?_, List.forall_mem_singleton.mpr ?_⟩
    · obtain ⟨steps, payloads, recorded⟩ := ih issued member
      exact ⟨steps, payloads, recorded.grows _⟩
    · rw [List.mapM_append] at written
      obtain ⟨payloads, before, written⟩ := Option.bind_eq_some_iff.mp written
      obtain ⟨_, single, written⟩ := Option.bind_eq_some_iff.mp written
      rw [List.mapM_cons] at single
      obtain ⟨payload, last, rest⟩ := Option.bind_eq_some_iff.mp single
      cases Option.some.inj rest
      cases Option.some.inj written
      obtain ⟨standing, history, _⟩ | ⟨steps, others, carries⟩ := verifyLedger_ok accepted
      · rw [history] at before ⊢
        cases before
        have spelled : List.Forall₂ Spells (([] : List Envelope.HistoryEntry).map Envelope.HistoryEntry.edge) [] := .nil
        exact ⟨_, _, extended_recorded spelled trivial rfl
          (fun _ positive within => absurd within (Nat.not_le.mpr positive)) standing.symm edge stamp
          ⟨own.declared, declared⟩ last rfl rfl⟩
      · obtain ⟨recorded, _⟩ := accepted_recorded macInjective ih unforged own carries
        have history : envelope.standingHistory.steps = steps := by rw [carries.history]; rfl
        rw [history] at before ⊢
        cases Option.some.inj (carries.written.symm.trans before)
        obtain ⟨final, ends, standing⟩ := carries.standing
        refine ⟨_, _, extended_recorded recorded.spelled carries.contiguous before recorded.earlier ?_ edge stamp
          ⟨own.declared, declared⟩ last rfl rfl⟩
        rw [List.getLast?_map, ends, standing]
        rfl

/-- In every run in which no envelope presents a seal that was issued for another one, an envelope that
is accepted at a standing went there itself. -/
theorem standing_travelled (macInjective : Function.Injective runtime.mac) (run : Sealed runtime log)
    (unforged : Unforgeable runtime log envelope) (own : Own log envelope) {next : State}
    (accepted : verifyLedger runtime envelope next = .ok ()) : Travelled log envelope := by
  have known := run.recorded macInjective
  obtain ⟨standing, history, _⟩ | ⟨steps, payloads, carries⟩ := verifyLedger_ok accepted
  · exact .inl ⟨standing, by rw [edgesOf, history]; rfl⟩
  · obtain ⟨recorded, issued⟩ := accepted_recorded macInjective known unforged own carries
    refine .inr ⟨issued, fun count positive within => ?_⟩
    have edges : edgesOf envelope = steps.map Envelope.HistoryEntry.edge := by rw [edgesOf, carries.history]; rfl
    rw [edges] at within ⊢
    rw [List.Forall₂.length_eq recorded.spelled] at within
    obtain ⟨other, member, subject, stamp⟩ := recorded.earlier count positive within
    obtain ⟨otherSteps, otherPayloads, otherRecorded⟩ := known other member
    have same := sealed_injective macInjective (Option.some.inj (otherRecorded.stamped.symm.trans stamp))
    refine ⟨other, member, subject, ?_⟩
    rw [edgesOf, otherRecorded.history]
    exact path_unique otherRecorded.contiguous (carries.contiguous.take count) otherRecorded.written
      (same ▸ List.forall₂_take count recorded.spelled) otherRecorded.declared

/-- Whoever presents a seal of the log has it from there. -/
theorem Carries.unforgeable (macInjective : Function.Injective runtime.mac) {issued : Envelope}
    {steps : List Envelope.HistoryEntry} {payloads : List Bytes} (carries : Carries runtime issued steps payloads)
    (member : issued ∈ log) (same : envelope.standingSeal = issued.standingSeal) : Unforgeable runtime log envelope := by
  intro before payload stamp
  have split : payloads = before ++ [payload] :=
    sealed_injective macInjective (Option.some.inj ((carries.stamped.symm.trans same.symm).trans stamp))
  refine ⟨issued, member, payloads, by rw [carries.history]; exact carries.written, ?_⟩
  rw [split, messages]
  refine List.mem_iff_getElem.mpr ⟨before.length, by simp, ?_⟩
  simp

end Run

/-! ## An envelope that arrived -/

/-- A keyed hash that is its own message. -/
def plain : Runtime := ⟨id, fun _ => [], ⟨fun _ => "", fun _ => "", fun _ => none⟩⟩

def first : Envelope := { subject := { envelopeId := .text "urn:uuid:1", kind := .text "sa2a:Request" } }

def received : Envelope :=
  (transition plain first (.atom "received") (.record [("transport", .text "https"), ("received_at", .text "t")])
    ⟨2026, 9, 16, 8, 0, 0, 0, 0⟩).toOption.getD first

/-- Another envelope, with the standing, the history and the seal of the first. -/
def relabelled : Envelope := { received with subject := { first.subject with envelopeId := .text "urn:uuid:2" } }

theorem received_taken : transition plain first (.atom "received")
    (.record [("transport", .text "https"), ("received_at", .text "t")]) ⟨2026, 9, 16, 8, 0, 0, 0, 0⟩ = .ok received :=
  rfl

theorem received_sealed : Sealed plain [received] := by
  have unstamped : first.standingSeal = none := rfl
  refine .step .empty (fun _ _ stamp => ?_) ⟨fun _ member => absurd member List.not_mem_nil, by decide⟩ received_taken
  rw [unstamped] at stamp
  cases stamp

theorem received_carries : ∃ steps payloads, Carries plain received steps payloads := by
  obtain ⟨steps, payloads, recorded⟩ :=
    received_sealed.recorded Function.injective_id received (List.mem_singleton.mpr rfl)
  exact ⟨steps, payloads, recorded.toCarries⟩

theorem received_unforged {envelope : Envelope} (same : envelope.standingSeal = received.standingSeal) :
    Unforgeable plain [received] envelope := by
  obtain ⟨_, _, carries⟩ := received_carries
  exact carries.unforgeable Function.injective_id (List.mem_singleton.mpr rfl) same

theorem received_accepted : verifyLedger plain received "parsed" = .ok () := by
  obtain ⟨_, _, carries⟩ := received_carries
  exact carries.accepted _

theorem received_travelled : Travelled [received] received :=
  standing_travelled Function.injective_id received_sealed (received_unforged rfl)
    ⟨fun _ member _ => by rw [List.mem_singleton.mp member], by decide⟩ received_accepted

/-- The other envelope is accepted where only the first one went. -/
theorem grafted_accepted :
    Sealed plain [received] ∧ Unforgeable plain [received] relabelled ∧ relabelled.standing = "received" ∧
      verifyLedger plain relabelled "parsed" = .ok () ∧ ¬ Travelled [received] relabelled := by
  refine ⟨received_sealed, received_unforged rfl, rfl, (verifyLedger_relabel _ _).trans received_accepted, ?_⟩
  rintro (⟨standing, _⟩ | ⟨⟨issued, member, subject, _⟩, _⟩)
  · exact absurd standing (by decide)
  · rw [List.mem_singleton.mp member] at subject
    have ids : Evidence.text "urn:uuid:1" = .text "urn:uuid:2" := congrArg Envelope.Subject.envelopeId subject
    exact absurd (Evidence.text.inj ids) (by decide)

end Standing

end AshA2A.Semantic
