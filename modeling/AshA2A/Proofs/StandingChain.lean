import AshA2A.Outcome
import AshA2A.Proofs.StandingLedger
import AshA2A.Proofs.StandingScan
import AshA2A.Proofs.StandingSeal

/-! A run of transitions: the chain, one evidenced step at a time, ended by at most one terminal state. -/

namespace AshA2A.Semantic.Standing

/-! ## The evidence of a step -/

section Evidence

/-- What the evidence of a step has to have. -/
def requiredKeys (state : State) : List String :=
  (List.lookup state
    [("received", ["transport", "received_at"]), ("parsed", ["media_type", "triple_count"]),
      ("identified", ["graph_digest", "digest_algorithm"]), ("structurally_valid", ["shex_result"]),
      ("semantically_valid", ["shacl_report"]), ("closed", ["closure"]), ("falsifier_clean", ["falsifiers", "violations"]),
      ("admitted", ["admission_receipt_id"]), ("plannable", ["planning_fingerprint", "goal_count"]),
      ("selected", ["plan_id", "step_count"]), ("constructed", ["command_id", "capability_id"]),
      ("authorized", ["authority_id", "scope"]), ("prepared", ["receipt_anchor_id"]),
      ("executed", ["execution_id", "consequence"]), ("receipted", ["receipt_id", "status"]),
      ("attested", ["receipt_id", "attestation"])]).getD []

/-- What it has to say. -/
def Shows (bounds evidence : Evidence) : State → Prop
  | "parsed" => ∃ count, evidence.get "triple_count" = .integer count ∧ 0 ≤ count ∧
      ∀ limit, maxTriples bounds = .integer limit → count ≤ limit
  | "structurally_valid" => (evidence.get "shex_result").get "conformant" = .atom "true"
  | "semantically_valid" => (evidence.get "shacl_report").get "conforms" = .atom "true"
  | "closed" => ∃ count, (evidence.get "closure").get "entailed_triple_count" = .integer count
  | "falsifier_clean" => isFilledList (evidence.get "falsifiers") ∧ evidence.get "violations" = .list []
  | "plannable" => ∃ count, evidence.get "goal_count" = .integer count ∧ 0 < count
  | "selected" => ∃ count, evidence.get "step_count" = .integer count ∧ 0 < count
  | _ => True

structure Evidenced (bounds : Evidence) (state : State) (evidence : Evidence) : Prop where
  present : ∀ key ∈ requiredKeys state, present evidence key
  shows : Shows bounds evidence state

/-- A check that never raises, and passes exactly where the promise holds. -/
abbrev Judges (result : Except Fault Unit) (promise : Prop) : Prop := Follows Fault.raised result promise True

variable {step : State} {evidence : Evidence}

theorem Judges.andThen {first second : Except Fault Unit} {promise other : Prop} (judges : Judges first promise)
    (then_judges : Judges second other) : Judges (first >>= fun _ => second) (promise ∧ other) :=
  (judges.bind fun _ _ => then_judges).iff Iff.rfl (by simp)

theorem get_of_no_map (plain : evidence.isMap = false) (key : String) : evidence.get key = .nil := by
  cases evidence <;> first | rfl | cases plain

theorem requireKeys_judges (keys : List String) :
    Judges (requireKeys step evidence keys) (∀ key ∈ keys, present evidence key) := by
  unfold requireKeys
  by_cases all : ∀ key ∈ keys, present evidence key
  · rw [if_pos (by simpa using all)]
    exact .ok all trivial
  · rw [if_neg (by simpa using all)]
    exact .refused nofun all trivial

theorem requireNonNegInteger_judges (key : String) : Judges (requireNonNegInteger step evidence key)
    (∃ count, evidence.get key = .integer count ∧ 0 ≤ count) := by
  unfold requireNonNegInteger
  cases given : evidence.get key with
  | integer value =>
    by_cases fits : 0 ≤ value
    · simp only [fits, if_true]
      exact .ok ⟨value, rfl, fits⟩ trivial
    · simp only [fits, if_false]
      exact .refused nofun (fun ⟨_, same, other⟩ => fits (Evidence.integer.inj same ▸ other)) trivial
  | _ => exact .refused nofun (fun ⟨_, same, _⟩ => nomatch same) trivial

theorem requirePositiveInteger_judges (key : String) : Judges (requirePositiveInteger step evidence key)
    (∃ count, evidence.get key = .integer count ∧ 0 < count) := by
  unfold requirePositiveInteger
  cases given : evidence.get key with
  | integer value =>
    by_cases fits : 0 < value
    · simp only [fits, if_true]
      exact .ok ⟨value, rfl, fits⟩ trivial
    · simp only [fits, if_false]
      exact .refused nofun (fun ⟨_, same, other⟩ => fits (Evidence.integer.inj same ▸ other)) trivial
  | _ => exact .refused nofun (fun ⟨_, same, _⟩ => nomatch same) trivial

theorem requireFlag_judges (resultKey flagKey : String) : Judges (requireFlag step evidence resultKey flagKey)
    ((evidence.get resultKey).get flagKey = .atom "true") := by
  unfold requireFlag
  dsimp only
  cases shape : (evidence.get resultKey).isMap with
  | false =>
    rw [get_of_no_map shape]
    exact .refused nofun (fun same => absurd (Evidence.atom.inj same) (by decide)) trivial
  | true =>
    rw [if_pos rfl]
    split
    next same => exact .ok same trivial
    next other => exact .refused nofun other trivial

theorem checkTripleBounds_judges (bounds : Evidence) : Judges (checkTripleBounds bounds evidence)
    (∀ limit count, maxTriples bounds = .integer limit → evidence.get "triple_count" = .integer count →
      count ≤ limit) := by
  unfold checkTripleBounds
  split
  next limit count bound given =>
    by_cases past : limit < count
    · rw [if_pos past]
      exact .refused nofun (fun fits => absurd (fits limit count bound given) (Int.not_le.mpr past)) trivial
    · rw [if_neg past]
      refine .ok (fun other observed same same' => ?_) trivial
      cases bound.symm.trans same
      cases given.symm.trans same'
      exact Int.not_lt.mp past
  next other => exact .ok (fun limit count bound given => (other limit count bound given).elim) trivial

theorem checkClosure_judges : Judges (checkClosure evidence)
    (∃ count, (evidence.get "closure").get "entailed_triple_count" = .integer count) := by
  unfold checkClosure
  dsimp only
  cases shape : (evidence.get "closure").isMap with
  | false =>
    rw [get_of_no_map shape]
    exact .refused nofun (fun ⟨_, same⟩ => nomatch same) trivial
  | true =>
    rw [if_pos rfl]
    split
    next count same => exact .ok ⟨count, same⟩ trivial
    next other => exact .refused nofun (fun ⟨count, same⟩ => other count same) trivial

theorem checkFalsifiers_judges : Judges (checkFalsifiers evidence)
    (isFilledList (evidence.get "falsifiers") ∧ evidence.get "violations" = .list []) := by
  unfold checkFalsifiers
  by_cases filled : isFilledList (evidence.get "falsifiers")
  · rw [if_pos filled]
    split
    next same => exact .ok ⟨filled, same⟩ trivial
    next other => exact .refused nofun (fun both => other both.2) trivial
  · rw [if_neg filled]
    exact .refused nofun (fun both => filled both.1) trivial

variable {bounds : Evidence} (state : State)

theorem keys_evidenced (rest : Shows bounds evidence state) :
    Judges (requireKeys state evidence (requiredKeys state)) (Evidenced bounds state evidence) :=
  (requireKeys_judges _).iff ⟨fun present => ⟨present, rest⟩, Evidenced.present⟩ Iff.rfl

theorem keys_then_evidenced {result : Except Fault Unit} {promise : Prop} (judges : Judges result promise)
    (same : promise ↔ Shows bounds evidence state) :
    Judges (requireKeys state evidence (requiredKeys state) >>= fun _ => result) (Evidenced bounds state evidence) :=
  ((requireKeys_judges _).andThen judges).iff
    ⟨fun both => ⟨both.1, same.mp both.2⟩, fun evidenced => ⟨evidenced.present, same.mpr evidenced.shows⟩⟩ Iff.rfl

variable {state}

/-- For every state but the first, the evidence is checked for what its edge requires. -/
theorem checkEvidence_judges (envelope : Envelope) (living : state ∈ chain) (later : state ≠ "candidate") :
    Judges (checkEvidence envelope state evidence) (Evidenced envelope.subject.bounds state evidence) := by
  simp only [chain, List.mem_cons, List.not_mem_nil, or_false] at living
  obtain rfl | rfl | rfl | rfl | rfl | rfl | rfl | rfl | rfl | rfl | rfl | rfl | rfl | rfl | rfl | rfl | rfl := living
  · exact absurd rfl later
  · exact keys_evidenced "received" trivial
  · refine keys_then_evidenced "parsed" ((requireNonNegInteger_judges _).andThen (checkTripleBounds_judges _))
      (Iff.trans ?_ Iff.rfl)
    refine ⟨fun ⟨⟨count, given, fits⟩, within⟩ => ⟨count, given, fits, fun limit bound => within limit count bound given⟩,
      fun ⟨count, given, fits, within⟩ => ⟨⟨count, given, fits⟩, fun limit other bound same => ?_⟩⟩
    cases given.symm.trans same
    exact within limit bound
  · exact keys_evidenced "identified" trivial
  · exact keys_then_evidenced "structurally_valid" (requireFlag_judges _ _) Iff.rfl
  · exact keys_then_evidenced "semantically_valid" (requireFlag_judges _ _) Iff.rfl
  · exact keys_then_evidenced "closed" checkClosure_judges Iff.rfl
  · exact keys_then_evidenced "falsifier_clean" checkFalsifiers_judges Iff.rfl
  · exact keys_evidenced "admitted" trivial
  · exact keys_then_evidenced "plannable" (requirePositiveInteger_judges _) Iff.rfl
  · exact keys_then_evidenced "selected" (requirePositiveInteger_judges _) Iff.rfl
  · exact keys_evidenced "constructed" trivial
  · exact keys_evidenced "authorized" trivial
  · exact keys_evidenced "prepared" trivial
  · exact keys_evidenced "executed" trivial
  · exact keys_evidenced "receipted" trivial
  · exact keys_evidenced "attested" trivial

end Evidence

/-! ## The seal of a step -/

section Seal

variable {runtime : Runtime} {envelope : Envelope}

/-- The envelope never moved, or carries a sealed history. -/
def Held (runtime : Runtime) (envelope : Envelope) : Prop :=
  (envelope.standing = "candidate" ∧ envelope.standingHistory = .entries [] ∧ envelope.standingSeal = none) ∨
    ∃ steps payloads, Carries runtime envelope steps payloads

theorem Held.accepted (held : Held runtime envelope) (next : State) : verifyLedger runtime envelope next = .ok () := by
  obtain ⟨standing, history, stamp⟩ | ⟨steps, payloads, carries⟩ := held
  · unfold verifyLedger
    rw [history]
    exact if_pos ⟨standing, stamp⟩
  · exact carries.accepted next

theorem Held.edges (held : Held runtime envelope) : ∃ payloads,
    envelope.standingHistory = .entries envelope.standingHistory.steps ∧
      envelope.standingHistory.steps.mapM (entryPayload runtime) = some payloads ∧
        Contiguous "candidate" (edgesOf envelope) ∧
          ((edgesOf envelope).getLast?.map Prod.snd).getD "candidate" = envelope.standing := by
  obtain ⟨standing, history, _⟩ | ⟨steps, payloads, carries⟩ := held
  · refine ⟨[], ?_⟩
    unfold edgesOf
    rw [history, standing]
    exact ⟨rfl, rfl, trivial, rfl⟩
  · obtain ⟨last, ends, standing⟩ := carries.standing
    refine ⟨payloads, ?_⟩
    unfold edgesOf
    rw [carries.history]
    refine ⟨rfl, carries.written, carries.contiguous, ?_⟩
    show ((steps.map Envelope.HistoryEntry.edge).getLast?.map Prod.snd).getD "candidate" = _
    rw [List.getLast?_map, ends, standing]
    rfl

theorem toBinary_again {term shown : Evidence} (made : toBinary runtime term = some shown) :
    toBinary runtime shown = some shown := by
  cases term with
  | atom _ | integer _ | text _ | bytes _ => cases Option.some.inj made; rfl
  | _ =>
    obtain ⟨text, _, rfl⟩ := Option.map_eq_some_iff.mp made
    rfl

theorem toBinary_all {terms shown : List Evidence} (made : terms.mapM (toBinary runtime) = some shown) :
    ∀ term ∈ shown, toBinary runtime term = some term := by
  induction terms generalizing shown with
  | nil => cases made; exact nofun
  | cons term terms ih =>
    rw [List.mapM_cons] at made
    obtain ⟨first, one, made⟩ := Option.bind_eq_some_iff.mp made
    obtain ⟨others, rest, made⟩ := Option.bind_eq_some_iff.mp made
    cases made
    exact List.forall_mem_cons.mpr ⟨toBinary_again one, ih rest⟩

/-- What was written once as a binary is joined without a failure. -/
theorem entryPayload_some {origin next : State} {evidence : Evidence} {now : Calendar.Moment}
    {entry : Envelope.HistoryEntry} (made : historyEntry runtime origin next evidence now = some entry) :
    entry.edge = (origin, next) ∧ ∃ payload, entryPayload runtime entry = some payload := by
  unfold historyEntry at made
  obtain ⟨keys, sorted, made⟩ := Option.bind_eq_some_iff.mp made
  obtain ⟨digest, _, made⟩ := Option.bind_eq_some_iff.mp made
  cases made
  refine ⟨rfl, ?_⟩
  obtain ⟨shown, written, rfl⟩ := Option.map_eq_some_iff.mp sorted
  have each : ∀ term ∈ shown.insertionSort fun left right => bytesOf left ≤ bytesOf right,
      (toBinary runtime term).isSome := by
    intro term member
    rw [toBinary_all written term ((List.mem_insertionSort _).mp member)]
    rfl
  obtain ⟨again, joined⟩ := mapM_some each
  exact ⟨_, by unfold entryPayload; rw [joined]; rfl⟩

/-- A step of a held envelope is sealed, and the result is held again. -/
theorem extendSeal_held (held : Held runtime envelope) {next : State} {evidence : Evidence} {now : Calendar.Moment}
    {entry : Envelope.HistoryEntry} (made : historyEntry runtime envelope.standing next evidence now = some entry) :
    ∃ result, extendSeal runtime envelope envelope.standing next evidence now = .ok result ∧ Held runtime result ∧
      result.subject = envelope.subject ∧ result.standing = next ∧
        result.standingHistory.steps = envelope.standingHistory.steps ++ [entry] := by
  obtain ⟨payloads, history, written, contiguous, goes⟩ := held.edges
  obtain ⟨edge, payload, last⟩ := entryPayload_some made
  have all : (envelope.standingHistory.steps ++ [entry]).mapM (entryPayload runtime) = some (payloads ++ [payload]) := by
    rw [List.mapM_append, written, List.mapM_cons, last]
    rfl
  refine ⟨⟨envelope.subject, next, .entries (envelope.standingHistory.steps ++ [entry]),
    some (sealed runtime (payloads ++ [payload]))⟩, ?_, .inr ⟨_, _, rfl, all, rfl, ?_, entry, List.getLast?_concat ..,
      (Prod.ext_iff.mp edge).2.symm⟩, rfl, rfl, rfl⟩
  · unfold extendSeal
    dsimp only
    rw [made]
    simp only [Option.bind_eq_bind, Option.bind_some, sealChain_eq all, Option.pure_def, Option.map_some, Option.getD_some]
  · rw [List.map_append, List.map_singleton, edge]
    exact contiguous.snoc goes

end Seal

/-! ## Runs -/

structure Call where
  next : Evidence
  evidence : Evidence
  now : Calendar.Moment

section Run

variable (runtime : Runtime)

/-- The evidence is a map that is no struct, and each of its keys has a text. -/
def Sealable (evidence : Evidence) : Prop :=
  ∃ entries, evidence = .map entries ∧ ∀ entry ∈ entries, (toBinary runtime entry.1).isSome

/-- What a terminal state is reached by. -/
def Refused (evidence : Evidence) (refusal : Refusal) : Prop :=
  (evidence.member "refusal").bind Refusal.ofEvidence = some refusal ∨
    (evidence.member "refusal").bind Refusal.ofEvidence = none ∧
      (evidence.textMember "refusal").bind Refusal.ofEvidence = some refusal

def Admissible (state : State) (refusal : Refusal) : Prop :=
  state = "failed" ∨ (admissibleClasses state).any refusal.category.isAtom

/-- The end of an envelope has a refusal and no forbidden name, or keys that can be named. -/
structure Endable (state : State) (evidence : Evidence) : Prop where
  clear : ∀ refusal, Refused evidence refusal → Admissible state refusal →
    ¬ evidence.Contains runtime.printing true
  named : (∀ refusal, ¬ Refused evidence refusal) → ∀ key ∈ keysOf evidence, (toBinary runtime key).isSome

/-- The scan does not raise and misses no forbidden name, and what passes it can be sealed. -/
structure Steppable (bounds : Evidence) (state : State) (evidence : Evidence) : Prop where
  scanned : (obstacles 0 evidence).head? ≠ some .raised
  found : obstacles 0 evidence = [] → evidence.Contains runtime.printing true → evidence.Contains runtime.printing false
  sealable : obstacles 0 evidence = [] → ¬ evidence.Contains runtime.printing true → Evidenced bounds state evidence →
    Sealable runtime evidence

/-- The target is an atom, and the evidence, where it counts, is what the code can do with. -/
def Sound (envelope : Envelope) (call : Call) : Prop :=
  ∃ state, call.next = .atom state ∧ (call.evidence.isMap → envelope.standing ∉ terminal →
    (state ∈ terminal → Endable runtime state call.evidence) ∧
      (state ∈ chain → predecessor state = envelope.standing →
        Steppable runtime envelope.subject.bounds state call.evidence))

/-- A call is accepted from a living envelope and with clear evidence only, and refused with an error. -/
def Answers (envelope : Envelope) (call : Call) : Prop :=
  match transition runtime envelope call.next call.evidence call.now with
  | .ok _ => envelope.standing ∉ terminal ∧ ¬ call.evidence.Contains runtime.printing true
  | .error (.refused _) => True
  | .error .raised => False

/-- A refused call leaves the envelope as it is. -/
def advance (envelope : Envelope) (call : Call) : Envelope :=
  match transition runtime envelope call.next call.evidence call.now with
  | .ok later => later
  | .error _ => envelope

def fresh (subject : Envelope.Subject) : Envelope := { subject }

def run (subject : Envelope.Subject) (calls : List Call) : Envelope := calls.foldl (advance runtime) (fresh subject)

def nexts (envelope : Envelope) : List State := envelope.standingHistory.steps.map fun entry => entry.next

/-- The entry is that of the call, whose evidence the edge requires. -/
structure Records (bounds : Evidence) (entry : Envelope.HistoryEntry) (call : Call) : Prop where
  target : call.next = .atom entry.next
  stepped : entry.next ∈ chain → Evidenced bounds entry.next call.evidence ∧
    historyEntry runtime entry.origin entry.next call.evidence call.now = some entry
  ended : entry.next ∈ terminal → ∃ refusal, Refused call.evidence refusal ∧ Admissible entry.next refusal

/-- The chain from its second state on, one evidenced step at a time, then at most one terminal state. -/
structure Advanced (envelope : Envelope) (taken : List Call) : Prop where
  path : ∃ walked ending, nexts envelope = walked ++ ending ∧ walked <+: chain.drop 1 ∧ ending.length ≤ 1 ∧
    ∀ state ∈ ending, state ∈ terminal
  contiguous : Contiguous "candidate" (edgesOf envelope)
  standing : envelope.standing = (nexts envelope).getLast?.getD "candidate"
  recorded : List.Forall₂ (Records runtime envelope.subject.bounds) envelope.standingHistory.steps taken

variable {runtime} {envelope : Envelope} {call : Call}

theorem Advanced.known {taken : List Call} (advanced : Advanced runtime envelope taken) : Declared envelope.standing := by
  obtain ⟨walked, ending, path, walking, _, ended⟩ := advanced.path
  rw [advanced.standing, path]
  cases last : (walked ++ ending).getLast? with
  | none => exact .inl (by decide)
  | some state =>
    rcases List.mem_append.mp (List.mem_of_getLast? last) with member | member
    · exact .inl (List.mem_of_mem_drop (walking.subset member))
    · exact .inr (ended state member)

/-- A living envelope went along the chain as far as its standing. -/
theorem Advanced.living {taken : List Call} (advanced : Advanced runtime envelope taken)
    (living : envelope.standing ∉ terminal) :
    nexts envelope <+: chain.drop 1 ∧ chain[(nexts envelope).length]? = some envelope.standing := by
  obtain ⟨walked, ending, path, walking, _, ended⟩ := advanced.path
  have alive : ending = [] := by
    refine List.eq_nil_iff_forall_not_mem.mpr fun state member => ?_
    have last : (nexts envelope).getLast? = ending.getLast? := by
      rw [path, List.getLast?_append_of_ne_nil _ (List.ne_nil_of_mem member)]
    obtain ⟨final, ends⟩ := Option.ne_none_iff_exists'.mp
      (mt List.getLast?_eq_none_iff.mp (List.ne_nil_of_mem member))
    apply living
    rw [advanced.standing, last, ends]
    exact ended final (List.mem_of_getLast? ends)
  rw [alive, List.append_nil] at path
  refine ⟨path ▸ walking, ?_⟩
  rw [advanced.standing, path]
  induction walked using List.reverseRecOn with
  | nil => rfl
  | append_singleton before last _ =>
    have there := List.prefix_iff_getElem?.mp walking before.length (by simp)
    rw [List.getElem?_drop, List.getElem_concat_length rfl] at there
    rw [List.length_append, List.length_singleton, List.getLast?_concat, Nat.add_comm, there]
    rfl

theorem successor_walked {walked : List State} {current next : State} (walking : walked <+: chain.drop 1)
    (there : chain[walked.length]? = some current) (follows : predecessor next = current) (living : current ≠ "nil") :
    walked ++ [next] <+: chain.drop 1 := by
  obtain ⟨index, held, held'⟩ := Ledger.successor_of_predecessor follows living
  have same : index = walked.length := by
    obtain ⟨within, _⟩ := List.getElem?_eq_some_iff.mp held
    exact (List.getElem?_inj within (by decide)).mp (held.trans there.symm)
  subst same
  obtain ⟨rest, whole⟩ := walking
  cases rest with
  | nil =>
    have short := List.getElem?_eq_some_iff.mp held' |>.1
    have lengths := congrArg List.length whole
    rw [List.append_nil, List.length_drop] at lengths
    omega
  | cons head rest =>
    have there : (chain.drop 1)[walked.length]? = some head := by rw [← whole]; simp
    rw [List.getElem?_drop, Nat.add_comm, held', Option.some.injEq] at there
    exact ⟨rest, by rw [there, List.append_assoc]; exact whole⟩

/-- A step onto the chain, or off it, of an envelope that advanced. -/
theorem Advanced.grows {taken : List Call} (advanced : Advanced runtime envelope taken)
    (living : envelope.standing ∉ terminal) {result : Envelope} {next : State} {entry : Envelope.HistoryEntry}
    (held : Held runtime result) (subject : result.subject = envelope.subject) (standing : result.standing = next)
    (steps : result.standingHistory.steps = envelope.standingHistory.steps ++ [entry]) (edge : entry.next = next)
    (goes : next ∈ terminal ∨ predecessor next = envelope.standing)
    (records : Records runtime envelope.subject.bounds entry call) : Advanced runtime result (taken ++ [call]) := by
  obtain ⟨walking, there⟩ := advanced.living living
  have path : nexts result = nexts envelope ++ [next] := by
    rw [nexts, steps, List.map_append, List.map_singleton, edge]
    rfl
  obtain ⟨_, _, _, contiguous, _⟩ := held.edges
  refine ⟨?_, contiguous, ?_, ?_⟩
  · rcases goes with ended | follows
    · exact ⟨nexts envelope, [next], path, walking, Nat.le_refl 1, List.forall_mem_singleton.mpr ended⟩
    · refine ⟨nexts result, [], (List.append_nil _).symm, ?_, Nat.zero_le 1, nofun⟩
      rw [path]
      exact successor_walked walking there follows (Ledger.ne_nil advanced.known)
  · rw [path, List.getLast?_concat, standing]
    rfl
  · rw [steps, subject]
    exact List.rel_append advanced.recorded (.cons records .nil)

theorem sealable_record (entries : List (String × Evidence)) : Sealable runtime (.record entries) := by
  refine ⟨_, rfl, fun entry member => ?_⟩
  obtain ⟨named, _, rfl⟩ := List.mem_map.mp member
  rfl

theorem sortedKeys_some {evidence : Evidence} (named : ∀ key ∈ keysOf evidence, (toBinary runtime key).isSome) :
    ∃ keys, sortedKeys runtime evidence = some keys := by
  obtain ⟨shown, written⟩ := mapM_some named
  exact ⟨_, by unfold sortedKeys; rw [written]; rfl⟩

theorem historyEntry_some {evidence : Evidence} (sealable : Sealable runtime evidence) (origin next : State)
    (now : Calendar.Moment) : ∃ entry, historyEntry runtime origin next evidence now = some entry := by
  obtain ⟨entries, rfl, named⟩ := sealable
  have keysNamed : ∀ key ∈ keysOf (.map entries), (toBinary runtime key).isSome := by
    intro key member
    obtain ⟨entry, listed, rfl⟩ := List.mem_map.mp member
    exact named entry listed
  obtain ⟨keys, sorted⟩ := sortedKeys_some keysNamed
  have linesNamed : ∀ entry ∈ entries, ((toBinary runtime entry.1).bind fun key =>
      some (bytesOf key ++ utf8 ("=" ++ runtime.printing.inspectAll entry.2))).isSome := by
    intro entry member
    obtain ⟨shown, made⟩ := Option.isSome_iff_exists.mp (named entry member)
    rw [made]
    rfl
  obtain ⟨lines, written⟩ := mapM_some linesNamed
  have digest : ∃ digest, evidenceDigest runtime (.map entries) = some digest := by
    exact ⟨_, Option.bind_eq_some_iff.mpr ⟨lines, written, rfl⟩⟩
  obtain ⟨digest, digested⟩ := digest
  exact ⟨_, Option.bind_eq_some_iff.mpr ⟨keys, sorted, Option.bind_eq_some_iff.mpr ⟨digest, digested, rfl⟩⟩⟩

theorem terminalRefusal_ok {next : State} {evidence : Evidence} {refusal : Refusal} (refused : Refused evidence refusal) :
    terminalRefusal runtime next evidence = .ok refusal := by
  unfold terminalRefusal
  rcases refused with found | ⟨none, found⟩
  · rw [found]
  · rw [none, found]

theorem terminalRefusal_refused {next : State} {evidence : Evidence} (bare : ∀ refusal, ¬ Refused evidence refusal)
    (named : ∀ key ∈ keysOf evidence, (toBinary runtime key).isSome) :
    ∃ refusal, terminalRefusal runtime next evidence = .error (.refused refusal) := by
  unfold terminalRefusal
  obtain ⟨keys, sorted⟩ := sortedKeys_some named
  cases first : (evidence.member "refusal").bind Refusal.ofEvidence with
  | some refusal => exact absurd (.inl first) (bare refusal)
  | none =>
    cases second : (evidence.textMember "refusal").bind Refusal.ofEvidence with
    | some refusal => exact absurd (.inr ⟨first, second⟩) (bare refusal)
    | none =>
      rw [sorted]
      exact ⟨_, rfl⟩

theorem terminalClassAdmissible_judges (next : State) (refusal : Refusal) :
    Judges (terminalClassAdmissible next refusal) (Admissible next refusal) := by
  unfold terminalClassAdmissible
  split
  next admissible => exact .ok admissible trivial
  next other => exact .refused nofun other trivial

/-- A check that never raises passes, or is refused. -/
theorem Judges.cases {result : Except Fault Unit} {promise : Prop} (judges : Judges result promise) :
    (result = .ok () ∧ promise) ∨ ∃ refusal, result = .error (.refused refusal) := by
  cases given : result with
  | ok value => exact .inl ⟨rfl, judges.reads.mp ⟨value, given⟩⟩
  | error fault =>
    cases fault with
    | raised => exact absurd given (judges.steady.mpr trivial)
    | refused refusal => exact .inr ⟨refusal, rfl⟩

variable (runtime) in
/-- What a call does to an envelope that advanced. -/
def Moves (envelope : Envelope) (taken : List Call) (call : Call) (result : Except Fault Envelope) : Prop :=
  (∃ refusal, result = .error (.refused refusal)) ∨
    ∃ later, result = .ok later ∧ envelope.standing ∉ terminal ∧ ¬ call.evidence.Contains runtime.printing true ∧
      Held runtime later ∧ Advanced runtime later (taken ++ [call])

/-- The end of an envelope. -/
theorem terminalTransition_moves {taken : List Call} (held : Held runtime envelope)
    (advanced : Advanced runtime envelope taken) (living : envelope.standing ∉ terminal) {next : State}
    (target : call.next = .atom next) (ended : next ∈ terminal) (endable : Endable runtime next call.evidence) :
    Moves runtime envelope taken call (terminalTransition runtime envelope next call.evidence call.now) := by
  unfold terminalTransition
  by_cases bare : ∀ refusal, ¬ Refused call.evidence refusal
  · obtain ⟨refusal, refused⟩ := terminalRefusal_refused bare (endable.named bare)
    rw [refused]
    exact .inl ⟨refusal, rfl⟩
  obtain ⟨refusal, given⟩ := not_forall_not.mp bare
  rw [terminalRefusal_ok given]
  show Moves runtime envelope taken call (terminalClassAdmissible next refusal >>= _)
  obtain ⟨passed, admissible⟩ | ⟨other, refused⟩ := (terminalClassAdmissible_judges next refusal).cases
  · rw [passed]
    obtain ⟨entry, made⟩ := historyEntry_some (sealable_record _) envelope.standing next call.now
    obtain ⟨later, extended, kept, subject, standing, steps⟩ := extendSeal_held held made
    have reached : entry.next = next := (Prod.ext_iff.mp (entryPayload_some made).1).2
    refine .inr ⟨later, extended, living, endable.clear refusal given admissible, kept,
      advanced.grows living kept subject standing steps reached (.inl ended) ⟨?_, ?_, ?_⟩⟩
    · rw [target, reached]
    · rw [reached]
      exact fun onChain => absurd ended (Ledger.not_terminal onChain)
    · rw [reached]
      exact fun _ => ⟨refusal, given, admissible⟩
  · rw [refused]
    exact .inl ⟨other, rfl⟩

theorem predecessor_first : predecessor "candidate" = "nil" := by decide

/-- A step along the chain. -/
theorem chainTransition_moves {taken : List Call} (held : Held runtime envelope)
    (advanced : Advanced runtime envelope taken) (living : envelope.standing ∉ terminal) {next : State}
    (target : call.next = .atom next) (onChain : next ∈ chain)
    (steppable : predecessor next = envelope.standing →
      Steppable runtime envelope.subject.bounds next call.evidence) :
    Moves runtime envelope taken call (chainTransition runtime envelope next call.evidence call.now) := by
  unfold chainTransition requirePredecessor
  by_cases follows : predecessor next = envelope.standing
  swap
  · rw [if_neg follows]
    exact .inl ⟨_, rfl⟩
  rw [if_pos follows]
  have able := steppable follows
  have later : next ≠ "candidate" := by
    rintro rfl
    exact Ledger.ne_nil advanced.known (follows.symm.trans predecessor_first)
  show Moves runtime envelope taken call (rejectInference runtime next call.evidence >>= _)
  unfold rejectInference
  have stops := scan_stops runtime.printing [] 0 call.evidence
  unfold Stops at stops
  cases blocked : obstacles 0 call.evidence with
  | cons fault faults =>
    rw [blocked] at stops
    have first := able.scanned
    rw [blocked] at first
    cases fault with
    | raised => exact absurd rfl first
    | tooDeep =>
      rw [show scan runtime.printing [] 0 call.evidence = .error .tooDeep from stops]
      exact .inl ⟨_, rfl⟩
  | nil =>
    rw [blocked] at stops
    obtain ⟨found, scanned⟩ := stops
    rw [scanned]
    cases found with
    | cons path paths => exact .inl ⟨_, rfl⟩
    | nil =>
      have clear : ¬ call.evidence.Contains runtime.printing true := fun contains =>
        scan_finds (able.found blocked contains) [] 0 scanned
      show Moves runtime envelope taken call (checkEvidence envelope next call.evidence >>= _)
      obtain ⟨passed, evidenced⟩ | ⟨refusal, refused⟩ := (checkEvidence_judges envelope onChain later).cases
      · rw [passed]
        obtain ⟨entry, made⟩ :=
          historyEntry_some (able.sealable blocked clear evidenced) envelope.standing next call.now
        obtain ⟨after, extended, kept, subject, standing, steps⟩ := extendSeal_held held made
        have edge := Prod.ext_iff.mp (entryPayload_some made).1
        have origin : entry.origin = envelope.standing := edge.1
        have reached : entry.next = next := edge.2
        refine .inr ⟨after, extended, living, clear, kept,
          advanced.grows living kept subject standing steps reached (.inr follows) ⟨?_, ?_, ?_⟩⟩
        · rw [target, reached]
        · rw [reached, origin]
          exact fun _ => ⟨evidenced, made⟩
        · rw [reached]
          exact fun ended => absurd ended (Ledger.not_terminal onChain)
      · rw [refused]
        exact .inl ⟨refusal, rfl⟩

/-- One call of a sound run. -/
theorem transition_moves {taken : List Call} (held : Held runtime envelope) (advanced : Advanced runtime envelope taken)
    (sound : Sound runtime envelope call) :
    Moves runtime envelope taken call (transition runtime envelope call.next call.evidence call.now) := by
  obtain ⟨next, target, able⟩ := sound
  unfold transition
  rw [target]
  dsimp only
  by_cases shape : call.evidence.isMap
  swap
  · rw [if_neg shape]
    exact .inl ⟨_, rfl⟩
  rw [if_pos shape, held.accepted next]
  show Moves runtime envelope taken call (if envelope.standing ∈ terminal then _ else _)
  by_cases ended : envelope.standing ∈ terminal
  · rw [if_pos ended]
    exact .inl ⟨_, rfl⟩
  rw [if_neg ended]
  obtain ⟨endable, steppable⟩ := able shape ended
  by_cases last : next ∈ terminal
  · rw [if_pos last]
    exact terminalTransition_moves held advanced ended target last (endable last)
  rw [if_neg last]
  by_cases onChain : next ∈ chain
  · rw [if_pos onChain]
    exact chainTransition_moves held advanced ended target onChain (steppable onChain)
  · rw [if_neg onChain]
    exact .inl ⟨_, rfl⟩

variable {subject : Envelope.Subject}

theorem run_snoc (calls : List Call) (call : Call) :
    run runtime subject (calls ++ [call]) = advance runtime (run runtime subject calls) call := by
  rw [run, List.foldl_append]
  rfl

theorem Moves.answers {taken : List Call}
    (moves : Moves runtime envelope taken call (transition runtime envelope call.next call.evidence call.now)) :
    Answers runtime envelope call := by
  unfold Answers
  obtain ⟨refusal, refused⟩ | ⟨later, accepted, living, clear, _⟩ := moves
  · rw [refused]
    trivial
  · rw [accepted]
    exact ⟨living, clear⟩

/-- In every run whose calls are sound the envelope goes along the chain, one evidenced step at a time,
and ends in at most one terminal state; nothing is raised, and no forbidden name is accepted. -/
theorem standing_evidenced {calls : List Call}
    (sound : ∀ done call rest, calls = done ++ call :: rest → Sound runtime (run runtime subject done) call) :
    (∃ taken, taken.Sublist calls ∧ Advanced runtime (run runtime subject calls) taken) ∧
      ∀ done call rest, calls = done ++ call :: rest → Answers runtime (run runtime subject done) call := by
  suffices kept : Held runtime (run runtime subject calls) ∧ (∃ taken, taken.Sublist calls ∧
      Advanced runtime (run runtime subject calls) taken) ∧
        ∀ done call rest, calls = done ++ call :: rest → Answers runtime (run runtime subject done) call from kept.2
  induction calls using List.reverseRecOn with
  | nil =>
    refine ⟨.inl ⟨rfl, rfl, rfl⟩, ⟨[], .slnil, ⟨[], [], rfl, List.nil_prefix, Nat.zero_le 1, nofun⟩, trivial, rfl, .nil⟩, ?_⟩
    intro done call rest split
    cases done <;> cases split
  | append_singleton calls call ih =>
    obtain ⟨held, ⟨taken, within, advanced⟩, answered⟩ := ih fun done other rest split =>
      sound done other (rest ++ [call]) (by rw [split, List.append_assoc, List.cons_append])
    have moves := transition_moves held advanced (sound calls call [] rfl)
    have answers := moves.answers
    rw [run_snoc, advance]
    refine ⟨?_, ?_, fun done other rest split => ?_⟩
    · obtain ⟨refusal, refused⟩ | ⟨later, accepted, _, _, kept, _⟩ := moves
      · rw [refused]
        exact held
      · rw [accepted]
        exact kept
    · obtain ⟨refusal, refused⟩ | ⟨later, accepted, _, _, _, grown⟩ := moves
      · rw [refused]
        exact ⟨taken, within.trans (List.sublist_append_left _ _), advanced⟩
      · rw [accepted]
        exact ⟨taken ++ [call], within.append (.refl _), grown⟩
    · cases rest using List.reverseRecOn with
      | nil =>
        obtain ⟨rfl, same⟩ := List.append_inj' split rfl
        cases same
        exact answers
      | append_singleton rest last =>
        rw [← List.cons_append, ← List.append_assoc] at split
        exact answered done other rest (List.append_inj' split rfl).1

end Run

/-! ## A request that arrives -/

def arrival : Call :=
  ⟨.atom "received", .record [("transport", .text "https"), ("received_at", .text "t")], ⟨2026, 9, 16, 8, 0, 0, 0, 0⟩⟩

theorem arrival_clear : ¬ arrival.evidence.Contains plain.printing true := by
  intro contains
  unfold arrival Evidence.record at contains
  cases contains with
  | key member named banned =>
    simp only [List.map_cons, List.map_nil, List.mem_cons, Prod.mk.injEq, List.not_mem_nil, or_false] at member
    obtain ⟨rfl, _⟩ | ⟨rfl, _⟩ := member <;> cases named <;> revert banned <;> decide
  | value member inside =>
    simp only [List.map_cons, List.map_nil, List.mem_cons, Prod.mk.injEq, List.not_mem_nil, or_false] at member
    obtain ⟨_, rfl⟩ | ⟨_, rfl⟩ := member <;> cases inside
  | hidden _ member inside =>
    simp only [List.map_cons, List.map_nil, List.mem_cons, Prod.mk.injEq, List.not_mem_nil, or_false] at member
    obtain ⟨rfl, _⟩ | ⟨rfl, _⟩ := member <;> cases inside

theorem arrival_sound : Sound plain (run plain first.subject []) arrival :=
  ⟨"received", rfl, fun _ _ => ⟨fun ended => absurd ended (by decide), fun _ _ =>
    ⟨by decide, fun _ contains => absurd contains arrival_clear, fun _ _ _ => sealable_record _⟩⟩⟩

theorem arrival_evidenced : ∃ taken, taken.Sublist [arrival] ∧ Advanced plain (run plain first.subject [arrival]) taken :=
  (standing_evidenced fun done call rest split => by
    cases done with
    | nil =>
      cases split
      exact arrival_sound
    | cons _ done => cases done <;> cases split).1

/-- An improper list among the evidence, and an end that was inferred. -/
def improper : Call :=
  ⟨.atom "received", .record [("transport", .text "https"), ("received_at", .text "t"),
    ("extra", .improper [.integer 1] (.integer 2))], ⟨2026, 9, 16, 8, 0, 0, 0, 0⟩⟩

def inferred : Call :=
  ⟨.atom "failed", .record [("refusal", .struct "AshA2A.Semantic.Refusal"
    [("class", .atom "refused_plan"), ("code", .atom "no_plan"), ("stage", .atom "plannable"), ("detail", .nil)]),
      ("llm_output", .text "no plan")], ⟨2026, 9, 16, 8, 0, 0, 0, 0⟩⟩

/-- The first call raises, and the second one is accepted with a forbidden name. -/
theorem evidence_not_guarded : ¬ Answers plain (run plain first.subject []) improper ∧
    ¬ Answers plain (run plain first.subject []) inferred := by
  constructor
  · have raised : transition plain (run plain first.subject []) improper.next improper.evidence improper.now =
        .error .raised := rfl
    unfold Answers
    rw [raised]
    exact id
  · have accepted : ∃ later, transition plain (run plain first.subject []) inferred.next inferred.evidence inferred.now =
        .ok later := ⟨_, rfl⟩
    obtain ⟨later, accepted⟩ := accepted
    unfold Answers
    rw [accepted]
    exact fun both => both.2 (.key (List.mem_cons_of_mem _ (List.mem_singleton.mpr rfl)) rfl (by decide))

end AshA2A.Semantic.Standing
