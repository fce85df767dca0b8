import AshA2A.Json.Spelling
import AshA2A.Proofs.RegistryFiles
import Mathlib.Data.List.Induction

/-! A registry only moves forward, whatever calls are made and wherever the system stops,
while no key is activated whose activation was not recorded before. -/

namespace AshA2A.Sa2aCrypto.Registry

variable {host : Host} {reading : Json.Reading} {file : Option Bytes} {view later : View} {call : Call}

/-- The states that a key has once it left service. -/
def retired : List KeyState := [.deactivated, .compromised, .destroyed]

theorem retired_stays {source target : KeyState} (left : source ∈ retired) (allowed : Lifecycle.allowed source target) :
    target ∈ retired := by
  revert left allowed
  cases source <;> cases target <;> decide

/-! ## Views -/

/-- What stays of an entry. -/
structure Entry.Grows (before after : Entry) : Prop where
  retired : before.record.state ∈ retired → after.record.state ∈ retired
  activated : before.activatedAt ≠ none → after.activatedAt ≠ none

structure View.Grows (before after : View) : Prop where
  epoch : before.epoch ≤ after.epoch
  entry : ∀ kid entry, before.entry kid = some entry → ∃ next, after.entry kid = some next ∧ entry.Grows next

/-- An active key has its activation recorded. -/
def View.Recorded (view : View) : Prop :=
  ∀ kid entry, view.entry kid = some entry → entry.record.state = .active → entry.activatedAt ≠ none

theorem Entry.Grows.refl (entry : Entry) : entry.Grows entry := ⟨id, id⟩

theorem View.Grows.refl (view : View) : view.Grows view := ⟨Nat.le_refl _, fun _ entry found => ⟨entry, found, .refl entry⟩⟩

theorem View.Grows.trans {middle : View} (first : view.Grows middle) (second : middle.Grows later) : view.Grows later := by
  refine ⟨first.epoch.trans second.epoch, fun kid entry found => ?_⟩
  obtain ⟨next, kept, one⟩ := first.entry kid entry found
  obtain ⟨last, still, two⟩ := second.entry kid next kept
  exact ⟨last, still, fun given => two.retired (one.retired given), fun given => two.activated (one.activated given)⟩

theorem View.Grows.read (grows : view.Grows later) : view.Grows (later.read reading) := by
  refine ⟨grows.epoch, fun kid entry found => ?_⟩
  obtain ⟨next, kept, one⟩ := grows.entry kid entry found
  exact ⟨next.read reading, by simp [View.read, kept], one.retired, one.activated⟩

theorem View.Recorded.read (recorded : view.Recorded) : (view.read reading).Recorded := by
  intro kid entry found active
  obtain ⟨stored, given, rfl⟩ := Option.map_eq_some_iff.mp found
  exact recorded kid stored given active

/-- One entry put in place of another that it grows from. -/
theorem View.Grows.update {root : String} {epoch : Nat} {kid : String} {entry : Entry} (le : view.epoch ≤ epoch)
    (grows : ∀ old, view.entry kid = some old → old.Grows entry) :
    view.Grows ⟨root, epoch, Function.update view.entry kid (some entry)⟩ := by
  refine ⟨le, fun other old found => ?_⟩
  by_cases same : other = kid
  · subst same
    exact ⟨entry, Function.update_self .., grows old found⟩
  · exact ⟨old, (Function.update_of_ne same ..).trans found, .refl old⟩

theorem View.Recorded.update {root : String} {epoch : Nat} {kid : String} {entry : Entry} (recorded : view.Recorded)
    (given : entry.record.state = .active → entry.activatedAt ≠ none) :
    View.Recorded ⟨root, epoch, Function.update view.entry kid (some entry)⟩ := by
  intro other found
  by_cases same : other = kid
  · subst same
    simp only [Function.update_self, Option.some.injEq]
    rintro rfl
    exact given
  · simp only [Function.update_of_ne same]
    exact recorded other found

theorem Mutates.grows {prior : View} (mutates : Mutates call (some prior) later) : prior.Grows later := by
  cases mutates with
  | enroll op given free => exact .update (Nat.le_refl _) fun old found => absurd (free.symm.trans found) nofun
  | transition op readable pinned found allowed =>
    refine .update (Nat.le_refl _) fun old given => ?_
    obtain rfl := Option.some.inj (found.symm.trans given)
    exact ⟨fun left => retired_stays left allowed, id⟩
  | revoke op found allowed next =>
    refine .update (Nat.le_of_lt (nextEpoch_ok next)) fun old given => ?_
    obtain rfl := Option.some.inj (found.symm.trans given)
    exact ⟨fun left => retired_stays left allowed, id⟩
  | rotate op found active capGiven capped given free =>
    next root oldKid candidate opts old entry cap notAfter =>
    have first : prior.Grows ⟨root, prior.epoch, Function.update prior.entry oldKid
        (some (old.amended .active notAfter old.record.revocationEpoch))⟩ := by
      refine .update (Nat.le_refl _) fun other same => ?_
      obtain rfl := Option.some.inj (found.symm.trans same)
      exact ⟨fun left => absurd (active ▸ left) (by decide), id⟩
    refine first.trans (.update (Nat.le_refl _) fun other same => ?_)
    have different : candidate.kid ≠ oldKid := by
      intro same
      rw [same, found] at free
      cases free
    dsimp only at same
    rw [Function.update_of_ne different] at same
    exact absurd (free.symm.trans same) nofun

theorem Mutates.recorded {prior : View} (mutates : Mutates call (some prior) later) (held : Loads host file prior)
    (calm : call.Calm host file) (renamed : call.chance.Renamed) (recorded : prior.Recorded) : later.Recorded := by
  cases mutates with
  | enroll op given free => exact recorded.update (entry_enrolled given).2.2
  | transition op readable pinned found allowed =>
    next root kid target opts entry =>
    refine recorded.update ?_
    rintro (rfl : target = .active)
    exact calm kid opts prior entry op held pinned found allowed readable renamed
  | revoke op found allowed next => exact recorded.update nofun
  | rotate op found active capGiven capped given free =>
    next root oldKid candidate opts old entry cap notAfter =>
    have first : View.Recorded ⟨root, prior.epoch, Function.update prior.entry oldKid
        (some (old.amended .active notAfter old.record.revocationEpoch))⟩ :=
      recorded.update fun _ => recorded oldKid old found active
    exact first.update (entry_enrolled given).2.2

/-! ## Runs -/

/-- The calls meet the condition, each at the file it finds. -/
def Calm (host : Host) (calls : List Call) : Prop :=
  ∀ before call, before ++ [call] <+: calls → call.Calm host (run host before)

/-- The key that a call enrolls. -/
def Op.enrolls : Op → Option String
  | .enroll candidate _ | .rotate _ candidate _ => some candidate.kid
  | _ => none

theorem run_snoc (calls : List Call) (call : Call) : run host (calls ++ [call]) = (call.step host (run host calls)).2 := by
  rw [run, List.foldl_append]
  rfl

theorem calm_before {before rest : List Call} (calm : Calm host (before ++ rest)) : Calm host before :=
  fun earlier call within => calm earlier call (within.trans (List.prefix_append ..))

/-- What holds of the file after some calls. -/
structure Sound (host : Host) (file : Option Bytes) : Prop where
  kept : Kept host file
  recorded : ∀ view, Loads host file view → view.Recorded

theorem sound_loads (sound : Sound host file) : file = none ∨ ∃ view, Loads host file view := by
  cases file with
  | none => exact .inl rfl
  | some bytes =>
    obtain ⟨doc, entries, holds⟩ := sound.kept bytes rfl
    exact .inr ⟨⟨rootOf host bytes, doc.epoch, lookup entries⟩, holds.load⟩

/-- The call puts what it does to the view in the place of the file. -/
def Installs (host : Host) (reading : Json.Reading) (file : Option Bytes) (call : Call) (root : String) : Prop :=
  ∃ prior after, Prior host file prior ∧ call.applied root prior = some after ∧
    load host (call.step host file).2 root = .ok (after.read reading)

/-- A registry moves forward through the calls. -/
structure Forward (host : Host) (reading : Json.Reading) (calls : List Call) : Prop where
  accepted : ∀ before call root, before ++ [call] <+: calls → (call.step host (run host before)).1 = .ok root →
    Installs host reading (run host before) call root
  refused : ∀ before call, before ++ [call] <+: calls → (∀ root, (call.step host (run host before)).1 ≠ .ok root) →
    run host (before ++ [call]) = run host before ∨
      (call.step host (run host before)).1 = .crashed ∧ ∃ root, Installs host reading (run host before) call root
  loads : ∀ before, before <+: calls → run host before = none ∨ ∃ view, Loads host (run host before) view
  epoch : ∀ before middle view later, before ++ middle <+: calls → Loads host (run host before) view →
    Loads host (run host (before ++ middle)) later → view.epoch ≤ later.epoch
  revoked : ∀ before call view later, before ++ [call] <+: calls → Loads host (run host before) view →
    Loads host (run host (before ++ [call])) later → view.epoch ≠ later.epoch → ∃ kid opts, call.op = .revoke kid opts
  retired : ∀ before middle view later kid entry, before ++ middle <+: calls → Loads host (run host before) view →
    Loads host (run host (before ++ middle)) later → view.entry kid = some entry → entry.record.state ∈ retired →
      ∃ now, later.entry kid = some now ∧ now.record.state ≠ .active
  once : ∀ before middle call view kid root, before ++ middle ++ [call] <+: calls → Loads host (run host before) view →
    call.op.enrolls = some kid → (call.step host (run host (before ++ middle))).1 = .ok root → view.entry kid = none
  recorded : ∀ before middle view later kid entry, before ++ middle <+: calls → Loads host (run host before) view →
    Loads host (run host (before ++ middle)) later → view.entry kid = some entry → entry.record.state = .active →
      ∃ now, later.entry kid = some now ∧ now.activatedAt ≠ none

variable (canonical : host.library.Canonical reading)

include canonical

theorem sound_step (sound : Sound host file) (calm : call.Calm host file) : Sound host (call.step host file).2 := by
  have stepped : Stepped host reading file call (call.step host file) := step_cases canonical sound.kept
  generalize call.step host file = result at stepped
  cases stepped with
  | same => exact sound
  | next held mutates kept loads renamed written =>
    refine ⟨kept, fun view given => ?_⟩
    rw [given.unique loads]
    refine View.Recorded.read ?_
    next prior after =>
    cases prior with
    | none =>
      cases mutates
      exact nofun
    | some prior => exact mutates.recorded held calm renamed (sound.recorded prior held)

theorem sound_run (calls : List Call) (calm : Calm host calls) : Sound host (run host calls) := by
  induction calls using List.reverseRecOn with
  | nil => exact ⟨nofun, nofun⟩
  | append_singleton calls call ih =>
    rw [run_snoc]
    exact sound_step canonical (ih fun before call within => calm before call (within.trans (List.prefix_append ..)))
      (calm calls call (List.prefix_refl _))

/-- The file of a later moment has what an earlier one had. -/
theorem run_grows {before middle : List Call} {view : View} (calm : Calm host (before ++ middle))
    (first : Loads host (run host before) view) :
    ∃ later, Loads host (run host (before ++ middle)) later ∧ view.Grows later := by
  induction middle using List.reverseRecOn with
  | nil => exact ⟨view, (List.append_nil before).symm ▸ first, .refl view⟩
  | append_singleton middle call ih =>
    rw [← List.append_assoc] at calm ⊢
    obtain ⟨mid, held, grows⟩ := ih (calm_before calm)
    have stepped : Stepped host reading (run host (before ++ middle)) call (call.step host (run host (before ++ middle))) :=
      step_cases canonical (sound_run canonical _ (calm_before calm)).kept
    rw [run_snoc]
    generalize call.step host (run host (before ++ middle)) = result at stepped
    cases stepped with
    | same => exact ⟨mid, held, grows⟩
    | next prior mutates kept loads renamed written =>
      next before after =>
      refine ⟨_, loads, View.Grows.read ?_⟩
      cases before with
      | none => rw [show run host _ = none from prior] at held; cases held
      | some before =>
        obtain rfl := held.unique prior
        exact grows.trans mutates.grows

/-- A call that leaves the file as it is, or puts a document in its place. -/
theorem step_installs (sound : Sound host file) (calm : call.Calm host file) :
    ((call.step host file).2 = file ∧ ∀ root, (call.step host file).1 ≠ .ok root) ∨
      ∃ prior after, Prior host file prior ∧ Mutates call prior after ∧
        Loads host (call.step host file).2 (after.read reading) ∧ Installs host reading file call after.root ∧
        ((call.step host file).1 = .ok after.root ∨ (call.step host file).1 = .crashed) := by
  have stepped : Stepped host reading file call (call.step host file) := step_cases canonical sound.kept
  unfold Installs
  generalize call.step host file = result at stepped ⊢
  cases stepped with
  | same refused => exact .inl ⟨rfl, refused⟩
  | next held mutates kept loads renamed written =>
    exact .inr ⟨_, _, held, mutates, loads, ⟨_, _, held, mutates.applied held calm renamed, loads⟩, written⟩

/-- A registry only moves forward where no activation goes unrecorded. -/
theorem registry_forward (calls : List Call) (calm : Calm host calls) : Forward host reading calls := by
  have earlier {before : List Call} (within : before <+: calls) : Calm host before := by
    obtain ⟨rest, rfl⟩ := within
    exact calm_before calm
  have sound {before : List Call} (within : before <+: calls) : Sound host (run host before) :=
    sound_run canonical before (earlier within)
  have shorter {before rest : List Call} (within : before ++ rest <+: calls) : before <+: calls :=
    (List.prefix_append before rest).trans within
  have grows {before middle : List Call} {view later : View} (within : before ++ middle <+: calls)
      (first : Loads host (run host before) view) (second : Loads host (run host (before ++ middle)) later) :
      view.Grows later := by
    obtain ⟨last, loads, grows⟩ := run_grows canonical (earlier within) first
    exact second.unique loads ▸ grows
  have step {before : List Call} {call : Call} (within : before ++ [call] <+: calls) :=
    step_installs canonical (sound (shorter within)) (calm before call within)
  constructor
  case accepted =>
    intro before call root within accepted
    obtain ⟨_, refused⟩ | ⟨prior, after, _, _, _, installs, written | written⟩ := step within
    · exact absurd accepted (refused root)
    · exact Outcome.ok.inj (written.symm.trans accepted) ▸ installs
    · cases written.symm.trans accepted
  case refused =>
    intro before call within refused
    obtain ⟨kept, _⟩ | ⟨prior, after, _, _, _, installs, written | written⟩ := step within
    · exact .inl ((run_snoc before call).trans kept)
    · exact absurd written (refused after.root)
    · exact .inr ⟨written, after.root, installs⟩
  case loads => exact fun before within => sound_loads (sound within)
  case epoch => exact fun before middle view later within first second => (grows within first second).epoch
  case revoked =>
    intro before call view later within first second changed
    rw [run_snoc] at second
    obtain ⟨kept, _⟩ | ⟨prior, after, held, mutates, loads, _, _⟩ := step within
    · rw [kept] at second
      exact absurd (congrArg View.epoch (first.unique second)) changed
    · rw [second.unique loads] at changed
      cases mutates with
      | create =>
        rw [show run host before = none from held] at first
        cases first
      | revoke op => exact ⟨_, _, op⟩
      | _ => exact absurd (congrArg View.epoch (first.unique held)) changed
  case retired =>
    intro before middle view later kid entry within first second found left
    obtain ⟨now, kept, same⟩ := (grows within first second).entry kid entry found
    refine ⟨now, kept, fun active => ?_⟩
    exact absurd (active ▸ same.retired left) (by decide)
  case once =>
    intro before middle call view kid root within first enrolls accepted
    obtain ⟨mid, loads, grows⟩ := run_grows canonical (earlier (shorter within)) first
    obtain ⟨_, refused⟩ | ⟨prior, after, held, mutates, _, _, _⟩ := step within
    · exact absurd accepted (refused root)
    · refine Option.eq_none_iff_forall_ne_some.mpr fun entry found => ?_
      obtain ⟨now, kept, _⟩ := grows.entry kid entry found
      cases mutates with
      | create op | transition op | revoke op => rw [op] at enrolls; cases enrolls
      | enroll op given free | rotate op _ _ _ _ given free =>
        rw [op] at enrolls
        cases enrolls
        rw [loads.unique held] at kept
        cases free.symm.trans kept
  case recorded =>
    intro before middle view later kid entry within first second found active
    obtain ⟨now, kept, same⟩ := (grows within first second).entry kid entry found
    exact ⟨now, kept, same.activated ((sound (shorter within)).recorded view first kid entry found active)⟩

omit canonical

/-! ## A key that is activated without a time -/

/-- A mutation under the current pin, of which the edit is one that decodes. -/
theorem revise_written {bytes written : Bytes} {doc next : Doc} {entries later : List Entry} {edit : Doc → Except Failure Doc}
    (holds : Holds host bytes doc entries) (edited : edit doc = .ok next) (decoded : decodeEntries host next = .ok later)
    (encoded : host.library.encode next.json = some written) :
    revise host (some (rootOf host bytes)) edit true (some bytes) = .ok (written, rootOf host written) := by
  simp only [revise, bind_ok_iff, expect_ok, ensure_ok, refusing_ok, pure_ok]
  exact ⟨_, rfl, doc, expect_ok.mpr holds.read, rootOf host bytes, by rw [root, holds.text]; rfl, (), decide_eq_true rfl,
    next, edited, later, decoded, written, encoded, rfl⟩

theorem step_written {written : Bytes} {root : String} (done : call.chance.writing = .done)
    (drafted : call.draft host file = .ok (written, root)) : call.step host file = (.ok root, some written) := by
  rw [Call.step, done, drafted]

/-- A hash that is always the same. -/
noncomputable def spelledHost : Registry.Host := ⟨Json.Spelling.library, fun _ => List.replicate 32 0⟩

theorem spelled_canonical : spelledHost.library.Canonical .literal where
  integer _ := rfl
  same _ := rfl
  distinct given := given
  settled _ := rfl
  again _ := rfl
  read _ encoded := Option.some.inj encoded ▸ Json.Spelling.read_json _

def pinned : Options := { pin := some (Base16.encode (List.replicate 32 0)) }

def heldKid : String := "AAAAAAAAAAAAAAAAAAAAAA"

/-- Enrolled ahead of its activation. -/
def idle : Candidate where
  kid := heldKid
  alg := "EdDSA"
  publicKey := .single (List.replicate 32 0)
  custodianId := .string "holder"
  custodyTier := some .i1
  state := some .preActivation

def storedKey (state : KeyState) : Json :=
  .object [("kid", .string heldKid), ("custodian_id", .string "holder"), ("custody_tier", .string "i1"),
    ("alg", .string "EdDSA"), ("spki_der", .string (Base64.encode (KeyRef.edPrefix ++ List.replicate 32 0))),
    ("state", .string state.name), ("activated_at", .null), ("not_after", .null), ("revocation_epoch", .int 0),
    ("attestation", .null)]

def storedDoc (state : KeyState) : Doc := ⟨0, [storedKey state]⟩

def storedEntry (state : KeyState) : Entry where
  record := {
    kid := heldKid
    alg := "EdDSA"
    publicKey := .single (List.replicate 32 0)
    custodianId := "holder"
    custodyTier := .i1
    state }
  activatedAt := none
  attestation := .null

theorem stored_key (state : KeyState) : Stored spelledHost 0 (storedKey state) (storedEntry state) := by
  refine ⟨rfl, rfl, rfl, rfl, rfl, rfl, rfl, ⟨KeyRef.edPrefix ++ List.replicate 32 0, rfl, rfl⟩, ?_, rfl, rfl, rfl,
    Nat.le_refl 0, rfl⟩
  rfl

theorem stored_decoded (state : KeyState) : decodeEntries spelledHost (storedDoc state) = .ok [storedEntry state] := by
  refine decodeEntries_iff.mpr ⟨?_, [heldKid], rfl, List.pairwise_singleton .., List.nodup_singleton _⟩
  rw [storedDoc, List.mapM_cons, decodeKey_iff.mpr (stored_key state)]
  rfl

theorem spelled_holds {doc : Doc} {entries : List Entry} (whole : doc.Distinct)
    (decoded : decodeEntries spelledHost doc = .ok entries) :
    Holds spelledHost (Json.Spelling.json doc.json) doc entries := by
  have holds := written_holds spelled_canonical whole (rfl : _ = some (Json.Spelling.json doc.json)) decoded
  have same : doc.read .literal = doc := by simp [Doc.read, Json.Reading.literal]
  have entries_same : entries.map (Entry.read .literal) = entries := List.map_id _
  rwa [same, entries_same] at holds

theorem stored_holds (state : KeyState) :
    Holds spelledHost (Json.Spelling.json (storedDoc state).json) (storedDoc state) [storedEntry state] :=
  spelled_holds (fun _ member => List.mem_singleton.mp member ▸ rfl) (stored_decoded state)

def activating : List Call :=
  [⟨.create, ⟨0, true, .done⟩⟩, ⟨.enroll idle pinned, ⟨0, true, .done⟩⟩,
    ⟨.transition heldKid (some .active) pinned, ⟨0, true, .done⟩⟩]

theorem enroll_idle : enroll spelledHost idle pinned 0 Doc.empty = .ok (storedDoc .preActivation) := rfl

theorem activate_idle : transition heldKid .active pinned 0 (storedDoc .preActivation) = .ok (storedDoc .active) := rfl

def spelled (doc : Doc) : Bytes := Json.Spelling.json doc.json

theorem activating_run : run spelledHost activating = some (spelled (storedDoc .active)) := by
  have created : (⟨.create, ⟨0, true, .done⟩⟩ : Call).step spelledHost none = (.ok _, some (spelled Doc.empty)) :=
    step_written rfl rfl
  have enrolled : (⟨.enroll idle pinned, ⟨0, true, .done⟩⟩ : Call).step spelledHost (some (spelled Doc.empty)) =
      (.ok _, some (spelled (storedDoc .preActivation))) :=
    step_written rfl (revise_written (spelled_holds nofun rfl) enroll_idle (stored_decoded _) rfl)
  have activated : (⟨.transition heldKid (some .active) pinned, ⟨0, true, .done⟩⟩ : Call).step spelledHost
      (some (spelled (storedDoc .preActivation))) = (.ok _, some (spelled (storedDoc .active))) :=
    step_written rfl (revise_written (stored_holds _) activate_idle (stored_decoded _) rfl)
  rw [activating, run, List.foldl_cons, created, List.foldl_cons, enrolled, List.foldl_cons, activated, List.foldl_nil]

/-- The key is active, and nothing says since when. -/
theorem activation_unrecorded : ¬Forward spelledHost .literal activating := by
  intro forward
  have loads : Loads spelledHost (run spelledHost activating)
      ⟨rootOf spelledHost (Json.Spelling.json (storedDoc .active).json), 0, lookup [storedEntry .active]⟩ := by
    rw [activating_run]
    exact (stored_holds .active).load
  obtain ⟨now, found, recorded⟩ := forward.recorded activating [] _ _ heldKid (storedEntry .active)
    ((List.append_nil activating).symm ▸ List.prefix_refl activating) loads (by rw [List.append_nil]; exact loads) rfl rfl
  obtain rfl := Option.some.inj ((rfl : _ = some (storedEntry .active)).symm.trans found)
  exact recorded rfl

/-- An active key that is suspended and then revoked while the system stops. -/
def revoking : List Call :=
  [⟨.create, ⟨0, true, .done⟩⟩, ⟨.enroll { idle with state := some .active } pinned, ⟨7, true, .done⟩⟩,
    ⟨.transition heldKid (some .suspended) pinned, ⟨8, true, .done⟩⟩, ⟨.revoke heldKid pinned, ⟨9, true, .stopped true⟩⟩]

theorem revoking_forward : Forward spelledHost .literal revoking := by
  refine registry_forward spelled_canonical revoking fun before call within kid opts view entry op => ?_
  have member : call ∈ revoking := within.subset (List.mem_append_right _ (List.mem_singleton_self call))
  simp only [revoking, List.mem_cons, List.not_mem_nil, or_false] at member
  obtain rfl | rfl | rfl | rfl := member <;> simp at op

end AshA2A.Sa2aCrypto.Registry
