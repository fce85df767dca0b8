import AshA2A.Proofs.RegistryEdits

/-! Registry files: what is written is read back, and what one call does to the view. -/

namespace AshA2A.Sa2aCrypto.Registry

/-! ## Files -/

section Files

variable {host : Host} {reading : Json.Reading} (canonical : host.library.Canonical reading)

/-- The document as it is read back. -/
def Doc.read (reading : Json.Reading) (doc : Doc) : Doc := { doc with keys := doc.keys.map reading.value }

/-- A file with a document of which every key is sound. -/
structure Holds (host : Host) (file : Bytes) (doc : Doc) (entries : List Entry) : Prop where
  read : readDoc host file = some doc
  text : host.library.encode doc.json = some file
  distinct : doc.Distinct
  decoded : decodeEntries host doc = .ok entries

theorem Holds.load {file : Bytes} {doc : Doc} {entries : List Entry} (holds : Holds host file doc entries) :
    load host (some file) (rootOf host file) = .ok ⟨rootOf host file, doc.epoch, lookup entries⟩ := by
  have root : root host doc = .ok (rootOf host file) := by
    rw [Registry.root, holds.text]
    rfl
  rw [Registry.load, readFile, holds.read]
  simp only [bind_ok_iff, expect_ok, ensure_ok, refusing_ok, pure_ok]
  exact ⟨doc, rfl, _, root, (), decide_eq_true rfl, entries, holds.decoded, rfl⟩

theorem json_distinct {doc : Doc} (whole : doc.Distinct) : doc.json.distinct := by
  rw [Doc.json, Json.distinct_object]
  refine ⟨show ["v", "epoch", "keys"].Nodup by decide, ?_⟩
  simp only [List.forall_mem_cons]
  exact ⟨rfl, rfl, Json.distinct_array.mpr whole, List.forall_mem_nil _⟩

include canonical

theorem value_json (doc : Doc) : reading.value doc.json = .object ((reading.members
    [("v", .int 1), ("epoch", .int doc.epoch), ("keys", .array (doc.keys.map reading.value))])) := by
  rw [Doc.json, reading.object, ← reading.natural]
  simp [canonical.integer, reading.array]

theorem read_json (doc : Doc) : reading.value (doc.read reading).json = reading.value doc.json := by
  rw [value_json canonical, value_json canonical]
  simp [Doc.read, Function.comp_def, canonical.settled]

/-- What is written is read back. -/
theorem readDoc_written {doc : Doc} {bytes : Bytes} (whole : doc.Distinct) (written : host.library.encode doc.json = some bytes) :
    readDoc host bytes = some (doc.read reading) ∧ host.library.encode (doc.read reading).json = some bytes ∧
      (doc.read reading).Distinct := by
  refine ⟨?_, ?_, ?_⟩
  · have decoded := canonical.read (json_distinct whole) written
    have strict : host.library.strict bytes = some (reading.value doc.json) := by
      rw [Json.Library.strict, decoded, Option.filter_some, if_pos (canonical.distinct (json_distinct whole))]
    have keys : (reading.value doc.json).hasKeys ["v", "epoch", "keys"] := reading.hasKeys_value rfl
    have version : (reading.value doc.json).get? "v" = some (.int 1) := by
      rw [reading.get?_value]
      exact congrArg some (canonical.integer 1)
    have epoch : (reading.value doc.json).nat? "epoch" = some doc.epoch := by
      rw [Json.nat?_iff, reading.get?_value]
      exact congrArg some (canonical.integer doc.epoch)
    have items : (reading.value doc.json).get? "keys" = some (.array (doc.keys.map reading.value)) := by
      rw [reading.get?_value]
      exact congrArg some (reading.array doc.keys)
    rw [readDoc, strict, Option.bind_eq_bind, Option.bind_some, keys, version, epoch, items]
    rfl
  · rw [← canonical.again, read_json canonical, canonical.again, written]
  · intro key member
    obtain ⟨stored, given, rfl⟩ := List.mem_map.mp member
    exact canonical.distinct (whole stored given)

theorem decodeEntries_read {doc : Doc} {entries : List Entry} (decoded : decodeEntries host doc = .ok entries) :
    decodeEntries host (doc.read reading) = .ok (entries.map (Entry.read reading)) := by
  obtain ⟨each, kids, named, ordered⟩ := decodeEntries_iff.mp decoded
  refine decodeEntries_iff.mpr ⟨?_, kids, ?_, ordered⟩
  · refine mapM_ok_map (fun key _ entry given => ?_) each
    exact decodeKey_iff.mpr ((decodeKey_iff.mp given).read canonical.integer)
  · rw [← named, Doc.read]
    dsimp only
    rw [List.mapM_map]
    refine congrArg (fun read => doc.keys.mapM read) (funext fun key => ?_)
    exact reading.string?_value key

theorem written_holds {doc : Doc} {entries : List Entry} {bytes : Bytes} (whole : doc.Distinct)
    (written : host.library.encode doc.json = some bytes) (decoded : decodeEntries host doc = .ok entries) :
    Holds host bytes (doc.read reading) (entries.map (Entry.read reading)) :=
  let ⟨read, text, distinct⟩ := readDoc_written canonical whole written
  ⟨read, text, distinct, decodeEntries_read canonical decoded⟩

end Files

/-! ## Views -/

section Views

variable {host : Host} {reading : Json.Reading} {file : Option Bytes} {view later : View} {call : Call}

def View.read (reading : Json.Reading) (view : View) : View :=
  { view with entry := fun kid => (view.entry kid).map (Entry.read reading) }

/-- The file loads under the root of the view. -/
def Loads (host : Host) (file : Option Bytes) (view : View) : Prop := load host file view.root = .ok view

/-- What the file holds, if there is one. -/
def Prior (host : Host) (file : Option Bytes) : Option View → Prop
  | none => file = none
  | some view => Loads host file view

theorem Loads.unique (first : Loads host file view) (second : Loads host file later) : view = later := by
  unfold Loads load at first second
  simp only [bind_ok_iff, refusing_ok, pure_ok] at first second
  obtain ⟨doc, read, root, given, _, _, entries, decoded, rfl⟩ := first
  obtain ⟨doc', read', root', given', _, _, entries', decoded', rfl⟩ := second
  obtain rfl := Except.ok.inj (read.symm.trans read')
  obtain rfl := Except.ok.inj (given.symm.trans given')
  obtain rfl := Except.ok.inj (decoded.symm.trans decoded')
  rfl

theorem lookup_read (entries : List Entry) (kid : String) :
    lookup (entries.map (Entry.read reading)) kid = (lookup entries kid).map (Entry.read reading) := by
  rw [lookup, List.find?_map]
  rfl

/-- The mutation of a view. -/
def Call.applied (call : Call) (root : String) : Option View → Option View
  | none =>
    match call.op with
    | .create => some ⟨root, 0, fun _ => none⟩
    | _ => none
  | some view =>
    match call.op with
    | .enroll candidate opts => do
      let entry ← candidate.entry opts call.chance.clock view.epoch
      return ⟨root, view.epoch, Function.update view.entry candidate.kid (some entry)⟩
    | .transition kid (some target) opts => do
      let entry ← view.entry kid
      let time ← intOrNil (if target = .active ∧ entry.activatedAt = none then now opts call.chance.clock
        else orNil entry.activatedAt)
      let moved := entry.amended target entry.record.notAfter entry.record.revocationEpoch
      return ⟨root, view.epoch, Function.update view.entry kid (some { moved with activatedAt := time })⟩
    | .revoke kid opts => do
      let entry ← view.entry kid
      let epoch ← (nextEpoch opts view.epoch).toOption
      let revoked := entry.amended .compromised entry.record.notAfter epoch
      return ⟨root, epoch, Function.update view.entry kid (some revoked)⟩
    | .rotate oldKid candidate opts => do
      let old ← view.entry oldKid
      let cap ← plus (now opts call.chance.clock) opts.overlap
      let notAfter ← intOrNil (earlier (orNil old.record.notAfter) cap)
      let entry ← candidate.entry opts call.chance.clock view.epoch
      let capped := old.amended .active notAfter old.record.revocationEpoch
      return ⟨root, view.epoch,
        Function.update (Function.update view.entry oldKid (some capped)) candidate.kid (some entry)⟩
    | _ => none

/-- What a mutation that passes its checks does to the view. -/
inductive Mutates (call : Call) : Option View → View → Prop where
  | create {root : String} (op : call.op = .create) : Mutates call none ⟨root, 0, fun _ => none⟩
  | enroll {view : View} {root : String} {candidate : Candidate} {opts : Options} {entry : Entry}
      (op : call.op = .enroll candidate opts) (given : candidate.entry opts call.chance.clock view.epoch = some entry)
      (free : view.entry candidate.kid = none) :
      Mutates call (some view) ⟨root, view.epoch, Function.update view.entry candidate.kid (some entry)⟩
  | transition {view : View} {root kid : String} {target : KeyState} {opts : Options} {entry : Entry}
      (op : call.op = .transition kid (some target) opts) (readable : call.chance.readable)
      (pinned : opts.pin = some view.root) (found : view.entry kid = some entry)
      (allowed : Lifecycle.allowed entry.record.state target) :
      Mutates call (some view) ⟨root, view.epoch, Function.update view.entry kid
        (some (entry.amended target entry.record.notAfter entry.record.revocationEpoch))⟩
  | revoke {view : View} {root kid : String} {opts : Options} {entry : Entry} {epoch : Nat}
      (op : call.op = .revoke kid opts) (found : view.entry kid = some entry)
      (allowed : Lifecycle.allowed entry.record.state .compromised) (next : nextEpoch opts view.epoch = .ok epoch) :
      Mutates call (some view) ⟨root, epoch, Function.update view.entry kid
        (some (entry.amended .compromised entry.record.notAfter epoch))⟩
  | rotate {view : View} {root oldKid : String} {candidate : Candidate} {opts : Options} {old entry : Entry} {cap : Json}
      {notAfter : Option Int} (op : call.op = .rotate oldKid candidate opts) (found : view.entry oldKid = some old)
      (active : old.record.state = .active) (capGiven : plus (now opts call.chance.clock) opts.overlap = some cap)
      (capped : intOrNil (earlier (orNil old.record.notAfter) cap) = some notAfter)
      (given : candidate.entry opts call.chance.clock view.epoch = some entry) (free : view.entry candidate.kid = none) :
      Mutates call (some view) ⟨root, view.epoch, Function.update
        (Function.update view.entry oldKid (some (old.amended .active notAfter old.record.revocationEpoch)))
        candidate.kid (some entry)⟩

/-- The new document takes the place of the file. -/
def Chance.Renamed (chance : Chance) : Prop := chance.writing = .done ∨ chance.writing = .stopped true

/-- A key whose activation is not recorded is not activated. -/
def Call.Calm (host : Host) (file : Option Bytes) (call : Call) : Prop :=
  ∀ kid opts view entry, call.op = .transition kid (some .active) opts → Loads host file view →
    opts.pin = some view.root → view.entry kid = some entry → Lifecycle.allowed entry.record.state .active →
      call.chance.readable → call.chance.Renamed → entry.activatedAt ≠ none

theorem Mutates.applied {prior : Option View} (mutates : Mutates call prior later) (held : Prior host file prior)
    (calm : call.Calm host file) (renamed : call.chance.Renamed) : call.applied later.root prior = some later := by
  cases mutates with
  | create op => simp [Call.applied, op]
  | enroll op given free => simp [Call.applied, op, given]
  | transition op readable pinned found allowed =>
    next view root kid target opts entry =>
    have recorded : ¬(target = .active ∧ entry.activatedAt = none) := by
      rintro ⟨rfl, missing⟩
      exact calm kid opts view entry op held pinned found allowed readable renamed missing
    simp only [Call.applied, op, found, Option.bind_eq_bind, Option.bind_some, if_neg recorded,
      intOrNil_iff.mpr (rfl : orNil entry.activatedAt = orNil entry.activatedAt)]
    rfl
  | revoke op found allowed next => simp [Call.applied, op, found, next, Except.toOption]
  | rotate op found active capGiven capped given free => simp [Call.applied, op, found, capGiven, capped, given]

/-! ## Calls -/

/-- The file is one that loads, if there is one. -/
def Kept (host : Host) (file : Option Bytes) : Prop :=
  ∀ bytes, file = some bytes → ∃ doc entries, Holds host bytes doc entries

/-- What a call can do to the file. -/
inductive Stepped (host : Host) (reading : Json.Reading) (file : Option Bytes) (call : Call) :
    Outcome × Option Bytes → Prop where
  | same {outcome : Outcome} (refused : ∀ root, outcome ≠ .ok root)
      (kept : outcome = .crashed → call.chance.writing = .stopped false) : Stepped host reading file call (outcome, file)
  | next {outcome : Outcome} {bytes : Bytes} {prior : Option View} {after : View} (held : Prior host file prior)
      (mutates : Mutates call prior after) (kept : Kept host (some bytes))
      (loads : Loads host (some bytes) (after.read reading)) (renamed : call.chance.Renamed)
      (written : outcome = .ok after.root ∨ outcome = .crashed) : Stepped host reading file call (outcome, some bytes)

variable (canonical : host.library.Canonical reading)

include canonical

theorem written_loads {doc : Doc} {entries : List Entry} {bytes : Bytes} (whole : doc.Distinct)
    (written : host.library.encode doc.json = some bytes) (decoded : decodeEntries host doc = .ok entries) :
    Kept host (some bytes) ∧
      Loads host (some bytes) (View.read reading ⟨rootOf host bytes, doc.epoch, lookup entries⟩) := by
  have holds := written_holds canonical whole written decoded
  refine ⟨fun _ same => Option.some.inj same ▸ ⟨_, _, holds⟩, holds.load.trans ?_⟩
  rw [View.read, Doc.read]
  exact congrArg Except.ok (by rw [funext (lookup_read entries)])

/-- What a mutation writes, where its edit is one of the view. -/
theorem revise_ok {pin : Option String} {edit : Doc → Except Failure Doc} {readable : Bool} {bytes : Bytes} {root : String}
    (kept : Kept host file) (revised : revise host pin edit readable file = .ok (bytes, root))
    (edits : ∀ {doc next entries later}, decodeEntries host doc = .ok entries → edit doc = .ok next →
      decodeEntries host next = .ok later → (doc.Distinct → next.Distinct) ∧
        ∀ old, pin = some old → readable = true →
          Mutates call (some ⟨old, doc.epoch, lookup entries⟩) ⟨root, next.epoch, lookup later⟩) :
    ∃ prior after, Prior host file prior ∧ Mutates call prior after ∧ after.root = root ∧ Kept host (some bytes) ∧
      Loads host (some bytes) (after.read reading) := by
  simp only [revise, bind_ok_iff, expect_ok, ensure_ok, refusing_ok, pure_ok, Prod.mk.injEq] at revised
  obtain ⟨old, rfl, doc, read, stored, rooted, _, pinned, next, edited, later, after, _, written, rfl, rfl⟩ := revised
  obtain rfl := of_decide_eq_true pinned
  unfold readFile at read
  split at read
  next bytes' =>
    obtain ⟨doc', entries, holds⟩ := kept bytes' rfl
    obtain rfl := Option.some.inj (holds.read.symm.trans (expect_ok.mp read))
    have root : stored = rootOf host bytes' := by
      rw [Registry.root, holds.text] at rooted
      exact (Except.ok.inj rooted).symm
    obtain ⟨distinct, mutates⟩ := edits holds.decoded edited after
    obtain ⟨kept, loads⟩ := written_loads canonical (distinct holds.distinct) written after
    exact ⟨_, _, by rw [root]; exact holds.load, mutates stored rfl rfl, rfl, kept, loads⟩
  next => cases read
  next => cases read

theorem draft_ok {bytes : Bytes} {root : String} (kept : Kept host file) (drafted : call.draft host file = .ok (bytes, root)) :
    ∃ prior after, Prior host file prior ∧ Mutates call prior after ∧ after.root = root ∧ Kept host (some bytes) ∧
      Loads host (some bytes) (after.read reading) := by
  unfold Call.draft at drafted
  split at drafted
  next op =>
    simp only [create, bind_ok_iff, expect_ok, ensure_ok, pure_ok, Prod.mk.injEq, Option.isNone_iff_eq_none] at drafted
    obtain ⟨_, missing, _, written, rfl, rfl⟩ := drafted
    have whole : Doc.empty.Distinct := List.forall_mem_nil _
    obtain ⟨kept, loads⟩ := written_loads canonical whole written rfl
    exact ⟨none, _, missing, .create op, rfl, kept, loads⟩
  next candidate opts op =>
    refine revise_ok canonical kept drafted fun before edited after => ?_
    obtain ⟨entry, given, free, _, epoch, shows, distinct⟩ := enroll_ok (shows_lookup before) edited after
    refine ⟨distinct, fun old _ _ => ?_⟩
    rw [epoch, (shows_lookup after).unique shows]
    exact .enroll op given free
  next => cases drafted
  next kid target opts op =>
    refine revise_ok canonical kept drafted fun before edited after => ?_
    obtain ⟨entry, found, allowed, epoch, shows, distinct⟩ := transition_ok before (shows_lookup before) edited
    refine ⟨distinct, fun old pinned readable => ?_⟩
    rw [epoch, (shows_lookup after).unique shows]
    exact .transition op readable pinned found allowed
  next kid opts op =>
    refine revise_ok canonical kept drafted fun before edited after => ?_
    obtain ⟨entry, epoch, found, next, allowed, rfl, shows, distinct⟩ := revoke_ok before (shows_lookup before) edited
    refine ⟨distinct, fun old _ _ => ?_⟩
    rw [(shows_lookup after).unique shows]
    exact .revoke op found allowed next
  next oldKid candidate opts op =>
    refine revise_ok canonical kept drafted fun before edited after => ?_
    obtain ⟨old, cap, notAfter, entry, found, active, capGiven, capped, given, _, free, epoch, shows, distinct⟩ :=
      rotate_ok before (shows_lookup before) edited after
    refine ⟨distinct, fun _ _ _ => ?_⟩
    rw [epoch, (shows_lookup after).unique shows]
    exact .rotate op found active capGiven capped given free

theorem step_cases (kept : Kept host file) : Stepped host reading file call (call.step host file) := by
  unfold Call.step
  split
  next writing => exact .same nofun fun _ => writing
  next => exact .same nofun nofun
  next => exact .same nofun nofun
  next bytes root writing drafted =>
    obtain ⟨prior, after, held, mutates, rfl, kept, loads⟩ := draft_ok canonical kept drafted
    exact .next held mutates kept loads (.inl writing) (.inl rfl)
  next => exact .same nofun nofun
  next bytes root writing drafted =>
    obtain ⟨prior, after, held, mutates, _, kept, loads⟩ := draft_ok canonical kept drafted
    exact .next held mutates kept loads (.inr writing) (.inr rfl)

end Views

end AshA2A.Sa2aCrypto.Registry
