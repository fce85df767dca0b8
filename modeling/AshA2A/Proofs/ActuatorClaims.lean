import AshA2A.Actuator.Store
import AshA2A.Proofs.ActuatorChain
import AshA2A.Term

/-! What the journal of the actuator can look like after any failed write and any stop, and
what it says about claims and nonces. -/

namespace AshA2A.Actuator.Store

open Sa2aCrypto Concurrency AppendLog

variable {host : Host}

/-! ## Claims -/

def Claimed (events : List Json) (instanceId : String) : Prop :=
  ∃ event ∈ events, event.string? "t" = some "executing" ∧ event.string? "instance_id" = some instanceId

/-- A claim of the instance carries the nonce. -/
def Owned (events : List Json) (nonce : String × String) (instanceId : String) : Prop :=
  ∃ event ∈ events, event.string? "t" = some "executing" ∧ event.string? "instance_id" = some instanceId ∧
    ∃ nonces, Folded.nonces event = some nonces ∧ nonce ∈ nonces

def Consistent (events : List Json) : Prop :=
  ∀ nonce first second, Owned events nonce first → Owned events nonce second → first = second

/-- A claim is of a new instance, and carries no nonce of another one. -/
def Fits (events : List Json) : Event → Prop
  | .executing instanceId _ _ nonces =>
    ¬ Claimed events instanceId ∧ ∀ nonce ∈ nonces, ∀ owner, Owned events nonce owner → owner = instanceId
  | _ => True

variable {events : List Json} {event : Event} {time : Int} {seq : Nat} {prev hash : String}

theorem Claimed.append {instanceId : String} (claimed : Claimed events instanceId) (line : Json) :
    Claimed (events ++ [line]) instanceId := by
  obtain ⟨event, member, facts⟩ := claimed
  exact ⟨event, List.mem_append_left _ member, facts⟩

theorem Owned.append {instanceId : String} {nonce : String × String} (owned : Owned events nonce instanceId)
    (line : Json) : Owned (events ++ [line]) nonce instanceId := by
  obtain ⟨event, member, facts⟩ := owned
  exact ⟨event, List.mem_append_left _ member, facts⟩

theorem claimed_append_iff {instanceId : String} :
    Claimed (events ++ [Ledger.line (event.fields time) seq prev hash]) instanceId ↔
      Claimed events instanceId ∨ event.kind = "executing" ∧ event.instanceId = instanceId := by
  simp only [Claimed, List.mem_append, List.mem_singleton]
  constructor
  · rintro ⟨other, member | rfl, kind, named⟩
    · exact .inl ⟨other, member, kind, named⟩
    · simp only [Event.line_kind, Event.line_instance, Option.some.injEq] at kind named
      exact .inr ⟨kind, named⟩
  · rintro (⟨other, member, facts⟩ | ⟨kind, rfl⟩)
    · exact ⟨other, .inl member, facts⟩
    · exact ⟨_, .inr rfl, by simp [kind], by simp⟩

theorem owned_append_claim {instanceId owner : String} {generation : Nat} {digest : String}
    {nonces : List (String × String)} {nonce : String × String} :
    Owned (events ++
        [Ledger.line ((Event.executing instanceId generation digest nonces).fields time) seq prev hash])
      nonce owner ↔ Owned events nonce owner ∨ instanceId = owner ∧ nonce ∈ nonces := by
  simp only [Owned, List.mem_append, List.mem_singleton]
  constructor
  · rintro ⟨other, member | rfl, kind, named, carried⟩
    · exact .inl ⟨other, member, kind, named, carried⟩
    · obtain ⟨given, same, member⟩ := carried
      simp only [Event.line_instance, Event.line_nonces, Option.some.injEq] at named same
      subst same
      exact .inr ⟨named, member⟩
  · rintro (⟨other, member, facts⟩ | ⟨rfl, member⟩)
    · exact ⟨other, .inl member, facts⟩
    · exact ⟨_, .inr rfl, by simp [Event.kind], by simp [Event.instanceId], nonces, by simp, member⟩

theorem owned_append_other {nonce : String × String} {owner : String} (other : event.kind ≠ "executing") :
    Owned (events ++ [Ledger.line (event.fields time) seq prev hash]) nonce owner ↔ Owned events nonce owner := by
  refine ⟨?_, fun owned => owned.append _⟩
  rintro ⟨claim, member, kind, facts⟩
  obtain member | member := List.mem_append.mp member
  · exact ⟨claim, member, kind, facts⟩
  · rw [List.mem_singleton.mp member, Event.line_kind, Option.some.injEq] at kind
    exact absurd kind other

theorem Consistent.append (consistent : Consistent events) (fits : Fits events event) :
    Consistent (events ++ [Ledger.line (event.fields time) seq prev hash]) := by
  intro nonce first second left right
  cases event with
  | executing instanceId generation digest nonces =>
    rw [owned_append_claim] at left right
    obtain left | ⟨rfl, member⟩ := left
    · obtain right | ⟨rfl, member⟩ := right
      · exact consistent nonce first second left right
      · exact fits.2 nonce member first left
    · obtain right | ⟨rfl, _⟩ := right
      · exact (fits.2 nonce member second right).symm
      · rfl
  | _ =>
    rw [owned_append_other (by simp [Event.kind])] at left right
    exact consistent nonce first second left right

/-! ## Survivors -/

/-- Whatever a stop leaves of the journal: if its chain is accepted then it is this one, or
this one with one more line. -/
structure Tracks (host : Host) (facts : List Json → Prop) (log : Log Json) (events : List Json) : Prop where
  begins : log.synced.lines <+: log.file.lines
  holds : facts events
  left : ∀ lines, log.synced.lines <+: lines → lines <+: log.file.lines → ∀ chain,
    Ledger.verify host ⟨lines, false⟩ = .ok chain →
    chain.events = events ∨ ∃ line, chain.events = events ++ [line] ∧ facts (events ++ [line])

variable {facts other : List Json → Prop} {log : Log Json}

theorem Tracks.weaken (tracks : Tracks host facts log events)
    (now : facts events → other events)
    (next : ∀ line, facts (events ++ [line]) → other (events ++ [line])) : Tracks host other log events := by
  refine ⟨tracks.begins, now tracks.holds, fun lines first last chain verified => ?_⟩
  obtain same | ⟨line, same, holds⟩ := tracks.left lines first last chain verified
  · exact .inl same
  · exact .inr ⟨line, same, next line holds⟩

/-- The seq of the line decides behind which chain it can stand. -/
theorem Tracks.last {line : Json} {chain : Chain} (tracks : Tracks host facts log events)
    (plain : line.lastWins = line) (position : line.number? "seq" = some (events.length : Rat))
    (verified : Ledger.verify host (log.file.write line .whole) = .ok chain) :
    chain.events = events ++ [line] := by
  obtain ⟨event, before, given, accepted, linked⟩ := Ledger.verify_snoc verified
  have same : line = event := by
    split at given
    · cases given
    · exact Option.some.inj given
  subst same
  rw [plain] at linked
  obtain ⟨seq, _, _, _, _, rfl⟩ := Ledger.link_ok linked
  rw [position, Option.some.injEq, Rat.natCast_inj] at seq
  have ends : before.events = events := by
    obtain same | ⟨extra, longer, _⟩ := tracks.left log.file.lines tracks.begins List.prefix_rfl before
      ((Ledger.verify_lines rfl).symm.trans accepted)
    · exact same
    · rw [longer] at seq
      simp at seq
  exact congrArg (· ++ [line]) ends

theorem Tracks.write {line : Json} (tracks : Tracks host facts log events) (plain : line.lastWins = line)
    (position : line.number? "seq" = some (events.length : Rat)) (next : facts (events ++ [line]))
    (landed : Landed) : Tracks host facts (log.write line landed) events := by
  cases landed with
  | nothing => exact tracks
  | part => exact ⟨tracks.begins, tracks.holds, tracks.left⟩
  | whole =>
    refine ⟨tracks.begins.trans (List.prefix_append _ _), tracks.holds, fun lines first last chain verified => ?_⟩
    obtain rfl | shorter := List.prefix_concat_iff.mp last
    · exact .inr ⟨line, tracks.last plain position verified, next⟩
    · exact tracks.left lines first shorter chain verified

theorem Tracks.append {line : Json} (tracks : Tracks host facts log events) (plain : line.lastWins = line)
    (position : line.number? "seq" = some (events.length : Rat)) (next : facts (events ++ [line])) :
    Tracks host facts (log.write line .whole).sync (events ++ [line]) := by
  refine ⟨List.prefix_rfl, next, fun lines first last chain verified => .inl ?_⟩
  have same : lines = (log.file.write line .whole).lines := last.eq_of_length_le first.length_le
  subst same
  exact tracks.last plain position ((Ledger.verify_lines rfl).trans verified)

/-! ## What a request does -/

variable {disk after : Disk} {choice : Choice} {allowed : Op → Choice → Disk → Prop} {always : Disk → Prop}
  {live : Prop} {α : Type}

theorem exec_clock {reply : Int} (served : machine.exec () .clock choice disk = some (reply, after)) :
    after = disk := by
  cases choice <;> cases served
  rfl

theorem exec_write {which : Which} {line : Json} {reply : Bool}
    (served : machine.exec () (.write which line) choice disk = some (reply, after)) :
    after = disk.write which line choice.landed ∧
      (reply = true → choice = .served) ∧ (reply = false → ∃ landed, choice = .fails landed) := by
  cases choice <;> cases served
  · exact ⟨rfl, fun _ => rfl, nofun⟩
  · exact ⟨rfl, nofun, fun _ => ⟨_, rfl⟩⟩

theorem exec_sync {which : Which} {reply : Bool}
    (served : machine.exec () (.sync which) choice disk = some (reply, after)) :
    reply = true ∧ after = disk.sync which ∨
      reply = false ∧ after = disk ∧ ∃ landed, choice = .fails landed := by
  cases choice <;> cases served
  · exact .inl ⟨rfl, rfl⟩
  · exact .inr ⟨rfl, rfl, _, rfl⟩

theorem exec_writeAnchor {anchor : Anchor} {reply : Bool}
    (served : machine.exec () (.writeAnchor anchor) choice disk = some (reply, after)) :
    reply = true ∧ after = { disk with anchor := some anchor } ∨
      reply = false ∧ after = disk ∧ ∃ landed, choice = .fails landed := by
  cases choice <;> cases served
  · exact .inl ⟨rfl, rfl⟩
  · exact .inr ⟨rfl, rfl, _, rfl⟩

theorem exec_trim {which : Which} {reply : Bool}
    (served : machine.exec () (.trim which) choice disk = some (reply, after)) :
    reply = true ∧ after = disk.trim which ∨ reply = false ∧ after = disk ∧ ∃ landed, choice = .fails landed := by
  cases choice <;> cases served
  · exact .inl ⟨rfl, rfl⟩
  · exact .inr ⟨rfl, rfl, _, rfl⟩

theorem exec_read {which : Which} {reply : Option (File Json)}
    (served : machine.exec () (.read which) choice disk = some (reply, after)) :
    after = disk ∧ (∀ file, reply = some file → file = (disk.log which).file) ∧
      (reply = none → ∃ landed, choice = .fails landed) := by
  cases choice <;> cases served
  · exact ⟨rfl, fun _ same => (Option.some.inj same).symm, nofun⟩
  · exact ⟨rfl, nofun, fun _ => ⟨_, rfl⟩⟩

theorem exec_readAnchor {reply : Anchor.Found}
    (served : machine.exec () .readAnchor choice disk = some (reply, after)) :
    after = disk ∧ (reply = disk.readAnchor ∨ ∃ landed, choice = .fails landed) := by
  cases choice <;> cases served
  · exact ⟨rfl, .inl rfl⟩
  · exact ⟨rfl, .inr ⟨_, rfl⟩⟩

theorem exec_open {which : Which} {reply : Bool}
    (served : machine.exec () (.open which) choice disk = some (reply, after)) :
    after = disk ∧ (reply = false → ∃ landed, choice = .fails landed) := by
  cases choice <;> cases served
  · exact ⟨rfl, nofun⟩
  · exact ⟨rfl, fun _ => ⟨_, rfl⟩⟩

/-- Where the program must not be left alone, every request can be served. -/
def Attended (allowed : Op → Choice → Disk → Prop) (live : Prop) : Prop :=
  live → ∀ op choice disk, Served op choice disk → allowed op choice disk

theorem Attended.serve {op : Op} (attended : Attended allowed live) (real : op ≠ .raise) (alive : live) :
    ∃ choice reply after, allowed op choice disk ∧ machine.exec () op choice disk = some (reply, after) := by
  have permitted := attended alive op
  cases op with
  | clock => exact ⟨.clock 0, _, _, permitted (.clock 0) disk trivial, rfl⟩
  | raise => exact absurd rfl real
  | _ => exact ⟨.served, _, _, permitted .served disk trivial, rfl⟩

/-! ## Appends -/

/-- The states of the disk while a line is appended. -/
inductive Handing (allowed : Op → Choice → Disk → Prop) (disk : Disk) (which : Which) (line : Json) :
    Disk → Prop where
  | start : Handing allowed disk which line disk
  | written {choice : Choice} (permitted : allowed (.write which line) choice disk) :
      Handing allowed disk which line (disk.write which line choice.landed)
  | synced (permitted : allowed (.write which line) .served disk) :
      Handing allowed disk which line ((disk.write which line .whole).sync which)

/-- An append that failed, in the write or after it. -/
inductive Lost (allowed : Op → Choice → Disk → Prop) (disk : Disk) (which : Which) (line : Json) :
    Disk → Prop where
  | unwritten {landed : Landed} (permitted : allowed (.write which line) (.fails landed) disk) :
      Lost allowed disk which line (disk.write which line landed)
  | unsynced {landed : Landed} (permitted : allowed (.write which line) .served disk)
      (failed : allowed (.sync which) (.fails landed) (disk.write which line .whole)) :
      Lost allowed disk which line (disk.write which line .whole)

theorem append_proceeds {which : Which} {line : Json} {good unsynced unwritten : Code α} {post : α → Disk → Prop}
    (attended : Attended allowed live) (kept : ∀ last, Handing allowed disk which line last → always last)
    (goes : allowed (.write which line) .served disk →
      machine.Proceeds allowed live always post good ((disk.write which line .whole).sync which))
    (unsyncs : ∀ last, always last → Lost allowed disk which line last →
      machine.Proceeds allowed live always post unsynced last)
    (unwrites : ∀ last, always last → Lost allowed disk which line last →
      machine.Proceeds allowed live always post unwritten last) :
    machine.Proceeds allowed live always post
      (do if ← Code.write which line then
            if ← Code.sync which then good else unsynced
          else unwritten) disk := by
  refine .ask (kept _ .start) (attended.serve nofun) fun choice reply _ permitted served => ?_
  obtain ⟨rfl, whole, failed⟩ := exec_write served
  have written := kept _ (.written permitted)
  cases reply with
  | false =>
    obtain ⟨landed, rfl⟩ := failed rfl
    exact unwrites _ written (.unwritten permitted)
  | true =>
    obtain rfl := whole rfl
    refine .ask written (attended.serve nofun) fun choice reply _ refused served => ?_
    obtain ⟨rfl, rfl⟩ | ⟨rfl, rfl, landed, rfl⟩ := exec_sync served
    · exact goes permitted
    · exact unsyncs _ written (.unsynced permitted refused)

/-- The states of the disk while a line is appended to the journal and anchored. -/
inductive Journaling (allowed : Op → Choice → Disk → Prop) (disk : Disk) (line : Json) (anchor : Anchor) :
    Disk → Prop where
  | handing {last : Disk} (handing : Handing allowed disk .journal line last) :
      Journaling allowed disk line anchor last
  | anchored (permitted : allowed (.write .journal line) .served disk) :
      Journaling allowed disk line anchor
        { (disk.write .journal line .whole).sync .journal with anchor := some anchor }

/-- The store after it journaled a line with this hash. -/
def advanced (store : Store) (hash : String) : Store := { store with jseq := store.jseq + 1, jhead := hash }

/-- What became of an append to the journal. -/
inductive Journaled (host : Host) (allowed : Op → Choice → Disk → Prop) (store : Store) (event : Event)
    (disk : Disk) : Bool × Store → Disk → Prop where
  | failed {time : Int} {line : Json} {hash : String} {last : Disk}
      (chains : Ledger.chained host (event.fields time) store.jseq store.jhead = some (line, hash))
      (lost : Lost allowed disk .journal line last) : Journaled host allowed store event disk (false, store) last
  | durable {time : Int} {line : Json} {hash : String} {anchor : Option Anchor}
      (chains : Ledger.chained host (event.fields time) store.jseq store.jhead = some (line, hash))
      (permitted : allowed (.write .journal line) .served disk)
      (anchored : anchor = disk.anchor ∨ anchor = some (store.advanced hash).anchorFields) :
      Journaled host allowed store event disk (true, store.advanced hash)
        { (disk.write .journal line .whole).sync .journal with anchor := anchor }

theorem journal_proceeds {store : Store} {event : Event} (attended : Attended allowed live)
    (encodes : live → ∀ time, Ledger.chained host (event.fields time) store.jseq store.jhead ≠ none)
    (start : always disk)
    (kept : ∀ time line hash last, Ledger.chained host (event.fields time) store.jseq store.jhead = some (line, hash) →
      Journaling allowed disk line (store.advanced hash).anchorFields last → always last) :
    machine.Proceeds allowed live always (Journaled host allowed store event disk) (store.journal host event)
      disk := by
  refine .ask start (attended.serve nofun) fun choice time _ _ served => ?_
  obtain rfl := exec_clock served
  cases chains : Ledger.chained host (event.fields time) store.jseq store.jhead with
  | none => exact ⟨start, fun alive => absurd chains (encodes alive time), fun _ reply => reply.elim⟩
  | some given =>
    obtain ⟨line, hash⟩ := given
    have kept := fun last => kept time line hash last chains
    refine append_proceeds attended (fun last handing => kept last (.handing handing)) (fun permitted => ?_)
      (fun last kept lost => .pure kept (.failed chains lost)) fun last kept lost => .pure kept (.failed chains lost)
    have synced := kept _ (.handing (.synced permitted))
    refine .ask synced (attended.serve nofun) fun choice reply _ _ served => ?_
    obtain ⟨rfl, rfl⟩ | ⟨rfl, rfl, _⟩ := exec_writeAnchor served
    · exact .pure (kept _ (.anchored permitted)) (.durable chains permitted (.inr rfl))
    · exact .pure synced (.durable chains permitted (.inl rfl))

/-! ## Boot -/

theorem checks_ok {journal ledger : File Json} {anchor : Anchor.Found} {chains : Chain × Chain}
    (passed : checks host journal ledger anchor = .ok chains) :
    Ledger.verify host journal = .ok chains.1 ∧ Ledger.verify host ledger = .ok chains.2 ∧
      Anchor.check chains.1.hashes chains.2.hashes anchor = .ok () ∧
      Journal.crossCheck chains.1.events chains.2.events = .ok () := by
  simp only [checks, bind_ok_iff] at passed
  obtain ⟨ledgered, first, journaled, second, _, anchored, _, crossed, same⟩ := passed
  cases same
  have verified : ∀ {file : File Json} {code : String} {chain : Chain},
      (Ledger.verify host file).mapError (fun _ => code) = .ok chain → Ledger.verify host file = .ok chain := by
    intro file code chain given
    cases result : Ledger.verify host file with
    | error _ => rw [result] at given; cases given
    | ok _ => rw [result] at given; cases given; rfl
  exact ⟨verified second, verified first, anchored, crossed⟩

@[simp] theorem trim_lines (which other : Which) :
    ((disk.trim which).log other).file.lines = (disk.log other).file.lines := by
  unfold Disk.trim
  split
  · cases which <;> cases other <;> rfl
  · rfl

@[simp] theorem Disk.trim_anchor (disk : Disk) (which : Which) : (disk.trim which).anchor = disk.anchor := by
  unfold Disk.trim
  split
  · cases which <;> rfl
  · rfl

/-- The store with the fold of a journal that the boot accepts. -/
def opened (journal ledger : Chain) (folded : Folded) : Store where
  ledger := ⟨ledger.events.length, ledger.head⟩
  records := folded.records
  nonceOwner := folded.owners
  jseq := journal.events.length
  jhead := journal.head

theorem checks_lines {first second first' second' : File Json} {anchor : Anchor.Found}
    (journal : first.lines = first'.lines) (ledger : second.lines = second'.lines) :
    checks host first second anchor = checks host first' second' anchor := by
  simp only [checks, Ledger.verify_lines journal, Ledger.verify_lines ledger]

/-- A boot trims the files and reads them, and goes on where they pass its checks. -/
theorem boot_upholds_of {post : Option Store → Disk → Prop} (start : always disk)
    (first : always (disk.trim .journal)) (second : always ((disk.trim .journal).trim .ledger))
    (refused : post none ((disk.trim .journal).trim .ledger))
    (goes : ∀ journal ledger folded,
      checks host disk.journal.file disk.ledger.file disk.readAnchor = .ok (journal, ledger) →
      Folded.fold journal.events = some folded →
      machine.Upholds allowed always post
        (do let store ← markUnknownOnRestart host (opened journal ledger folded) folded.records.entries
            if ← Code.writeAnchor store.anchorFields then pure (some store) else pure none)
        ((disk.trim .journal).trim .ledger)) :
    machine.Upholds allowed always post (boot host) disk := by
  refine .ask start fun choice reply middle _ served => ?_
  obtain ⟨rfl, rfl⟩ | ⟨rfl, rfl, _⟩ := exec_trim served
  rotate_left
  · exact ⟨start, fun _ reply => reply.elim⟩
  refine .ask first fun choice reply last _ served => ?_
  obtain ⟨rfl, rfl⟩ | ⟨rfl, rfl, _⟩ := exec_trim served
  rotate_left
  · exact ⟨first, fun _ reply => reply.elim⟩
  have journaled : ((disk.trim .journal).trim .ledger).journal.file.lines = disk.journal.file.lines :=
    (trim_lines .ledger .journal).trans (trim_lines .journal .journal)
  have ledgered : ((disk.trim .journal).trim .ledger).ledger.file.lines = disk.ledger.file.lines :=
    (trim_lines .ledger .ledger).trans (trim_lines .journal .ledger)
  have anchored : ((disk.trim .journal).trim .ledger).readAnchor = disk.readAnchor := by
    simp only [Disk.readAnchor, Disk.trim_anchor]
  generalize (disk.trim .journal).trim .ledger = opening at second refused goes journaled ledgered anchored
  refine .ask second fun choice ledger here _ served => ?_
  obtain ⟨rfl, givenLedger, _⟩ := exec_read served
  refine .ask second fun choice journal here _ served => ?_
  obtain ⟨rfl, givenJournal, _⟩ := exec_read served
  cases ledger with
  | none => exact .pure second refused
  | some ledger =>
  cases journal with
  | none => exact .pure second refused
  | some journal =>
  obtain rfl := givenLedger ledger rfl
  obtain rfl := givenJournal journal rfl
  refine .ask second fun choice anchor here _ served => ?_
  obtain ⟨rfl, found⟩ := exec_readAnchor served
  cases passed : checks host (here.log .journal).file (here.log .ledger).file anchor with
  | error _ => exact .pure second refused
  | ok chains =>
  obtain rfl | ⟨landed, rfl⟩ := found
  rotate_left
  · cases served
    obtain ⟨_, _, corrupt, _⟩ := checks_ok passed
    cases corrupt
  refine .ask second fun choice isOpen here _ served => ?_
  obtain ⟨rfl, _⟩ := exec_open served
  cases isOpen with
  | false => exact .pure second refused
  | true =>
  cases folds : Folded.fold chains.1.events with
  | none => exact ⟨second, fun _ reply => reply.elim⟩
  | some folded =>
  have checked := (checks_lines journaled ledgered).symm.trans passed
  rw [anchored] at checked
  exact goes chains.1 chains.2 folded checked folds

end AshA2A.Actuator.Store
