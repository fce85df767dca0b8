import AshA2A.Proofs.ActuatorKept

/-! What can be left of the two files when appends fail and the store stops, and when a boot
can make the same records of it again. -/

namespace AshA2A.Actuator.Store

open Sa2aCrypto Concurrency AppendLog

variable {host : Host} {allowed : Op → Choice → Disk → Prop} {disk : Disk} {store : Store}
  {journal ledger : Chain} {records : String → Option Record} {accept during : (String → Option Record) → Prop}

/-! ## Failures -/

/-- Something can fail. -/
def Faulty (allowed : Op → Choice → Disk → Prop) : Prop :=
  ∃ op choice disk, allowed op choice disk ∧ ¬ Served op choice disk

theorem Faulty.of_fails {op : Op} {landed : Landed} (permitted : allowed op (.fails landed) disk) :
    Faulty allowed := ⟨op, .fails landed, disk, permitted, by cases op <;> exact id⟩

/-- An event after which no outcome is left unknown. -/
def Settles (line : Json) : Prop := line.string? "t" ∈ [some "completed", some "reconciled"]

/-- No line is written whole behind what a failed append has left, and no failed append leaves
a whole line that settles the outcome of an effect. -/
def Spared : Op → Choice → Disk → Prop
  | .write which line, choice, disk => choice.landed = .whole →
    (disk.log which).file.torn = false ∧
      line.number? "seq" = some ((disk.log which).file.lines.length : Rat) ∧
      (choice = .served ∨ which = .ledger ∨ ¬ Settles line)
  | .sync .journal, .fails _, disk =>
    ∀ line, disk.journal.file.lines.getLast? = some (some line) → ¬ Settles line
  | _, _, _ => True

/-- If something can fail then nothing else than this. -/
def Tolerable (allowed : Op → Choice → Disk → Prop) : Prop :=
  Faulty allowed → ∀ op choice disk, allowed op choice disk → Spared op choice disk

/-! ## Files -/

/-- The file holds these lines and nothing else. -/
def Clean (file : File Json) (lines : List Json) : Prop := file.lines = lines.map some ∧ file.torn = false

/-- These lines are on the disk for certain. One more can stand behind them. -/
structure Carries (log : Log Json) (lines : List Json) (extra : Json → Prop) : Prop where
  synced : lines.map some <+: log.synced.lines
  begins : log.synced.lines <+: log.file.lines
  lines : log.file.lines = lines.map some ∨ ∃ line, log.file.lines = lines.map some ++ [some line] ∧ extra line

variable {log : Log Json} {lines : List Json} {line : Json} {extra other : Json → Prop}

theorem Carries.left (carries : Carries log lines extra) {left : List (Option Json)}
    (first : log.synced.lines <+: left) (last : left <+: log.file.lines) :
    left = lines.map some ∨ ∃ line, left = lines.map some ++ [some line] ∧ extra line := by
  have shorter := carries.synced.trans first
  obtain same | ⟨line, same, holds⟩ := carries.lines
  · rw [same] at last
    exact .inl (last.eq_of_length_le shorter.length_le)
  · rw [same] at last
    obtain rfl | last := List.prefix_concat_iff.mp last
    · exact .inr ⟨line, rfl, holds⟩
    · exact .inl (last.eq_of_length_le shorter.length_le)

theorem Carries.weaken (carries : Carries log lines extra) (implies : ∀ line, extra line → other line) :
    Carries log lines other :=
  ⟨carries.synced, carries.begins, carries.lines.imp_right fun ⟨line, same, holds⟩ =>
    ⟨line, same, implies line holds⟩⟩

/-- Where the file is as long as the line says, nothing stands behind the lines. -/
theorem Carries.clean (carries : Carries log lines extra) (position : line.number? "seq" = some (lines.length : Rat))
    (whole : log.file.torn = false) (fits : line.number? "seq" = some (log.file.lines.length : Rat)) :
    Clean log.file lines := by
  refine ⟨?_, whole⟩
  obtain same | ⟨line, same, _⟩ := carries.lines
  · exact same
  · rw [position, same, Option.some.injEq, Rat.natCast_inj] at fits
    simp at fits

theorem Carries.write (carries : Carries log lines extra) (landed : Landed)
    (clean : landed = .whole → Clean log.file lines) (follows : landed = .whole → extra line) :
    Carries (log.write line landed) lines extra := by
  cases landed with
  | nothing => exact carries
  | part => exact ⟨carries.synced, carries.begins, carries.lines⟩
  | whole =>
    obtain ⟨same, torn⟩ := clean rfl
    refine ⟨carries.synced, carries.begins.trans (List.prefix_append _ _), .inr ⟨line, ?_, follows rfl⟩⟩
    simp [File.write, torn, same]

theorem Clean.write (clean : Clean log.file lines) :
    Clean (log.write line .whole).sync.file (lines ++ [line]) := by
  obtain ⟨same, torn⟩ := clean
  constructor <;> simp [File.write, torn, same]

theorem Carries.of_clean (clean : Clean log.file lines) (settled : log.synced.lines = log.file.lines) :
    Carries log lines extra := by
  refine ⟨?_, settled ▸ List.prefix_rfl, .inl clean.1⟩
  exact settled.trans clean.1 ▸ List.prefix_rfl

/-! ## What is left -/

/-- What the boot makes of the records of the journal. -/
def restarted (records : String → Option Record) : String → Option Record :=
  fun instanceId => (records instanceId).map Record.restarted

/-- Nothing of this directory waits to be synced, and all of it agrees. -/
structure Rests (host : Host) (disk : Disk) (journal ledger : Chain) (records : String → Option Record) : Prop where
  journaled : disk.journal.file.lines = journal.events.map some
  ledgered : disk.ledger.file.lines = ledger.events.map some
  settledJournal : disk.journal.synced.lines = disk.journal.file.lines
  settledLedger : disk.ledger.synced.lines = disk.ledger.file.lines
  kept : Kept host journal ledger records
  anchored : Anchor.check journal.hashes ledger.hashes disk.readAnchor = .ok ()

def Recovers (host : Host) (accept : (String → Option Record) → Prop) (disk : Disk) : Prop :=
  ∃ journal ledger records, Rests host disk journal ledger records ∧ accept (restarted records)

/-- Whatever a stop leaves of the directory agrees. -/
def Secured (host : Host) (accept : (String → Option Record) → Prop) (disk : Disk) : Prop :=
  ∀ left, disk.Survives left → Recovers host accept left

/-- The line of an event that can follow in the journal, with acceptable records. -/
def Follows (host : Host) (journal ledger : Chain) (records : String → Option Record)
    (accept : (String → Option Record) → Prop) (line : Json) : Prop :=
  ∃ event time hash, Next journal.events ledger.events event ∧
    Extends host journal (Event.fields time event) line hash ∧ accept (restarted (event.apply records))

/-- The line of an entry that can follow in the ledger. -/
def FollowsEntry (host : Host) (journal ledger : Chain) (line : Json) : Prop :=
  ∃ (entry : Ledger.Entry) (hash : String), Claimed journal.events entry.effectInstanceId ∧
    Extends host ledger entry.fields line hash

theorem Follows.weaken (follows : Follows host journal ledger records accept line)
    (implies : ∀ records, accept records → during records) : Follows host journal ledger records during line := by
  obtain ⟨event, time, hash, next, extension, holds⟩ := follows
  exact ⟨event, time, hash, next, extension, implies _ holds⟩

theorem Rests.secured (rests : Rests host disk journal ledger records) (base : accept (restarted records)) :
    Secured host accept disk := by
  intro left survives
  obtain ⟨⟨syncedJ, lastJ, settledJ⟩, ⟨syncedL, lastL, settledL⟩, anchor, _, _, _, _⟩ := survives
  have sameJ := (rests.settledJournal ▸ syncedJ.1).eq_of_length_le lastJ.1.length_le
  have sameL := (rests.settledLedger ▸ syncedL.1).eq_of_length_le lastL.1.length_le
  refine ⟨journal, ledger, records, ⟨?_, ?_, by rw [settledJ], by rw [settledL], rests.kept, ?_⟩, base⟩
  · rw [← sameJ, rests.journaled]
  · rw [← sameL, rests.ledgered]
  · rw [Disk.readAnchor, anchor]
    exact rests.anchored

theorem secured {anchor : Anchor} (kept : Kept host journal ledger records)
    (journaled : Carries disk.journal journal.events (Follows host journal ledger records accept))
    (ledgered : Carries disk.ledger ledger.events (FollowsEntry host journal ledger))
    (present : disk.anchor = some anchor) (anchored : Anchored journal ledger anchor)
    (base : accept (restarted records)) : Secured host accept disk := by
  intro left survives
  obtain ⟨⟨syncedJ, lastJ, settledJ⟩, ⟨syncedL, lastL, settledL⟩, same, _, _, _, _⟩ := survives
  have found : left.readAnchor = .found anchor := by rw [Disk.readAnchor, same, present]
  have rests : ∀ {journal ledger : Chain} {records : String → Option Record},
      left.journal.file.lines = journal.events.map some → left.ledger.file.lines = ledger.events.map some →
      Kept host journal ledger records → Anchored journal ledger anchor →
      Rests host left journal ledger records := by
    intro journal ledger records journalLines ledgerLines kept anchored
    exact ⟨journalLines, ledgerLines, by rw [settledJ], by rw [settledL], kept, by rw [found]; exact anchored⟩
  obtain ledgerLines | ⟨entryLine, ledgerLines, entry, entryHash, claimed, entryExtension⟩ :=
    ledgered.left syncedL.1 lastL.1
  · obtain journalLines | ⟨line, journalLines, event, time, hash, next, extension, holds⟩ :=
      journaled.left syncedJ.1 lastJ.1
    · exact ⟨_, _, _, rests journalLines ledgerLines kept anchored, base⟩
    · refine ⟨_, _, _, rests ?_ ledgerLines (kept.event next extension) ?_, holds⟩
      · simpa [Chain.snoc] using journalLines
      · exact anchored.extend (List.prefix_append _ _) List.prefix_rfl
  · have longer : left.ledger.file.lines = (ledger.snoc entryLine entryHash).events.map some := by
      simpa [Chain.snoc] using ledgerLines
    have kept' := kept.entry claimed entryExtension
    obtain journalLines | ⟨line, journalLines, event, time, hash, next, extension, holds⟩ :=
      journaled.left syncedJ.1 lastJ.1
    · exact ⟨_, _, _, rests journalLines longer kept' (anchored.extend List.prefix_rfl (List.prefix_append _ _)), base⟩
    · refine ⟨_, _, _, rests ?_ longer (kept'.event (next.more entryLine) extension) ?_, holds⟩
      · simpa [Chain.snoc] using journalLines
      · exact anchored.extend (List.prefix_append _ _) (List.prefix_append _ _)

/-! ## A store and its files -/

/-- The store stands at the ends of the two files, as far as their lines were acknowledged. -/
structure Steady (host : Host) (allowed : Op → Choice → Disk → Prop)
    (accept : (String → Option Record) → Prop) (store : Store) (disk : Disk) (journal ledger : Chain)
    (records : String → Option Record) : Prop where
  kept : Kept host journal ledger records
  jseq : store.jseq = journal.events.length
  jhead : store.jhead = journal.head
  position : store.ledger = ⟨ledger.events.length, ledger.head⟩
  journaled : Carries disk.journal journal.events (Follows host journal ledger records accept)
  ledgered : Carries disk.ledger ledger.events (FollowsEntry host journal ledger)
  cleanJournal : Faulty allowed ∨ Clean disk.journal.file journal.events
  cleanLedger : Faulty allowed ∨ Clean disk.ledger.file ledger.events
  anchor : ∃ anchor, disk.anchor = some anchor ∧ Anchored journal ledger anchor

theorem Steady.secured (steady : Steady host allowed accept store disk journal ledger records)
    (implies : ∀ records, accept records → during records) (base : during (restarted records)) :
    Secured host during disk := by
  obtain ⟨anchor, present, anchored⟩ := steady.anchor
  have journaled := steady.journaled.weaken fun _ (follows : Follows ..) => follows.weaken implies
  exact Store.secured steady.kept journaled steady.ledgered present anchored base

theorem Steady.weaken (steady : Steady host allowed accept store disk journal ledger records)
    (implies : ∀ records, accept records → during records) :
    Steady host allowed during store disk journal ledger records :=
  ⟨steady.kept, steady.jseq, steady.jhead, steady.position,
    steady.journaled.weaken fun _ (follows : Follows ..) => follows.weaken implies, steady.ledgered,
    steady.cleanJournal, steady.cleanLedger, steady.anchor⟩

theorem Steady.current (steady : Steady host allowed accept store disk journal ledger records) :
    Anchored journal ledger store.anchorFields := by
  obtain ⟨first, second⟩ := steady.kept.headed
  simpa only [anchorFields, steady.jseq, steady.jhead, steady.position] using anchored_current first second

/-- The anchor is brought up to date. -/
theorem Steady.anchors (steady : Steady host allowed accept store disk journal ledger records) :
    Steady host allowed accept store { disk with anchor := some store.anchorFields } journal ledger records :=
  ⟨steady.kept, steady.jseq, steady.jhead, steady.position, steady.journaled, steady.ledgered,
    steady.cleanJournal, steady.cleanLedger, _, rfl, steady.current⟩

theorem Steady.writeAnchor_upholds (steady : Steady host allowed accept store disk journal ledger records)
    (implies : ∀ records, accept records → during records) (base : during (restarted records)) :
    machine.Upholds allowed (Secured host during)
      (fun _ last => Steady host allowed accept store last journal ledger records)
      (Code.writeAnchor store.anchorFields) disk := by
  refine .ask (steady.secured implies base) fun choice reply after _ served => ?_
  have steady : Steady host allowed accept store after journal ledger records := by
    obtain ⟨_, rfl⟩ | ⟨_, rfl, _⟩ := exec_writeAnchor served
    · exact steady.anchors
    · exact steady
  exact .pure (steady.secured implies base) steady

/-- Only the files count. -/
theorem Steady.aside {after : Disk} {other : Store}
    (steady : Steady host allowed accept store disk journal ledger records)
    (journaled : after.journal = disk.journal) (ledgered : after.ledger = disk.ledger)
    (anchor : after.anchor = disk.anchor) (fields : other.anchorFields = store.anchorFields) :
    Steady host allowed accept other after journal ledger records := by
  simp only [anchorFields, Anchor.mk.injEq] at fields
  obtain ⟨jseq, jhead, lseq, lhead⟩ := fields
  have position : other.ledger = store.ledger := by
    cases given : other.ledger
    simp_all
  refine ⟨steady.kept, jseq.trans steady.jseq, jhead.trans steady.jhead, position.trans steady.position, ?_, ?_, ?_,
    ?_, anchor ▸ steady.anchor⟩
  · exact journaled ▸ steady.journaled
  · exact ledgered ▸ steady.ledgered
  · exact journaled ▸ steady.cleanJournal
  · exact ledgered ▸ steady.cleanLedger

/-! ## Appends to the journal -/

variable {event : Event} {time : Int} {hash : String}

/-- Where a line may be written whole, nothing stands behind the ones acknowledged. -/
theorem clean_of_permitted (which : Which) {choice : Choice} (tolerable : Tolerable allowed)
    (carries : Carries (disk.log which) lines extra) (clean : Faulty allowed ∨ Clean (disk.log which).file lines)
    (position : line.number? "seq" = some (lines.length : Rat))
    (permitted : allowed (.write which line) choice disk) (whole : choice.landed = .whole) :
    Clean (disk.log which).file lines := by
  obtain faulty | clean := clean
  · obtain ⟨untorn, fits, _⟩ := tolerable faulty _ _ _ permitted whole
    exact carries.clean position untorn fits
  · exact clean

/-- What an append to the journal leaves behind. -/
inductive Noted (host : Host) (allowed : Op → Choice → Disk → Prop) (accept : (String → Option Record) → Prop)
    (store : Store) (event : Event) (disk : Disk) (journal ledger : Chain) (records : String → Option Record) :
    Bool × Store → Disk → Prop where
  | failed {last : Disk} (faulty : Faulty allowed)
      (steady : Steady host allowed accept store last journal ledger records) :
      Noted host allowed accept store event disk journal ledger records (false, store) last
  | durable {time : Int} {line : Json} {hash : String} {last : Disk}
      (extension : Extends host journal (event.fields time) line hash)
      (settled : last.journal.synced = last.journal.file)
      (clean : Clean last.journal.file (journal.snoc line hash).events) (ledgered : last.ledger = disk.ledger)
      (steady : ∀ accept, Steady host allowed accept (store.advanced hash) last (journal.snoc line hash) ledger
        (event.apply records)) :
      Noted host allowed accept store event disk journal ledger records (true, store.advanced hash) last

/-- The event of a line that was appended stands in the chain. -/
theorem Steady.appended (last : Disk) (steady : Steady host allowed accept store disk journal ledger records)
    (next : Next journal.events ledger.events event) (extension : Extends host journal (event.fields time) line hash)
    (clean : Clean disk.journal.file journal.events)
    (journaled : last.journal = (disk.journal.write line .whole).sync) (ledgered : last.ledger = disk.ledger)
    (anchor : last.anchor = disk.anchor ∨ last.anchor = some (store.advanced hash).anchorFields)
    (accept : (String → Option Record) → Prop) :
    Steady host allowed accept (store.advanced hash) last (journal.snoc line hash) ledger
      (event.apply records) := by
  have kept := steady.kept.event next extension
  have clean : Clean last.journal.file (journal.snoc line hash).events := journaled ▸ clean.write
  have more : ∀ {instanceId : String}, Claimed journal.events instanceId →
      Claimed (journal.snoc line hash).events instanceId := fun claimed => claimed.append line
  refine ⟨kept, ?_, rfl, steady.position, ?_, ?_, .inr clean, ledgered ▸ steady.cleanLedger, ?_⟩
  · simp [advanced, Chain.snoc, steady.jseq]
  · refine .of_clean clean ?_
    rw [journaled]
    rfl
  · rw [ledgered]
    refine steady.ledgered.weaken ?_
    rintro line ⟨entry, hash, claimed, extension⟩
    exact ⟨entry, hash, more claimed, extension⟩
  · obtain same | same := anchor
    · obtain ⟨anchor, present, anchored⟩ := steady.anchor
      exact ⟨anchor, same.trans present, anchored.extend (List.prefix_append _ _) List.prefix_rfl⟩
    · refine ⟨_, same, ?_⟩
      have heads := anchored_current kept.headed.1 kept.headed.2
      simpa [anchorFields, advanced, steady.jseq, steady.position, Chain.snoc] using heads

theorem settles_iff {seq : Nat} {prev : String} :
    Settles (Ledger.line (event.fields time) seq prev hash) ↔ event.kind ∈ ["completed", "reconciled"] := by
  simp [Settles]

theorem Steady.journal_proceeds {live : Prop} (steady : Steady host allowed accept store disk journal ledger records)
    (event : Event) (tolerable : Tolerable allowed) (attended : Attended allowed live)
    (encodes : live → ∀ time, Ledger.chained host (event.fields time) store.jseq store.jhead ≠ none)
    (next : Next journal.events ledger.events event) (implies : ∀ records, accept records → during records)
    (base : during (restarted records)) (inFlight : during (restarted (event.apply records)))
    (stray : event.kind ∈ ["completed", "reconciled"] ∨ accept (restarted (event.apply records))) :
    machine.Proceeds allowed live (Secured host during)
      (Noted host allowed accept store event disk journal ledger records) (store.journal host event) disk := by
  have extension : ∀ {time : Int} {line : Json} {hash : String},
      Ledger.chained host (event.fields time) store.jseq store.jhead = some (line, hash) →
      Extends host journal (event.fields time) line hash :=
    fun chains => .of_chained (by rwa [← steady.jseq, ← steady.jhead])
  have clean : ∀ {time : Int} {line : Json} {hash : String} {choice : Choice},
      Extends host journal (event.fields time) line hash → allowed (.write .journal line) choice disk →
      choice.landed = .whole → Clean disk.journal.file journal.events :=
    fun extension permitted whole => clean_of_permitted .journal tolerable steady.journaled
      steady.cleanJournal extension.position permitted whole
  have follows : ∀ {time : Int} {line : Json} {hash : String} {accept : (String → Option Record) → Prop},
      Extends host journal (event.fields time) line hash → accept (restarted (event.apply records)) →
      Follows host journal ledger records accept line :=
    fun extension holds => ⟨event, _, _, next, extension, holds⟩
  refine (Store.journal_proceeds attended encodes (steady.secured implies base) ?_).weaken (fun _ kept => kept) ?_
  · intro time line hash last chains journaling
    have extension := extension chains
    have appended := fun (last : Disk) (permitted : allowed (.write .journal line) .served disk) =>
      steady.appended last next extension (clean extension permitted rfl)
    cases journaling with
    | anchored permitted =>
      refine Steady.secured (appended _ permitted ?_ ?_ (.inr ?_) during) (fun _ holds => holds) inFlight <;> rfl
    | handing handing =>
      cases handing with
      | start => exact steady.secured implies base
      | @written choice permitted =>
        obtain ⟨anchor, present, anchored⟩ := steady.anchor
        have journaled := (steady.weaken implies).journaled.write choice.landed
          (clean extension permitted) fun _ => follows extension inFlight
        exact Store.secured steady.kept journaled steady.ledgered present anchored base
      | synced permitted =>
        refine Steady.secured (appended _ permitted ?_ ?_ (.inl ?_) during) (fun _ holds => holds) inFlight <;> rfl
  · intro result last _ journaled
    cases journaled with
    | @durable time line hash anchor chains permitted anchored =>
      have extension := extension chains
      have clean := clean extension permitted rfl
      exact .durable extension rfl clean.write rfl (steady.appended _ next extension clean rfl rfl anchored)
    | @failed time line hash last chains lost =>
      have extension := extension chains
      have steady : ∀ landed, (landed = .whole → Clean disk.journal.file journal.events) → Faulty allowed →
          (landed = .whole → ¬ Settles line) →
          Steady host allowed accept store (disk.write .journal line landed) journal ledger records := by
        intro landed clean faulty open'
        refine ⟨steady.kept, steady.jseq, steady.jhead, steady.position, ?_, steady.ledgered, .inl faulty,
          steady.cleanLedger, steady.anchor⟩
        refine steady.journaled.write landed clean fun whole => follows extension (stray.resolve_left fun settles => ?_)
        exact open' whole (by rw [extension.line]; exact settles_iff.mpr settles)
      cases lost with
      | @unwritten landed permitted =>
        have faulty := Faulty.of_fails permitted
        refine .failed faulty (steady landed (clean extension permitted) faulty fun whole => ?_)
        obtain ⟨_, _, served | other | unsettled⟩ := tolerable faulty _ _ _ permitted whole
        · cases served
        · cases other
        · exact unsettled
      | @unsynced landed permitted failed =>
        have faulty := Faulty.of_fails failed
        have clean := clean extension permitted rfl
        refine .failed faulty (steady .whole (fun _ => clean) faulty fun _ => ?_)
        refine tolerable faulty _ _ _ failed line ?_
        simp [Disk.write, Disk.setLog, Disk.hand, Disk.log, File.write, clean.2]

/-! ## Appends to the ledger -/

variable {entry : Ledger.Entry}

theorem Follows.more {entryHash : String} (follows : Follows host journal ledger records accept line)
    (entryLine : Json) : Follows host journal (ledger.snoc entryLine entryHash) records accept line := by
  obtain ⟨event, time, hash, next, extension, holds⟩ := follows
  exact ⟨event, time, hash, next.more entryLine, extension, holds⟩

theorem Steady.entered (last : Disk) (steady : Steady host allowed accept store disk journal ledger records)
    (claimed : Claimed journal.events entry.effectInstanceId) (extension : Extends host ledger entry.fields line hash)
    (clean : Clean disk.ledger.file ledger.events) (ledgered : last.ledger = (disk.ledger.write line .whole).sync)
    (journaled : last.journal = disk.journal) (anchor : last.anchor = disk.anchor) :
    Steady host allowed accept { store with ledger := ⟨ledger.events.length + 1, hash⟩ } last journal
      (ledger.snoc line hash) records := by
  have clean : Clean last.ledger.file (ledger.snoc line hash).events := ledgered ▸ clean.write
  refine ⟨steady.kept.entry claimed extension, steady.jseq, steady.jhead, ?_, ?_, ?_, journaled ▸ steady.cleanJournal,
    .inr clean, ?_⟩
  · simp [Chain.snoc]
  · rw [journaled]
    exact steady.journaled.weaken fun _ (follows : Follows ..) => follows.more line
  · refine .of_clean clean ?_
    rw [ledgered]
    rfl
  · obtain ⟨anchor', present, anchored⟩ := steady.anchor
    exact ⟨anchor', anchor.trans present, anchored.extend List.prefix_rfl (List.prefix_append _ _)⟩

/-- What an append to the ledger leaves behind. -/
inductive Entered (host : Host) (allowed : Op → Choice → Disk → Prop) (accept : (String → Option Record) → Prop)
    (store : Store) (entry : Ledger.Entry) (disk : Disk) (journal ledger : Chain)
    (records : String → Option Record) : Except String (Ledger × Nat × String) → Disk → Prop where
  | failed {reason : String} {last : Disk} (same : last.journal = disk.journal)
      (steady : Steady host allowed accept store last journal ledger records) :
      Entered host allowed accept store entry disk journal ledger records (.error reason) last
  | durable {line : Json} {hash : String} {last : Disk} (extension : Extends host ledger entry.fields line hash)
      (same : last.journal = disk.journal)
      (steady : Steady host allowed accept { store with ledger := ⟨ledger.events.length + 1, hash⟩ } last journal
        (ledger.snoc line hash) records) :
      Entered host allowed accept store entry disk journal ledger records
        (.ok (⟨ledger.events.length + 1, hash⟩, ledger.events.length, hash)) last

theorem Steady.appendLedger_upholds (entry : Ledger.Entry)
    (steady : Steady host allowed accept store disk journal ledger records) (tolerable : Tolerable allowed) (claimed : Claimed journal.events entry.effectInstanceId)
    (implies : ∀ records, accept records → during records) (base : during (restarted records)) :
    machine.Upholds allowed (Secured host during)
      (Entered host allowed accept store entry disk journal ledger records)
      (appendLedger host store.ledger entry) disk := by
  have start := steady.secured implies base
  rw [steady.position]
  unfold appendLedger
  split
  · exact .pure start (.failed rfl steady)
  next line hash chains =>
    have extension : Extends host ledger entry.fields line hash := .of_chained chains
    have clean : ∀ {choice : Choice}, allowed (.write .ledger line) choice disk → choice.landed = .whole →
        Clean disk.ledger.file ledger.events :=
      fun permitted whole => clean_of_permitted .ledger tolerable steady.ledgered steady.cleanLedger
        extension.position permitted whole
    have written : ∀ landed, (landed = .whole → Clean disk.ledger.file ledger.events) →
        Carries (disk.ledger.write line landed) ledger.events (FollowsEntry host journal ledger) :=
      fun landed clean => steady.ledgered.write landed clean fun _ => ⟨entry, hash, claimed, extension⟩
    have entered := fun (permitted : allowed (.write .ledger line) .served disk) =>
      steady.entered ((disk.write .ledger line .whole).sync .ledger) claimed extension (clean permitted rfl)
        rfl rfl rfl
    have failed : ∀ last, Secured host during last → Lost allowed disk .ledger line last → ∀ reason,
        Entered host allowed accept store entry disk journal ledger records (.error reason) last := by
      intro last _ lost reason
      cases lost with
      | @unwritten landed permitted =>
        exact .failed rfl ⟨steady.kept, steady.jseq, steady.jhead, steady.position, steady.journaled,
          written landed (clean permitted), steady.cleanJournal, .inl (.of_fails permitted), steady.anchor⟩
      | unsynced permitted failed =>
        exact .failed rfl ⟨steady.kept, steady.jseq, steady.jhead, steady.position, steady.journaled,
          written .whole fun _ => clean permitted rfl, steady.cleanJournal, .inl (.of_fails failed), steady.anchor⟩
    have idle : Attended allowed False := nofun
    have handing : ∀ last, Handing allowed disk .ledger line last → Secured host during last := by
      intro last handing
      cases handing with
      | start => exact start
      | @written choice permitted =>
        obtain ⟨anchor, present, anchored⟩ := steady.anchor
        exact Store.secured steady.kept (steady.weaken implies).journaled
          (written choice.landed (clean permitted)) present anchored base
      | synced permitted => exact (entered permitted).secured implies base
    refine (append_proceeds idle handing (fun permitted => ?_) ?_ ?_).upholds
    · exact .pure (handing _ (.synced permitted)) (.durable extension rfl (entered permitted))
    · exact fun last kept lost => .pure kept (failed last kept lost _)
    · exact fun last kept lost => .pure kept (failed last kept lost _)

end AshA2A.Actuator.Store
