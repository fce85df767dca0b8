import AshA2A.Proofs.ActuatorCommitment
import AshA2A.Proofs.ActuatorRecovery
import Mathlib.Data.List.Sort

/-! No history that was written anew is booted: what the anchor knows of stays what it was. -/

namespace AshA2A.Actuator

open Sa2aCrypto Concurrency AppendLog

/-- The lines handed to a write of the file. -/
def Disk.handed (disk : Disk) : Which → List Json
  | .journal => disk.journaled
  | .ledger => disk.ledgered

def Anchor.seq (anchor : Anchor) : Which → Nat
  | .journal => anchor.journalSeq
  | .ledger => anchor.ledgerSeq

def Anchor.head (anchor : Anchor) : Which → String
  | .journal => anchor.journalHead
  | .ledger => anchor.ledgerHead

namespace Disk

variable {disk : Disk} {which other : Which} {line : Json} {landed : Landed}

@[simp] theorem write_handed : (disk.write which line landed).handed other =
    if other = which then disk.handed other ++ [line] else disk.handed other := by
  cases which <;> cases other <;> rfl

@[simp] theorem write_log : (disk.write which line landed).log other =
    if other = which then (disk.log other).write line landed else disk.log other := by
  cases which <;> cases other <;> rfl

@[simp] theorem sync_handed : (disk.sync which).handed other = disk.handed other := by
  cases which <;> cases other <;> rfl

@[simp] theorem sync_log_file : ((disk.sync which).log other).file = (disk.log other).file := by
  cases which <;> cases other <;> rfl

@[simp] theorem trim_handed : (disk.trim which).handed other = disk.handed other := by
  unfold trim
  split
  · cases which <;> cases other <;> rfl
  · rfl

end Disk

namespace Store

variable {host : Host} {allowed : Op → Choice → Disk → Prop} {disk : Disk} {store : Store} {anchor : Anchor}

/-! ## Positions that were reached -/

/-- A chain of lines that were handed to a write. -/
def Traced (host : Host) (handed : List Json) (seq : Nat) (head : String) : Prop :=
  ∃ chain : Chain, chain.Derived host ∧ chain.events.Sublist handed ∧ chain.events.length = seq ∧
    chain.head = head

theorem Traced.more {first second : List Json} {seq : Nat} {head : String} (traced : Traced host first seq head)
    (longer : first.Sublist second) : Traced host second seq head := by
  obtain ⟨chain, derived, handed, position⟩ := traced
  exact ⟨chain, derived, handed.trans longer, position⟩

/-- The next line leads one position on. -/
theorem Traced.chained {handed : List Json} {fields : List (String × Json)} {seq : Nat} {head hash : String}
    {line : Json} (traced : Traced host handed seq head) (unhashed : ∀ field ∈ fields, field.1 ≠ "hash")
    (chains : Ledger.chained host fields seq head = some (line, hash)) :
    Traced host (handed ++ [line]) (seq + 1) hash := by
  obtain ⟨chain, derived, within, rfl, rfl⟩ := traced
  have linked := (Extends.of_chained chains).linked unhashed
  refine ⟨chain.snoc line hash, ?_, within.append_right [line], by simp [Chain.snoc], rfl⟩
  unfold Chain.Derived at derived ⊢
  rw [Chain.snoc, Ledger.links_append, derived]
  simp [Ledger.links, linked, Chain.snoc]

/-- Both positions of the anchor were reached. -/
def Backed (host : Host) (disk : Disk) (anchor : Anchor) : Prop :=
  ∀ which, Traced host (disk.handed which) (anchor.seq which) (anchor.head which)

theorem Backed.more {after : Disk} (backed : Backed host disk anchor)
    (longer : ∀ which, (disk.handed which).Sublist (after.handed which)) : Backed host after anchor :=
  fun which => (backed which).more (longer which)

theorem write_longer {which : Which} {line : Json} {landed : Landed} (other : Which) :
    (disk.handed other).Sublist ((disk.write which line landed).handed other) := by
  rw [Disk.write_handed]
  split
  · exact List.sublist_append_left ..
  · exact .refl _

/-- The files hold nothing but what was handed to a write, and the anchor is a position that
was reached. -/
structure Written (host : Host) (disk : Disk) : Prop where
  lines : ∀ which, (disk.log which).file.lines.reduceOption.Sublist (disk.handed which)
  plain : ∀ which, ∀ line ∈ disk.handed which, line.lastWins = line
  anchor : ∀ anchor, disk.anchor = some anchor → Backed host disk anchor

theorem Written.survives {left : Disk} (written : Written host disk) (survives : disk.Survives left) :
    Written host left := by
  obtain ⟨journal, ledger, anchor, _, _, journaled, ledgered⟩ := survives
  have handed : ∀ which, left.handed which = disk.handed which := by
    intro which
    cases which
    · exact journaled
    · exact ledgered
  have shorter : ∀ which, (left.log which).file.lines <+: (disk.log which).file.lines := by
    intro which
    cases which
    · exact journal.2.1.1
    · exact ledger.2.1.1
  refine ⟨fun which => ?_, fun which => ?_, fun anchor' given => ?_⟩
  · rw [handed]
    exact ((shorter which).sublist.filterMap _).trans (written.lines which)
  · rw [handed]
    exact written.plain which
  · rw [anchor] at given
    exact (written.anchor anchor' given).more fun which => by rw [handed]

theorem Written.write {which : Which} {line : Json} {landed : Landed} (written : Written host disk)
    (plain : line.lastWins = line) : Written host (disk.write which line landed) := by
  refine ⟨fun other => ?_, fun other => ?_, fun anchor given => ?_⟩
  · rw [Disk.write_log, Disk.write_handed]
    split
    · have base := written.lines other
      cases landed with
      | nothing => exact base.trans (List.sublist_append_left ..)
      | part => exact base.trans (List.sublist_append_left ..)
      | whole =>
        simp only [Log.write_file, File.write, List.reduceOption_append]
        split
        · simpa using base.trans (List.sublist_append_left ..)
        · exact base.append (.refl _)
    · exact written.lines other
  · rw [Disk.write_handed]
    split
    · intro event member
      obtain member | member := List.mem_append.mp member
      · exact written.plain other event member
      · rw [List.mem_singleton.mp member, plain]
    · exact written.plain other
  · have same : (disk.write which line landed).anchor = disk.anchor := by cases which <;> rfl
    rw [same] at given
    exact (written.anchor anchor given).more fun other => write_longer other

theorem Written.sync {which : Which} (written : Written host disk) : Written host (disk.sync which) := by
  refine ⟨fun other => ?_, fun other => ?_, fun anchor given => ?_⟩
  · rw [Disk.sync_log_file, Disk.sync_handed]
    exact written.lines other
  · rw [Disk.sync_handed]
    exact written.plain other
  · have same : (disk.sync which).anchor = disk.anchor := by cases which <;> rfl
    rw [same] at given
    exact (written.anchor anchor given).more fun other => by rw [Disk.sync_handed]

theorem Written.trim {which : Which} (written : Written host disk) : Written host (disk.trim which) := by
  refine ⟨fun other => ?_, fun other => ?_, fun anchor given => ?_⟩
  · rw [trim_lines, Disk.trim_handed]
    exact written.lines other
  · rw [Disk.trim_handed]
    exact written.plain other
  · rw [Disk.trim_anchor] at given
    exact (written.anchor anchor given).more fun other => by rw [Disk.trim_handed]

/-- The position of the store was reached. -/
structure Current (host : Host) (store : Store) (disk : Disk) : Prop where
  written : Written host disk
  backed : Backed host disk store.anchorFields

theorem Current.anchored (current : Current host store disk) :
    Current host store { disk with anchor := some store.anchorFields } := by
  refine ⟨⟨current.written.lines, current.written.plain, fun anchor given => ?_⟩, current.backed⟩
  cases given
  exact current.backed

/-! ## Calls -/

theorem Current.writeAnchor_upholds (current : Current host store disk) :
    machine.Upholds allowed (Written host) (fun _ last => Current host store last)
      (Code.writeAnchor store.anchorFields) disk := by
  refine .ask current.written fun choice reply after _ served => ?_
  obtain ⟨_, rfl⟩ | ⟨_, rfl, _⟩ := exec_writeAnchor served
  · exact .pure current.anchored.written current.anchored
  · exact .pure current.written current

theorem Current.journal_upholds (current : Current host store disk) (event : Event) :
    machine.Upholds allowed (Written host)
      (fun result last => Current host result.2 last) (store.journal host event) disk := by
  have idle : Attended allowed False := nofun
  have plain : ∀ time hash,
      (Ledger.line (event.fields time) store.jseq store.jhead hash).lastWins = _ :=
    fun time hash => event.line_lastWins time store.jseq store.jhead hash
  have advances : ∀ time line hash,
      Ledger.chained host (event.fields time) store.jseq store.jhead = some (line, hash) →
      Backed host (disk.write .journal line .whole) (store.advanced hash).anchorFields := by
    intro time line hash chains which
    cases which with
    | journal => exact (current.backed .journal).chained (event.fields_unhashed time) chains
    | ledger => exact current.backed .ledger
  refine (journal_proceeds idle nofun current.written ?_).upholds.weaken (fun _ written => written) ?_
  · intro time line hash last chains journaling
    have advanced := advances time line hash chains
    obtain ⟨rfl, _⟩ := Ledger.chained_ok chains
    have written : ∀ landed, Written host (disk.write .journal
        (Ledger.line (event.fields time) store.jseq store.jhead hash) landed) :=
      fun landed => current.written.write (plain time hash)
    cases journaling with
    | anchored permitted =>
      refine ⟨(written .whole).sync.lines, (written .whole).sync.plain, fun anchor given => ?_⟩
      cases given
      exact advanced
    | handing handing =>
      cases handing with
      | start => exact current.written
      | written permitted => exact written _
      | synced permitted => exact (written .whole).sync
  · intro result last kept journaled
    cases journaled with
    | @failed time line hash last chains lost =>
      refine ⟨kept, ?_⟩
      cases lost with
      | unwritten permitted => exact current.backed.more fun other => write_longer other
      | unsynced permitted failed => exact current.backed.more fun other => write_longer other
    | durable chains permitted anchored => exact ⟨kept, advances _ _ _ chains⟩

theorem Current.appendLedger_upholds (current : Current host store disk) (entry : Ledger.Entry) :
    machine.Upholds allowed (Written host)
      (fun result last => match result with
        | .error _ => Current host store last
        | .ok (ledger, _) => Current host { store with ledger := ledger } last)
      (appendLedger host store.ledger entry) disk := by
  unfold appendLedger
  split
  · exact .pure current.written current
  next line hash chains =>
    have idle : Attended allowed False := nofun
    have plain : line.lastWins = line := by
      obtain ⟨rfl, _⟩ := Ledger.chained_ok chains
      exact entry.line_lastWins _ _ _
    have written : ∀ landed, Written host (disk.write .ledger line landed) :=
      fun landed => current.written.write plain
    have advanced : Backed host (disk.write .ledger line .whole)
        { store with ledger := ⟨store.ledger.seq + 1, hash⟩ }.anchorFields := by
      intro which
      cases which with
      | journal => exact current.backed .journal
      | ledger => exact (current.backed .ledger).chained entry.fields_unhashed chains
    have lost : ∀ {last : Disk}, Written host last → Lost allowed disk .ledger line last →
        Current host store last := by
      intro last kept lost
      refine ⟨kept, ?_⟩
      cases lost with
      | unwritten permitted => exact current.backed.more fun other => write_longer other
      | unsynced permitted failed => exact current.backed.more fun other => write_longer other
    refine (append_proceeds idle (fun last handing => ?_) (fun permitted => ?_) (fun last kept failed => ?_)
      (fun last kept failed => ?_)).upholds
    · cases handing with
      | start => exact current.written
      | written permitted => exact written _
      | synced permitted => exact (written .whole).sync
    · exact .pure (written .whole).sync ⟨(written .whole).sync, advanced⟩
    · exact .pure kept (lost kept failed)
    · exact .pure kept (lost kept failed)

theorem Current.performEffect_upholds {effect : Effect} {digest : String} {effector : Effector}
    (current : Current host store disk) :
    machine.Upholds allowed (Written host)
      (fun result last => match result with
        | .error _ => Current host store last
        | .ok (ledger, _) => Current host { store with ledger := ledger } last)
      (performEffect host store.ledger effect digest effector) disk := by
  cases effector with
  | noopProbe => exact .pure current.written current
  | ledgerAppend =>
    refine (current.appendLedger_upholds _).bind fun result last written current => ?_
    cases result with
    | error reason => exact .pure written current
    | ok result => exact .pure written current

theorem Current.unknown_upholds {record : Record} {reason : String} (current : Current host store disk) :
    machine.Upholds allowed (Written host) (fun result last => Current host result.2 last)
      (unknown host store record reason) disk := by
  refine (current.journal_upholds _).bind fun result last written current => ?_
  exact .pure written ⟨current.written, current.backed⟩

theorem Current.perform_upholds {effect : Effect} {digest : String} {record : Record}
    (current : Current host store disk) :
    machine.Upholds allowed (Written host) (fun result last => Current host result.2 last)
      (perform host store effect digest record) disk := by
  unfold perform
  split
  · exact ⟨current.written, fun _ reply => reply.elim⟩
  next effector _ =>
    refine .ask current.written fun choice reply after _ served => ?_
    have entered : Current host store after := by
      cases choice <;> cases served
      exact ⟨⟨current.written.lines, current.written.plain, current.written.anchor⟩, current.backed⟩
    refine entered.performEffect_upholds.bind fun result last written current => ?_
    cases result with
    | error reason => exact Current.unknown_upholds current
    | ok result =>
      obtain ⟨ledger, seq, hash⟩ := result
      refine (Current.writeAnchor_upholds current).bind fun _ last written current => ?_
      refine (current.journal_upholds _).bind fun result last written current => ?_
      obtain ⟨durable, after⟩ := result
      cases durable with
      | true => exact .pure written ⟨current.written, current.backed⟩
      | false => exact Current.unknown_upholds current

theorem Current.execute_upholds {context : Context} {request : Fence.Request} (current : Current host store disk) :
    machine.Upholds allowed (Written host) (fun result last => Current host result.2 last)
      (execute host store context request) disk := by
  have answers : ∀ answer : Answer, machine.Upholds allowed (Written host)
      (fun result last => Current host result.2 last) (pure (answer, store)) disk :=
    fun answer => .pure current.written current
  unfold execute
  dsimp only
  split
  · unfold doExecute
    split
    · exact answers _
    · refine current.writeAnchor_upholds.bind fun wrote last written current => ?_
      cases wrote with
      | false => exact .pure written current
      | true =>
        refine (current.journal_upholds _).bind fun result last written current => ?_
        obtain ⟨durable, after⟩ := result
        cases durable with
        | false => exact .pure written current
        | true =>
          refine .ask written fun choice reply after _ served => ?_
          refine Current.perform_upholds ?_
          cases choice <;> cases served
          exact ⟨⟨written.lines, written.plain, written.anchor⟩, current.backed⟩
  · split
    · split
      · exact ⟨current.written, fun _ reply => reply.elim⟩
      · split <;> exact answers _
    · exact answers _

theorem Current.reconcile_upholds {instanceId note : String} {resolution : Resolution}
    (current : Current host store disk) :
    machine.Upholds allowed (Written host) (fun result last => Current host result.2 last)
      (reconcile host store instanceId resolution note) disk := by
  unfold reconcile
  split
  · exact .pure current.written current
  · split
    · exact .pure current.written current
    · refine (current.journal_upholds _).bind fun result last written current => ?_
      obtain ⟨durable, after⟩ := result
      cases durable with
      | false => exact .pure written current
      | true => exact .pure written ⟨current.written, current.backed⟩

theorem Current.handle_upholds {call : Call} (current : Current host store disk) :
    machine.Upholds allowed (Written host)
      (fun result last => ∃ after, result.2 = some after ∧ Current host after last) (handle host call store) disk := by
  have answers : ∀ program : Code (Answer × Store), machine.Upholds allowed (Written host)
      (fun result last => Current host result.2 last) program disk →
      machine.Upholds allowed (Written host) (fun result last => ∃ after, result.2 = some after ∧ Current host after last)
        (program >>= fun result => pure (result.1, some result.2)) disk :=
    fun program upholds => upholds.bind fun result last written current => .pure written ⟨_, rfl, current⟩
  cases call with
  | execute context request => exact answers _ current.execute_upholds
  | reconcile instanceId resolution note => exact answers _ current.reconcile_upholds
  | status instanceId =>
    refine answers _ ?_
    split <;> exact .pure current.written current

/-! ## Boot -/

/-- What a boot has read when it lets the store serve. -/
structure Booted (host : Host) (disk : Disk) (store : Store) (journal ledger : Chain) : Prop where
  checked : checks host disk.journal.file disk.ledger.file disk.readAnchor = .ok (journal, ledger)
  ledger : store.ledger = ⟨ledger.events.length, ledger.head⟩
  folded : ∃ folded, Folded.fold journal.events = some folded ∧ store.nonceOwner = folded.owners ∧
    store.records.lookup = restarted folded.records.lookup

/-- The same ledger and nonces, and these records. -/
def Remembers (store : Store) (records : String → Option Record) (after : Store) : Prop :=
  after.ledger = store.ledger ∧ after.nonceOwner = store.nonceOwner ∧ after.records.lookup = records

theorem journal_remembers (event : Event) :
    machine.Upholds allowed (fun _ => True) (fun result _ => Remembers store store.records.lookup result.2)
      (store.journal host event) disk := by
  have idle : Attended allowed False := nofun
  refine (journal_proceeds idle nofun trivial fun _ _ _ _ _ _ => trivial).upholds.weaken (fun _ _ => trivial) ?_
  intro result last _ journaled
  cases journaled <;> exact ⟨rfl, rfl, rfl⟩

theorem markUnknownOnRestart_remembers {records : String → Option Record}
    {rest : List (Sigma fun _ : String => Record)} (distinct : rest.NodupKeys)
    (listed : ∀ entry ∈ rest, records entry.1 = some entry.2) (halfway : Halfway store records rest) :
    machine.Upholds allowed (fun _ => True) (fun marked _ => Remembers store (restarted records) marked)
      (markUnknownOnRestart host store rest) disk := by
  induction rest generalizing store disk with
  | nil => exact .pure trivial ⟨rfl, rfl, funext fun instanceId => by simpa using halfway instanceId⟩
  | cons entry rest ih =>
    obtain ⟨instanceId, record⟩ := entry
    obtain ⟨new, distinct⟩ := List.nodupKeys_cons.mp distinct
    obtain ⟨known, listed⟩ := List.forall_mem_cons.mp listed
    dsimp only at new known
    have kept : ∀ other, other ≠ instanceId → store.records.lookup other =
        if other ∈ rest.keys then records other else restarted records other := by
      intro other apart
      simpa [apart] using halfway other
    unfold markUnknownOnRestart
    split
    next stopped =>
      refine ih distinct listed fun other => ?_
      by_cases same : other = instanceId
      · subst same
        rw [halfway, if_pos (by simp), if_neg new, restarted, known, Option.map_some, Record.restarted_other stopped]
      · exact kept other same
    next executing =>
      have executing := not_not.mp executing
      refine (journal_remembers _).bind fun result last _ memory => ?_
      obtain ⟨durable, after⟩ := result
      obtain ⟨ledger, owners, same⟩ := memory
      cases durable with
      | false => exact ⟨trivial, fun _ reply => reply.elim⟩
      | true =>
        refine (ih distinct listed fun other => ?_).weaken (fun _ _ => trivial) fun marked _ _ memory =>
          ⟨memory.1.trans ledger, memory.2.1.trans owners, memory.2.2⟩
        by_cases named : other = instanceId
        · subst named
          rw [AList.lookup_insert, if_neg new, restarted, known, Option.map_some,
            Record.restarted_executing executing]
        · rw [AList.lookup_insert_ne named]
          exact (congrFun same other).trans (kept other named)

/-- Whatever stands in the directory, a store that comes up has read it. -/
theorem boot_reads : machine.Upholds allowed (fun _ => True)
    (fun state _ => ∀ store, state = some store → ∃ journal ledger, Booted host disk store journal ledger)
    (boot host) disk := by
  refine boot_upholds_of trivial trivial trivial nofun fun journal ledger folded passed folds => ?_
  have halfway : Halfway (opened journal ledger folded) folded.records.lookup folded.records.entries := by
    intro instanceId
    split
    · rfl
    next outside =>
      have unknown : folded.records.lookup instanceId = none := AList.lookup_eq_none.mpr outside
      simp [opened, restarted, unknown]
  refine (markUnknownOnRestart_remembers folded.records.nodupKeys
    (fun entry member => AList.mem_lookup_iff.mpr member) halfway).bind fun store last _ memory => ?_
  obtain ⟨same, owners, records⟩ := memory
  refine .ask trivial fun choice reply after _ _ => ?_
  cases reply with
  | false => exact .pure trivial nofun
  | true =>
    refine .pure trivial fun other up => ?_
    cases up
    exact ⟨journal, ledger, passed, same, folded, folds, owners, records⟩

theorem Current.markUnknownOnRestart_upholds {rest : List (Sigma fun _ : String => Record)}
    (current : Current host store disk) :
    machine.Upholds allowed (Written host) (fun marked last => Current host marked last)
      (markUnknownOnRestart host store rest) disk := by
  induction rest generalizing store disk with
  | nil => exact .pure current.written current
  | cons entry rest ih =>
    unfold markUnknownOnRestart
    split
    · exact ih current
    · refine (current.journal_upholds _).bind fun result last written current => ?_
      obtain ⟨durable, after⟩ := result
      cases durable with
      | false => exact ⟨written, fun _ reply => reply.elim⟩
      | true => exact ih ⟨current.written, current.backed⟩

/-- The lines of a file that a boot accepts were handed to a write. -/
theorem Written.derived {chain : Chain} (written : Written host disk) (which : Which)
    (verified : Ledger.verify host (disk.log which).file = .ok chain) :
    chain.Derived host ∧ chain.events.Sublist (disk.handed which) := by
  obtain ⟨derived, events⟩ := Ledger.verify_derived verified
  have within := written.lines which
  have plain : (disk.log which).file.lines.reduceOption.map Json.lastWins = (disk.log which).file.lines.reduceOption := by
    rw [List.map_congr_left fun line member => written.plain which line (within.subset member)]
    exact List.map_id _
  rw [events, plain]
  exact ⟨derived, within⟩

theorem Written.boot_upholds (written : Written host disk) :
    machine.Upholds allowed (Written host)
      (fun state last => match state with
        | none => Written host last
        | some store => Current host store last)
      (boot host) disk := by
  refine boot_upholds_of written written.trim written.trim.trim written.trim.trim
    fun journal ledger folded passed _ => ?_
  obtain ⟨journaled, ledgered, _⟩ := checks_ok passed
  have opening : Current host (opened journal ledger folded) ((disk.trim .journal).trim .ledger) := by
    refine ⟨written.trim.trim, fun which => ?_⟩
    rw [Disk.trim_handed, Disk.trim_handed]
    cases which with
    | journal =>
      obtain ⟨derived, within⟩ := written.derived .journal journaled
      exact ⟨journal, derived, within, rfl, rfl⟩
    | ledger =>
      obtain ⟨derived, within⟩ := written.derived .ledger ledgered
      exact ⟨ledger, derived, within, rfl, rfl⟩
  refine opening.markUnknownOnRestart_upholds.bind fun store last written current => ?_
  refine (Current.writeAnchor_upholds current).bind fun wrote last written current => ?_
  cases wrote with
  | false => exact .pure written written
  | true => exact .pure written current

/-! ## Runs -/

/-- What a run leaves in the directory was handed to a write, up to the position of the store
that serves. -/
def Records (host : Host) : Option Store → Disk → Prop
  | none, disk => Written host disk
  | some store, disk => Current host store disk

theorem Records.written {state : Option Store} (records : Records host state disk) : Written host disk := by
  cases state with
  | none => exact records
  | some store => exact Current.written records

theorem Records.lasts {final : Server.Config Disk Store Call Answer}
    (reached : (server host).Reachable { world := {} } final) : Records host final.state final.world := by
  refine Server.Reaches.invariant (fun state world _ => Records host state world) ?_ ?_ ?_ ?_ reached
  · intro world answered written
    refine (Written.boot_upholds written).weaken (fun _ written left survives => written.survives survives) ?_
    intro state last _ outcome
    cases state with
    | none => exact outcome
    | some store => exact outcome
  · intro call store world answered _ current
    refine (Current.handle_upholds current).weaken (fun _ written left survives => written.survives survives) ?_
    intro result last _ outcome
    obtain ⟨after, same, current⟩ := outcome
    rw [same]
    exact current
  · intro state world left answered records survives
    exact records.written.survives survives
  · refine ⟨fun which => ?_, fun which line member => ?_, nofun⟩
    · cases which <;> exact .slnil
    · cases which <;> exact absurd member List.not_mem_nil

/-- The lines of a run up to the anchor. -/
structure Prefixes (host : Host) (disk : Disk) (anchor : Anchor) (lines : Which → List Json) : Prop where
  handed : ∀ which, (lines which).Sublist (disk.handed which)
  length : ∀ which, (lines which).length = anchor.seq which
  chained : ∀ which, ∃ chain : Chain, chain.Derived host ∧ chain.events = lines which ∧
    chain.head = anchor.head which

/-- The lines that were booted start with these. -/
structure Continues (host : Host) (lines booted : List Json) : Prop where
  text : List.Forall₂ (SameLine host) (booted.take lines.length) lines
  value : Distinguishes host.library → List.Forall₂ Json.Same (booted.take lines.length) lines

/-- Whatever becomes of journal and ledger while the anchor stays: no boot accepts them but
with the anchored lines of the run at their start. -/
def Unrewritable (host : Host) (disk : Disk) : Prop :=
  ∀ anchor, disk.anchor = some anchor → ∃ lines, Prefixes host disk anchor lines ∧
    ∀ edited : Disk, edited.anchor = some anchor → ∀ store last,
      machine.Runs (fun _ _ _ => True) (boot host) edited (some (some store)) last →
      ∃ journal ledger, Booted host edited store journal ledger ∧
        Continues host (lines .journal) journal.events ∧ Continues host (lines .ledger) ledger.events

theorem continues_of_anchored {lines : List Json} {chain other : Chain} {file : File Json} {code : String} (which : Which)
    (collisionFree : CollisionFree host) (plain : ∀ line ∈ lines, line.lastWins = line)
    (derived : chain.Derived host) (events : chain.events = lines) (length : lines.length = anchor.seq which)
    (head : chain.head = anchor.head which) (verified : Ledger.verify host file = .ok other)
    (anchored : Anchor.prefixOk code (anchor.seq which) (anchor.head which) other.hashes = .ok ()) :
    Continues host lines other.events := by
  obtain ⟨readable, read⟩ := Ledger.verify_derived verified
  obtain ⟨before, cut, held, counted, ends⟩ := readable.cut anchored
  have same := cut.committed collisionFree derived (by rw [counted, events, length]) (ends.trans head.symm)
  rw [held, events, ← length] at same
  refine ⟨same, fun distinguishes => SameLine.all same distinguishes (fun line member => ?_) fun line member => ?_⟩
  · have member := List.mem_of_mem_take member
    rw [read] at member
    obtain ⟨json, _, rfl⟩ := List.mem_map.mp member
    exact ⟨json, rfl⟩
  · exact ⟨line, plain line member⟩

theorem Written.unrewritable (written : Written host disk) (collisionFree : CollisionFree host) :
    Unrewritable host disk := by
  intro anchor present
  have backed := written.anchor anchor present
  choose chains derived handed length head using backed
  refine ⟨fun which => (chains which).events, ⟨handed, length, fun which => ⟨chains which, derived which, rfl,
    head which⟩⟩, fun edited kept store last ran => ?_⟩
  obtain ⟨journal, ledger, booted⟩ := (boot_reads.runs ran).2 _ rfl store rfl
  refine ⟨journal, ledger, booted, ?_⟩
  obtain ⟨journaled, ledgered, anchored, _⟩ := checks_ok booted.checked
  rw [Disk.readAnchor, kept] at anchored
  obtain ⟨first, second⟩ := anchored_iff.mp anchored
  have plain : ∀ which, ∀ line ∈ (chains which).events, line.lastWins = line :=
    fun which line member => written.plain which line ((handed which).subset member)
  constructor
  · exact continues_of_anchored .journal collisionFree (plain .journal) (derived .journal) rfl (length .journal)
      (head .journal) journaled first
  · exact continues_of_anchored .ledger collisionFree (plain .ledger) (derived .ledger) rfl (length .ledger)
      (head .ledger) ledgered second

theorem history_anchored (collisionFree : CollisionFree host) (encodes : Encodes host) :
    (∀ final, (server host).Reachable { world := {} } final → Unrewritable host final.world) ∧
    ∀ final, (server host).Reaches Served (fun _ => True) { world := {} } final → final.state = none →
      Boots host final.world fun _ => True := by
  constructor
  · intro final reached
    exact (Records.lasts reached).written.unrewritable collisionFree
  · intro final reached stopped
    have tolerable : Tolerable Served := fun ⟨_, _, _, permitted, refused⟩ => absurd permitted refused
    have keeps := Keeps.lasts tolerable reached
    rw [stopped] at keeps
    exact Recovers.boots keeps encodes

/-! A claim of the probe, under a hash that spells out what it hashes. -/

namespace Spelled

/-- Two digits for each byte. -/
def hex (bytes : Bytes) : String :=
  String.ofList (bytes.flatMap fun byte => [Nat.digitChar (byte.toNat / 16), Nat.digitChar (byte.toNat % 16)])

def quote (text : String) : String := "\"" ++ text ++ "\""

mutual

/-- The canonical text of values whose strings need no escape. -/
def print : Json → String
  | .null => "null"
  | .bool value => if value then "true" else "false"
  | .int value => toString value
  | .float value => toString value.num ++ "/" ++ toString value.den
  | .string text => quote text
  | .array items => "[" ++ ",".intercalate (printItems items) ++ "]"
  | .object entries =>
    "\x7b" ++ ",".intercalate ((printEntries entries).insertionSort fun left right => left ≤ right) ++ "\x7d"

def printItems : List Json → List String
  | [] => []
  | item :: items => print item :: printItems items

def printEntries : List (String × Json) → List String
  | [] => []
  | (key, value) :: entries => (quote key ++ ":" ++ print value) :: printEntries entries

end

def encoded (json : Json) : Bytes := (print json).toUTF8.toList

def certificate : Certificate :=
  { Fence.probeCertificate with effectDigest := "sha256:" ++ hex [0x7b, 1] }

/-- Two short texts, each read back to its own value; any other value is spelled out. -/
def library : Json.Library where
  decode bytes :=
    if bytes = [0x7b, 1] then some Fence.probeEffect
    else if bytes = [0x7b, 3] then some (certificate.fields Fence.probeSignature)
    else none
  encode json :=
    if (json.string? "capability").isSome then some [0x7b, 1]
    else if (json.string? "nonce").isSome then some [0x7b, 3]
    else some (print json).toUTF8.toList

def spelledHost : Host where
  library := library
  sha256 := hex
  kidOf _ _ := some "kid"
  supports _ := true
  verify _ message _ key :=
    if message = SignedMessage.header ++ [0x7b, 3] ∧ key = .single [7] then .ok () else .error "bad_signature"

def call : Call :=
  .execute Fence.probeContext { Fence.probeRequest with bytes := [0x7b, 1], cert := certificate }

theorem call_played : ∃ answer store last,
    machine.play Probe.executes (handle spelledHost call Probe.empty) Probe.anchored =
      some (some (answer, some store), last) ∧ last.anchor.map (·.journalSeq) = some 2 ∧ last.journaled.length = 2 ∧
      last.journal.synced.torn = false ∧ last.ledger.synced.torn = false ∧ last.ledger.synced.lines = [] := by
  have played : (machine.play Probe.executes (handle spelledHost call Probe.empty) Probe.anchored).map (fun result =>
      (result.1.map (·.2.isSome), result.2.anchor.map (·.journalSeq), result.2.journaled.length,
        result.2.journal.synced.torn, result.2.ledger.synced.torn, result.2.ledger.synced.lines.isEmpty)) =
      some (some true, some 2, 2, false, false, true) := by
    decide +kernel
  obtain ⟨⟨result, last⟩, given, same⟩ := Option.map_eq_some_iff.mp played
  simp only [Prod.mk.injEq, Option.map_eq_some_iff, List.isEmpty_iff] at same
  obtain ⟨⟨⟨answer, next⟩, rfl, up⟩, ⟨anchor, present, seq⟩, facts⟩ := same
  obtain ⟨store, rfl⟩ := Option.isSome_iff_exists.mp up
  exact ⟨answer, store, last, given, by rw [present, Option.map_some, seq], facts⟩

/-- Choices under which nothing fails. -/
theorem served_of_exec {choices : List Choice} (calm : ∀ choice ∈ choices, ∀ landed, choice ≠ .fails landed) :
    ∀ choice ∈ choices, ∀ op disk reply after,
      machine.exec () op choice disk = some (reply, after) → Served op choice disk := by
  intro choice member op disk reply after served
  cases choice with
  | fails landed => exact absurd rfl (calm _ member landed)
  | served => cases op <;> trivial
  | clock time => cases op <;> trivial

theorem boots_calm : ∀ choice ∈ Probe.boots, ∀ landed, choice ≠ .fails landed := by simp [Probe.boots]

theorem executes_calm : ∀ choice ∈ Probe.executes, ∀ landed, choice ≠ .fails landed := by simp [Probe.executes]

theorem digitChar_injective : ∀ first second : Fin 16, Nat.digitChar first = Nat.digitChar second → first = second := by decide
theorem hex_injective : Function.Injective hex := by
  intro first second same
  have digits : (first.flatMap fun byte => [Nat.digitChar (byte.toNat / 16), Nat.digitChar (byte.toNat % 16)]) =
      second.flatMap fun byte => [Nat.digitChar (byte.toNat / 16), Nat.digitChar (byte.toNat % 16)] := by
    simpa only [hex, String.toList_ofList] using congrArg String.toList same
  clear same
  induction first generalizing second with
  | nil =>
    cases second with
    | nil => rfl
    | cons byte rest => simp at digits
  | cons byte rest ih =>
    cases second with
    | nil => simp at digits
    | cons other others =>
      simp only [List.flatMap_cons, List.cons_append, List.nil_append, List.cons.injEq] at digits
      obtain ⟨high, low, rest'⟩ := digits
      have small := byte.toNat_lt
      have small' := other.toNat_lt
      have highs := digitChar_injective ⟨byte.toNat / 16, by omega⟩ ⟨other.toNat / 16, by omega⟩ high
      have lows := digitChar_injective ⟨byte.toNat % 16, by omega⟩ ⟨other.toNat % 16, by omega⟩ low
      simp only [Fin.mk.injEq] at highs lows
      have same : byte = other := UInt8.toNat_inj.mp (by omega)
      rw [same, ih rest']

theorem utf8_ofList (chars : List Char) :
    (String.ofList chars).toUTF8.toList = chars.flatMap String.utf8EncodeChar := by
  rw [toUTF8_toList, String.toByteArray_ofList, List.utf8Encode, List.toList_data_toByteArray]

theorem digit_bare : ∀ digit : Fin 16, 0x7b ∉ String.utf8EncodeChar (Nat.digitChar digit) := by decide

theorem opens (entries : List (String × Json)) : (print (.object entries)).toUTF8.toList.head? = some 0x7b := by
  have brace : "\x7b".toByteArray.data.toList = [0x7b] := by decide
  rw [print, toUTF8_toList, String.append_assoc, String.toByteArray_append, ByteArray.toList_data_append, brace]
  rfl

theorem collisionFree : CollisionFree spelledHost := by
  refine ⟨hex_injective, fun bytes member => ?_, fun entries text encodes => ?_⟩
  · have member : 0x7b ∈ (hex bytes).toUTF8.toList := member
    rw [hex, utf8_ofList] at member
    obtain ⟨char, member, given⟩ := List.mem_flatMap.mp member
    obtain ⟨byte, _, digit⟩ := List.mem_flatMap.mp member
    have small := byte.toNat_lt
    simp only [List.mem_cons, List.not_mem_nil, or_false] at digit
    obtain rfl | rfl := digit
    · exact digit_bare ⟨byte.toNat / 16, by omega⟩ given
    · exact digit_bare ⟨byte.toNat % 16, by omega⟩ given
  · have encodes : library.encode (.object entries) = some text := encodes
    unfold library at encodes
    dsimp only at encodes
    split at encodes
    · cases encodes; rfl
    · split at encodes
      · cases encodes; rfl
      · cases encodes
        exact opens entries
theorem encodes : Encodes spelledHost := by
  intro instanceId reason time seq prev
  have some : ∀ json, spelledHost.library.encode json ≠ none := by
    intro json
    show library.encode json ≠ none
    unfold library
    dsimp only
    split
    · nofun
    · split <;> nofun
  simp [Ledger.chained, Ledger.hash, some]
end Spelled

open Spelled in
theorem history_anchored_spelled : ∃ final : Server.Config Disk Store Call Answer,
    final.world.anchor.map (·.journalSeq) = some 2 ∧ final.world.journaled.length = 2 ∧
      Unrewritable spelledHost final.world ∧ Boots spelledHost final.world fun _ => True := by
  obtain ⟨answer, store, last, played, anchor, journaled, journal, torn, none⟩ := call_played
  have booted : machine.play Probe.boots (boot spelledHost) {} =
      some (some (some Probe.empty), Probe.anchored) := rfl
  have served : (server spelledHost).Reaches Served (fun _ => True) { world := {} }
      ⟨last, some store, [(call, answer)]⟩ :=
    .step (.step .start (.started (Machine.runs_of_served (served_of_exec boots_calm) booted)))
      (.handled trivial (Machine.runs_of_served (served_of_exec executes_calm) played))
  have survives : last.Survives (Probe.stopped last) := by
    have stands : Holds spelledHost Watch.idle (some store) last :=
      Holds.lasts (fun _ _ _ _ => trivial) served Halted.empty
    obtain ⟨_, events, serving⟩ := stands
    refine ⟨⟨⟨serving.tracks.begins, ?_⟩, .refl _, rfl⟩, ⟨⟨?_, ?_⟩, .refl _, rfl⟩, rfl, rfl, rfl, rfl, rfl⟩
    · exact fun _ cut => absurd cut (by simp [journal])
    · rw [none]
      exact List.nil_prefix
    · exact fun _ cut => absurd cut (by simp [torn])
  have stopped : (server spelledHost).Reaches Served (fun _ => True) { world := {} }
      ⟨Probe.stopped last, .none, [(call, answer)]⟩ := .step served (.stopped survives)
  exact ⟨_, anchor, journaled, (history_anchored collisionFree encodes).1 _ (stopped.widen fun _ _ _ _ => trivial),
    (history_anchored collisionFree encodes).2 _ stopped rfl⟩

end Store

end AshA2A.Actuator
