import AshA2A.AuthorityService.Surroundings

/-! Replaying the issuance journal, appending to it and opening it. -/

namespace AshA2A.AuthorityService.Journal

open Sa2aCrypto Concurrency AppendLog

variable {host : Host}

/-! ## Replay -/

theorem replayLines_append (journal : Journal) (first second : List (Option Entry)) :
    replayLines host journal (first ++ second) =
      match replayLines host journal first with
      | .ok middle => replayLines host middle second
      | .error reason => .error reason := by
  induction first generalizing journal with
  | nil => rfl
  | cons line lines ih =>
    simp only [List.cons_append, replayLines]
    cases entry host journal line with
    | ok after => exact ih after
    | error reason => rfl

theorem entry_ok {journal after : Journal} {line : Option Entry} (read : entry host journal line = .ok after) :
    ∃ content, line = some content ∧ content.seq = journal.seq + 1 ∧
      after = ({ journal with
        seq := content.seq
        head := content.hash
        heads := (content.seq, content.hash) :: journal.heads } : Journal).applyEntry content.body := by
  cases line with
  | none => simp [entry] at read
  | some content =>
    simp only [entry] at read
    split at read
    · cases read
    next seq =>
      split at read
      · cases read
      split at read
      · cases read
      cases read
      exact ⟨content, rfl, not_not.mp seq, rfl⟩

/-- A certificate that the journal remembers. -/
structure Recorded (journal : Journal) (body : Body) : Prop where
  nonce : body.nonce ∈ journal.nonces
  issued : (body.effectDigest, body.generation) ∈ journal.issued
  approvals : ∀ approval ∈ body.approvals, approval ∈ journal.approvals

theorem recorded_applyEntry (journal : Journal) (body : Body) : (journal.applyEntry body).Recorded body :=
  ⟨Finset.mem_insert_self _ _, Finset.mem_insert_self _ _, fun _ member =>
    Finset.mem_union_right _ (List.mem_toFinset.mpr member)⟩

theorem Recorded.applyEntry {journal : Journal} {body : Body} (recorded : journal.Recorded body) (other : Body) :
    (journal.applyEntry other).Recorded body :=
  ⟨Finset.mem_insert_of_mem recorded.nonce, Finset.mem_insert_of_mem recorded.issued, fun approval member =>
    Finset.mem_union_left _ (recorded.approvals approval member)⟩

theorem replayLines_recorded {journal after : Journal} {lines : List (Option Entry)}
    (replayed : replayLines host journal lines = .ok after) :
    (∀ content, some content ∈ lines → after.Recorded content.body) ∧
      ∀ body, journal.Recorded body → after.Recorded body := by
  induction lines generalizing journal with
  | nil =>
    cases replayed
    exact ⟨nofun, fun _ recorded => recorded⟩
  | cons line lines ih =>
    simp only [replayLines] at replayed
    split at replayed
    next middle read =>
      obtain ⟨content, rfl, _, rfl⟩ := entry_ok read
      obtain ⟨rest, kept⟩ := ih replayed
      refine ⟨fun other member => ?_, fun body recorded => ?_⟩
      · obtain same | member := List.mem_cons.mp member
        · cases same
          exact kept _ (recorded_applyEntry _ _)
        · exact rest other member
      · refine kept body (Recorded.applyEntry ?_ _)
        exact ⟨recorded.nonce, recorded.issued, recorded.approvals⟩
    next => cases replayed

theorem replay_ok {file : File Entry} {journal : Journal} (replayed : replay host file = .ok journal) :
    file.torn = false ∧ replayLines host {} file.lines = .ok journal := by
  unfold replay at replayed
  split at replayed
  · cases replayed
  next whole => exact ⟨by simpa using whole, replayed⟩

theorem replay_recorded {file : File Entry} {journal : Journal} (replayed : replay host file = .ok journal)
    {content : Entry} (member : some content ∈ file.lines) : journal.Recorded content.body :=
  (replayLines_recorded (replay_ok replayed).2).1 content member

/-! ## The head -/

/-- Where an anchor with the head of this journal would be found again. -/
def Headed (journal : Journal) : Prop :=
  journal.seq = 0 ∧ journal.head = genesis ∨ journal.heads.lookup journal.seq = some journal.head

theorem replayLines_headed {journal after : Journal} {lines : List (Option Entry)} (headed : journal.Headed)
    (replayed : replayLines host journal lines = .ok after) : after.Headed := by
  induction lines generalizing journal with
  | nil => cases replayed; exact headed
  | cons line lines ih =>
    simp only [replayLines] at replayed
    split at replayed
    next middle read =>
      obtain ⟨content, rfl, _, rfl⟩ := entry_ok read
      exact ih (.inr (by simp [Journal.applyEntry])) replayed
    next => cases replayed

theorem replay_headed {file : File Entry} {journal : Journal} (replayed : replay host file = .ok journal) :
    journal.Headed := replayLines_headed (.inl ⟨rfl, rfl⟩) (replay_ok replayed).2

theorem Headed.checkAnchor {journal : Journal} (headed : journal.Headed) :
    journal.checkAnchor (.found ⟨journal.seq, journal.head⟩) = .ok () := by
  obtain ⟨zero, head⟩ | known := headed
  · simp [Journal.checkAnchor, zero, head]
  · simp [Journal.checkAnchor, known]

/-! ## The journal in memory and the file -/

/-- The server's journal is the replay of its file, and the anchor names the head. -/
structure Replays (host : Host) (disk : Disk) (journal : Journal) : Prop where
  replay : ∃ full, Journal.replay host disk.journal.file = .ok full ∧ full.opened = journal
  anchor : disk.anchor = some ⟨journal.seq, journal.head⟩

/-- What a whole line adds to the replay. -/
theorem replay_write {file : File Entry} {full : Journal} {body : Body} {hash : String}
    (replayed : replay host file = .ok full)
    (linked : link host full.head (full.seq + 1) body = some hash) :
    replay host (file.write (full.next body hash).1 .whole) =
      .ok (({ (full.next body hash).2 with heads := (full.seq + 1, hash) :: full.heads } : Journal).applyEntry
        body) := by
  obtain ⟨whole, lines⟩ := replay_ok replayed
  rw [File.write_whole _ _ whole]
  simp [replay, replayLines_append, lines, replayLines, entry, next, linked]

theorem Replays.append {disk : Disk} {journal : Journal} {body : Body} {hash : String}
    (replays : Replays host disk journal) (linked : link host journal.head (journal.seq + 1) body = some hash) :
    ∃ full, Journal.replay host (disk.journal.file.write (journal.next body hash).1 .whole) = .ok full ∧
      full.opened = (journal.next body hash).2.applyEntry body := by
  obtain ⟨full, replayed, rfl⟩ := replays.replay
  have written := replay_write replayed linked
  exact ⟨_, written, rfl⟩

/-- Opened again, the file gives the same journal. -/
theorem Replays.reopens {disk : Disk} {journal : Journal} (replays : Replays host disk journal) :
    ∃ last, machine.play [.served, .served, .served, .served] (Journal.open host) disk =
      some (some (.ok journal), last) := by
  obtain ⟨full, replayed, rfl⟩ := replays.replay
  have anchored : disk.readAnchor = .found ⟨full.seq, full.head⟩ := by
    rw [Disk.readAnchor, replays.anchor]
    rfl
  have checked := (replay_headed replayed).checkAnchor
  refine ⟨{ disk with anchor := some ⟨full.seq, full.head⟩ }, ?_⟩
  simp [Journal.open, Service.readJournal, Service.readAnchor, Service.openJournal, writeAnchor, machine,
    Machine.play, exec, replayed, anchored, checked, Journal.opened]

/-! ## What a request does -/

variable {choice : Choice} {disk after : Disk}

/-- Requests that leave the disk alone. -/
def Quiet : Op → Prop
  | .write _ | .sync | .writeAnchor _ => False
  | _ => True

theorem exec_quiet {op : Op} {reply : op.Reply} (quiet : Quiet op)
    (served : machine.exec () op choice disk = some (reply, after)) : after = disk := by
  cases op <;> first | exact quiet.elim | cases choice <;> cases served <;> rfl

theorem exec_readJournal {reply : Option (File Entry)}
    (served : machine.exec () .readJournal choice disk = some (reply, after)) :
    after = disk ∧ ∀ file, reply = some file → file = disk.journal.file := by
  cases choice <;> cases served
  · exact ⟨rfl, fun _ same => (Option.some.inj same).symm⟩
  · exact ⟨rfl, nofun⟩

theorem exec_write {line : Entry} {reply : Bool}
    (served : machine.exec () (.write line) choice disk = some (reply, after)) :
    ∃ landed, after = { disk with journal := disk.journal.write line landed } ∧ (reply = true → landed = .whole) := by
  cases choice <;> cases served
  · exact ⟨_, rfl, fun _ => rfl⟩
  · exact ⟨_, rfl, nofun⟩

theorem exec_sync {reply : Bool} (served : machine.exec () .sync choice disk = some (reply, after)) :
    reply = true ∧ after = { disk with journal := disk.journal.sync } ∨ reply = false ∧ after = disk := by
  cases choice <;> cases served
  · exact .inl ⟨rfl, rfl⟩
  · exact .inr ⟨rfl, rfl⟩

theorem exec_writeAnchor {anchor : Anchor} {reply : Bool}
    (served : machine.exec () (.writeAnchor anchor) choice disk = some (reply, after)) :
    reply = true ∧ after = { disk with anchor := some anchor } ∨ reply = false ∧ after = disk := by
  cases choice <;> cases served
  · exact .inl ⟨rfl, rfl⟩
  · exact .inr ⟨rfl, rfl⟩

/-! ## Opening and appending -/

variable {allowed : Op → Choice → Disk → Prop} {always : Disk → Prop}

/-- A journal that opens is the replay of its file. -/
theorem open_upholds (kept : ∀ last, last.journal = disk.journal → always last) :
    machine.Upholds allowed always
      (fun result last => last.journal = disk.journal ∧
        ∀ journal, result = .ok journal → Replays host last journal) (Journal.open host) disk := by
  have unread : ∀ reason : String, machine.Upholds allowed always
      (fun result last => last.journal = disk.journal ∧
        ∀ journal, result = .ok journal → Replays host last journal)
      (pure (.error reason) : Service (Except String Journal)) disk :=
    fun _ => .pure (kept _ rfl) ⟨rfl, nofun⟩
  unfold Journal.open Service.readJournal
  refine .ask (kept _ rfl) fun choice reply after _ served => ?_
  obtain ⟨rfl, contents⟩ := exec_readJournal served
  cases reply with
  | none => exact unread _
  | some file =>
    cases contents file rfl
    cases replayed : replay host after.journal.file with
    | error reason => simp only [replayed]; exact unread _
    | ok full =>
      simp only [replayed]
      refine .ask (kept _ rfl) fun choice anchor _ _ served => ?_
      obtain rfl := exec_quiet (show Quiet .readAnchor from trivial) served
      cases checked : checkAnchor full anchor with
      | error reason => exact unread _
      | ok _ =>
        refine .ask (kept _ rfl) fun choice reply _ _ served => ?_
        obtain rfl := exec_quiet (show Quiet .openJournal from trivial) served
        cases reply with
        | false => exact unread _
        | true =>
          refine .ask (kept _ rfl) fun choice reply _ _ served => ?_
          obtain ⟨rfl, rfl⟩ | ⟨rfl, rfl⟩ := exec_writeAnchor served
          · refine .pure (kept _ rfl) ⟨rfl, fun journal same => ?_⟩
            cases same
            exact ⟨⟨full, replayed, rfl⟩, rfl⟩
          · exact unread _

/-- The states of the disk while this line is appended. -/
inductive Appending (disk : Disk) (line : Entry) : Disk → Prop where
  | written (landed : Landed) (anchor : Option Anchor) :
      Appending disk line ⟨disk.journal.write line landed, anchor⟩
  | synced (anchor : Option Anchor) : Appending disk line ⟨(disk.journal.write line .whole).sync, anchor⟩

theorem Appending.start {line : Entry} : Appending disk line disk := .written .nothing disk.anchor

theorem append_upholds {journal : Journal} {body : Body}
    (kept : ∀ hash last, Appending disk (journal.next body hash).1 last → always last) :
    machine.Upholds allowed always
      (fun result last => ∃ hash, Appending disk (journal.next body hash).1 last ∧
        ∀ after, result = some after → link host journal.head (journal.seq + 1) body = some hash ∧
          after = (journal.next body hash).2.applyEntry body ∧
          last = ⟨(disk.journal.write (journal.next body hash).1 .whole).sync, some ⟨after.seq, after.head⟩⟩)
      (journal.append host body) disk := by
  unfold append
  cases linked : link host journal.head (journal.seq + 1) body with
  | none => exact ⟨kept "" _ .start, fun _ reply => reply.elim⟩
  | some hash =>
    refine .ask (kept hash _ .start) fun choice reply _ _ served => ?_
    obtain ⟨landed, rfl, whole⟩ := exec_write served
    cases reply with
    | false => exact .pure (kept hash _ (.written _ _)) ⟨hash, .written _ _, nofun⟩
    | true =>
      cases whole rfl
      refine .ask (kept hash _ (.written _ _)) fun choice reply _ _ served => ?_
      obtain ⟨rfl, rfl⟩ | ⟨rfl, rfl⟩ := exec_sync served
      · refine .ask (kept hash _ (.synced _)) fun choice reply _ _ served => ?_
        obtain ⟨rfl, rfl⟩ | ⟨rfl, rfl⟩ := exec_writeAnchor served
        · refine .pure (kept hash _ (.synced _)) ⟨hash, .synced _, fun after same => ?_⟩
          cases same
          exact ⟨rfl, rfl, rfl⟩
        · exact .pure (kept hash _ (.synced _)) ⟨hash, .synced _, nofun⟩
      · exact .pure (kept hash _ (.written _ _)) ⟨hash, .written _ _, nofun⟩

end AshA2A.AuthorityService.Journal
