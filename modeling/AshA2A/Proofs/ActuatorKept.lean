import AshA2A.Proofs.ActuatorFold

/-! A journal and a ledger that a boot accepts, and which lines can follow. -/

namespace AshA2A.Actuator

open Sa2aCrypto Concurrency AppendLog Store

variable {host : Host} {events entries : List Json} {journal ledger : Chain}

/-! ## Heads of chains -/

/-- The head of a chain is its last hash. -/
def Chain.Headed (chain : Chain) : Prop :=
  chain.hashes.length = chain.events.length ∧ chain.head = chain.hashes.getLast?.getD Ledger.zero

theorem Ledger.link_headed {chain after : Chain} {event : Json} (headed : chain.Headed)
    (linked : link host chain event = .ok after) : after.Headed := by
  obtain ⟨_, _, hash, _, _, rfl⟩ := link_ok linked
  exact ⟨by simp [headed.1], by simp⟩

theorem Ledger.links_headed {chain after : Chain} (headed : chain.Headed)
    (linked : links host chain events = .ok after) : after.Headed := by
  induction events generalizing chain with
  | nil => cases linked; exact headed
  | cons event events ih =>
    simp only [links] at linked
    split at linked
    next middle accepted => exact ih (link_headed headed accepted) linked
    next => cases linked

/-- A chain has its own head at its end. -/
theorem Anchor.prefixOk_head {chain : Chain} {code : String} (headed : chain.Headed) :
    prefixOk code chain.events.length chain.head chain.hashes = .ok () := by
  obtain ⟨counted, head⟩ := headed
  unfold prefixOk
  split
  next none =>
    rw [none, List.length_eq_zero_iff] at counted
    simp [head, counted]
  next some =>
    rw [head, ← counted, ← List.getLast?_eq_getElem?]
    cases last : chain.hashes.getLast? with
    | none => simp [List.getLast?_eq_none_iff.mp last] at counted; omega
    | some hash => simp

theorem Anchor.prefixOk_append {code head : String} {count : Nat} {hashes : List String} (more : List String)
    (passed : prefixOk code count head hashes = .ok ()) : prefixOk code count head (hashes ++ more) = .ok () := by
  unfold prefixOk at passed ⊢
  split
  next none => simpa [none] using passed
  next some =>
    rw [if_neg some] at passed
    split at passed
    next found =>
      have bound := (List.getElem?_eq_some_iff.mp found).1
      rw [List.getElem?_append_left bound, if_pos found]
    next => cases passed

/-- The anchor stands in both chains. -/
def Anchored (journal ledger : Chain) (anchor : Anchor) : Prop :=
  Anchor.check journal.hashes ledger.hashes (.found anchor) = .ok ()

theorem anchored_iff {anchor : Anchor} : Anchored journal ledger anchor ↔
    Anchor.prefixOk "journal_truncated" anchor.journalSeq anchor.journalHead journal.hashes = .ok () ∧
      Anchor.prefixOk "ledger_truncated" anchor.ledgerSeq anchor.ledgerHead ledger.hashes = .ok () := by
  simp only [Anchored, Anchor.check, bind_ok_iff]
  exact ⟨fun ⟨_, first, second⟩ => ⟨first, second⟩, fun ⟨first, second⟩ => ⟨(), first, second⟩⟩

theorem Anchored.extend {anchor : Anchor} {journal' ledger' : Chain} (anchored : Anchored journal ledger anchor)
    (first : journal.hashes <+: journal'.hashes) (second : ledger.hashes <+: ledger'.hashes) :
    Anchored journal' ledger' anchor := by
  obtain ⟨more, journaled⟩ := first
  obtain ⟨rest, ledgered⟩ := second
  obtain ⟨left, right⟩ := anchored_iff.mp anchored
  rw [anchored_iff, ← journaled, ← ledgered]
  exact ⟨Anchor.prefixOk_append more left, Anchor.prefixOk_append rest right⟩

theorem anchored_current (first : journal.Headed) (second : ledger.Headed) :
    Anchored journal ledger ⟨journal.events.length, journal.head, ledger.events.length, ledger.head⟩ :=
  anchored_iff.mpr ⟨Anchor.prefixOk_head first, Anchor.prefixOk_head second⟩

/-! ## Journal and ledger agree -/

namespace Journal

theorem crossEvents_append (claims : List (Option String)) (first second : List Json) :
    crossEvents entries claims (first ++ second) =
      match crossEvents entries claims first with
      | .ok claims => crossEvents entries claims second
      | .error code => .error code := by
  induction first generalizing claims with
  | nil => rfl
  | cons event rest ih =>
    simp only [List.cons_append, crossEvents]
    split
    · exact ih _
    · split
      · rfl
      · split
        · rfl
        · exact ih _

/-- The claims that were met. -/
theorem mem_crossEvents {claims after : List (Option String)} {instanceId : Option String}
    (passed : crossEvents entries claims events = .ok after) :
    instanceId ∈ after ↔ instanceId ∈ claims ∨
      ∃ event ∈ events, event.string? "t" = some "executing" ∧ event.string? "instance_id" = instanceId := by
  induction events generalizing claims with
  | nil => cases passed; simp
  | cons event rest ih =>
    simp only [crossEvents] at passed
    simp only [List.mem_cons, exists_eq_or_imp]
    split at passed
    next claim =>
      rw [ih passed, List.mem_cons, or_comm (a := instanceId = _), or_assoc]
      simp [claim, eq_comm]
    next other =>
      split at passed
      · cases passed
      · split at passed
        · cases passed
        · rw [ih passed]
          simp [other]

theorem matchEntry_append {seq : Int} {instanceId hash : Option String} (more : List Json)
    (found : matchEntry entries seq instanceId hash = true) :
    matchEntry (entries ++ more) seq instanceId hash = true := by
  cases seq with
  | negSucc seq => simp [matchEntry] at found
  | ofNat seq =>
    unfold matchEntry at found ⊢
    dsimp only at found ⊢
    split at found
    next entry given =>
      rw [List.getElem?_append_left (List.getElem?_eq_some_iff.mp given).1, given]
      exact found
    next => cases found

theorem crossEvents_more {claims after : List (Option String)} (more : List Json)
    (passed : crossEvents entries claims events = .ok after) :
    crossEvents (entries ++ more) claims events = .ok after := by
  induction events generalizing claims with
  | nil => exact passed
  | cons event rest ih =>
    simp only [crossEvents] at passed ⊢
    split at passed
    next claim => simpa [claim] using ih passed
    next other =>
      split at passed
      · cases passed
      next known =>
        split at passed
        · cases passed
        next matched =>
          rw [if_neg other, if_neg known, if_neg]
          · exact ih passed
          · rintro ⟨completed, mismatched⟩
            refine matched ⟨completed, ?_⟩
            cases seq : event.int? "ledger_seq" with
            | none => simp [seq] at mismatched
            | some seq' =>
              simp only [seq, Option.any_some, Bool.not_eq_true'] at mismatched ⊢
              by_contra found
              rw [Bool.not_eq_false] at found
              rw [matchEntry_append more found] at mismatched
              cases mismatched

theorem crossCheck_ok : crossCheck events entries = .ok () ↔
    ∃ claims, crossEvents entries [] events = .ok claims ∧
      ∀ entry ∈ entries, entry.string? "effect_instance_id" ∈ claims := by
  unfold crossCheck
  cases crossEvents entries [] events with
  | error code => simp
  | ok claims => simp

end Journal

/-! ## The next line -/

/-- What an event makes of the record of its instance. -/
def Event.next (known : Option Record) : Event → Option Record
  | .executing instanceId generation effectDigest _ =>
    some { instanceId := instanceId, state := .executing, generation := generation, effectDigest := effectDigest }
  | .completed _ ledgerSeq ledgerHash =>
    known.map fun record => { record with state := .completed, ledgerSeq := ledgerSeq, ledgerHash := ledgerHash }
  | .unknownOutcome _ _ => known.map fun record => { record with state := .unknownOutcome }
  | .reconciled _ resolution _ => known.map fun record => { record with state := resolution.state }

/-- The fold of a line of the store. -/
theorem Folded.apply_line {folded : Folded} {event : Event} (time : Int) (seq : Nat) (prev hash : String)
    (known : event.kind = "executing" ∨ folded.records.lookup event.instanceId ≠ none) :
    ∃ after, folded.apply (Ledger.line (event.fields time) seq prev hash) = some after ∧
      after.records.lookup = Function.update folded.records.lookup event.instanceId
        (event.next (folded.records.lookup event.instanceId)) := by
  have named := Event.line_instance event time seq prev hash
  have kind := Event.line_kind event time seq prev hash
  have get : ∀ key, key ∉ ["seq", "prev", "hash"] →
      (Ledger.line (event.fields time) seq prev hash).get? key = (Json.object (event.fields time)).get? key :=
    fun key other => Ledger.line_get other
  have updates : ∀ {instanceId : String} {record : Record} (change : Record → Record),
      folded.records.lookup instanceId = some record → folded.update instanceId change =
        some { folded with records := folded.records.insert instanceId (change record) } :=
    fun change recorded => by rw [update, recorded]; rfl
  cases event with
  | executing instanceId generation digest nonces =>
    have generation' : (Ledger.line ((Event.executing instanceId generation digest nonces).fields time) seq prev
        hash).nat? "generation" = some generation := by
      rw [Json.nat?, get _ (by decide)]
      simp [Event.fields, Json.get?, Json.entries, List.lookup_cons]
    have digest' : (Ledger.line ((Event.executing instanceId generation digest nonces).fields time) seq prev
        hash).string? "effect_digest" = some digest := by
      rw [Json.string?, get _ (by decide)]
      simp [Event.fields, Json.get?, Json.entries, List.lookup_cons]
    refine ⟨_, by simp only [apply, named, kind, Event.kind, generation', digest', Event.line_nonces]; rfl, ?_⟩
    exact lookup_insert
  | completed instanceId ledgerSeq ledgerHash =>
    obtain ⟨record, recorded⟩ := Option.ne_none_iff_exists'.mp (known.resolve_left (by simp [Event.kind]))
    have seq' : (Ledger.line ((Event.completed instanceId ledgerSeq ledgerHash).fields time) seq prev
        hash).nat? "ledger_seq" = ledgerSeq := by
      rw [Json.nat?, get _ (by decide)]
      cases ledgerSeq <;> simp [Event.fields, Json.get?, Json.entries, List.lookup_cons]
    have hash' : (Ledger.line ((Event.completed instanceId ledgerSeq ledgerHash).fields time) seq prev
        hash).string? "ledger_hash" = ledgerHash := by
      rw [Json.string?, get _ (by decide)]
      cases ledgerHash <;> simp [Event.fields, Json.get?, Json.entries, List.lookup_cons]
    dsimp only [Event.instanceId] at recorded named ⊢
    refine ⟨_, by simp only [apply, named, kind, Event.kind, seq', hash']; exact updates _ recorded, ?_⟩
    rw [recorded]
    exact lookup_insert
  | unknownOutcome instanceId reason =>
    obtain ⟨record, recorded⟩ := Option.ne_none_iff_exists'.mp (known.resolve_left (by simp [Event.kind]))
    dsimp only [Event.instanceId] at recorded named ⊢
    refine ⟨_, by simp only [apply, named, kind, Event.kind]; exact updates _ recorded, ?_⟩
    rw [recorded]
    exact lookup_insert
  | reconciled instanceId resolution note =>
    obtain ⟨record, recorded⟩ := Option.ne_none_iff_exists'.mp (known.resolve_left (by simp [Event.kind]))
    have resolution' : (Ledger.line ((Event.reconciled instanceId resolution note).fields time) seq prev
        hash).string? "resolution" = some resolution.name := by
      rw [Json.string?, get _ (by decide)]
      simp [Event.fields, Json.get?, Json.entries, List.lookup_cons]
    dsimp only [Event.instanceId] at recorded named ⊢
    refine ⟨_, by simp only [apply, named, kind, Event.kind, resolution']; exact updates _ recorded, ?_⟩
    rw [recorded, lookup_insert]
    cases resolution <;> rfl

def Chain.snoc (chain : Chain) (line : Json) (hash : String) : Chain :=
  ⟨chain.events ++ [line], chain.hashes ++ [hash], hash⟩

/-- The line with these fields that continues the chain, with its hash. -/
structure Extends (host : Host) (chain : Chain) (fields : List (String × Json)) (line : Json) (hash : String) :
    Prop where
  line : line = Ledger.line fields chain.events.length chain.head hash
  computed : Ledger.hash host chain.head
    (.object (fields ++ [("seq", .int chain.events.length), ("prev", .string chain.head)])) = some hash

theorem Extends.of_chained {fields : List (String × Json)} {chain : Chain} {line : Json} {hash : String}
    (chains : Ledger.chained host fields chain.events.length chain.head = some (line, hash)) :
    Extends host chain fields line hash := by
  obtain ⟨written, computed⟩ := Ledger.chained_ok chains
  exact ⟨written, computed⟩

theorem Extends.linked {chain : Chain} {fields : List (String × Json)} {line : Json} {hash : String}
    (extension : Extends host chain fields line hash) (unhashed : ∀ field ∈ fields, field.1 ≠ "hash") :
    Ledger.link host chain line = .ok (chain.snoc line hash) := by
  obtain ⟨rfl, computed⟩ := extension
  exact Ledger.link_line unhashed computed

theorem Extends.position {chain : Chain} {fields : List (String × Json)} {line : Json} {hash : String}
    (extension : Extends host chain fields line hash) :
    line.number? "seq" = some (chain.events.length : Rat) := by
  rw [extension.line, Ledger.line_seq]

namespace Ledger.Entry

variable (entry : Ledger.Entry)

theorem fields_unhashed : ∀ field ∈ entry.fields, field.1 ≠ "hash" := by simp [fields]

@[simp] theorem line_lastWins (seq : Nat) (prev hash : String) :
    (line entry.fields seq prev hash).lastWins = line entry.fields seq prev hash := by
  simp [line, fields, Json.lastWins, Json.lastWinsEntries]

@[simp] theorem line_instance (seq : Nat) (prev hash : String) :
    (line entry.fields seq prev hash).string? "effect_instance_id" = some entry.effectInstanceId := by
  rw [Json.string?, line_get (by decide)]
  simp [fields, Json.get?, Json.entries, List.lookup_cons]

end Ledger.Entry

/-- What a file with these lines is read as. -/
theorem verify_some {lines : List Json} {file : File Json} {chain : Chain}
    (linked : Ledger.links host ⟨[], [], Ledger.zero⟩ lines = .ok chain)
    (plain : ∀ line ∈ lines, line.lastWins = line) (same : file.lines = lines.map some) :
    Ledger.verify host file = .ok chain := by
  have decoded : ∀ lines : List Json, (∀ line ∈ lines, line.lastWins = line) →
      (lines.map some).mapM (fun line => line.map Json.lastWins) = some lines := by
    intro lines plain
    induction lines with
    | nil => rfl
    | cons line rest ih =>
      obtain ⟨first, others⟩ := List.forall_mem_cons.mp plain
      simp [first, ih others]
  rw [Ledger.verify, Ledger.read, same, decoded lines plain]
  exact linked

/-! ## Journal and ledger together -/

/-- The event can follow in the journal. -/
def Next (events entries : List Json) : Event → Prop
  | .executing _ _ _ _ => True
  | .completed instanceId ledgerSeq ledgerHash => Claimed events instanceId ∧
    ∀ seq, ledgerSeq = some seq → Journal.matchEntry entries seq (some instanceId) ledgerHash = true
  | .unknownOutcome instanceId _ | .reconciled instanceId _ _ => Claimed events instanceId

/-- The event passes the cross-check. -/
theorem Next.crossed {event : Event} {claims : List (Option String)} (time : Int) (seq : Nat) (prev hash : String)
    (next : Next events entries event) (crossed : Journal.crossEvents entries [] events = .ok claims) :
    ∃ after, Journal.crossEvents entries [] (events ++ [Ledger.line (event.fields time) seq prev hash]) =
      .ok after ∧ ∀ instanceId ∈ claims, instanceId ∈ after := by
  have known : ∀ {instanceId : String}, Claimed events instanceId → some instanceId ∈ claims :=
    fun claimed => (Journal.mem_crossEvents crossed).mpr (.inr claimed)
  rw [Journal.crossEvents_append, crossed]
  simp only [Journal.crossEvents, Event.line_kind, Event.line_instance]
  cases event with
  | executing instanceId generation digest nonces =>
    exact ⟨_, if_pos rfl, fun other member => List.mem_cons_of_mem _ member⟩
  | completed instanceId ledgerSeq ledgerHash =>
    obtain ⟨claimed, matched⟩ := next
    have get : ∀ key, key ∉ ["seq", "prev", "hash"] →
        (Ledger.line ((Event.completed instanceId ledgerSeq ledgerHash).fields time) seq prev hash).get? key =
          (Json.object ((Event.completed instanceId ledgerSeq ledgerHash).fields time)).get? key :=
      fun key other => Ledger.line_get other
    have agrees : ((Ledger.line ((Event.completed instanceId ledgerSeq ledgerHash).fields time) seq prev hash).int?
        "ledger_seq").any (fun seq' => !Journal.matchEntry entries seq' (some instanceId)
          ((Ledger.line ((Event.completed instanceId ledgerSeq ledgerHash).fields time) seq prev hash).string?
            "ledger_hash")) = false := by
      rw [Json.int?, Json.string?, get _ (by decide), get _ (by decide)]
      cases ledgerSeq with
      | none => simp [Event.fields, Json.get?, Json.entries, List.lookup_cons]
      | some seq' =>
        have matched := matched seq' rfl
        cases ledgerHash <;> simpa [Event.fields, Json.get?, Json.entries, List.lookup_cons,
          List.lookup_nil] using matched
    refine ⟨claims, ?_, fun _ member => member⟩
    have claimed := known claimed
    simp [Event.kind, Event.instanceId, claimed, agrees]
  | unknownOutcome instanceId reason =>
    have claimed := known next
    simp [Event.kind, Event.instanceId, claimed]
  | reconciled instanceId resolution note =>
    have claimed := known next
    simp [Event.kind, Event.instanceId, claimed]

/-- What an event makes of the records. -/
def Event.apply (event : Event) (records : String → Option Record) : String → Option Record :=
  Function.update records event.instanceId (event.next (records event.instanceId))

/-- Two files that agree, as the chains that their lines make, and the records that the journal
folds to. -/
structure Kept (host : Host) (journal ledger : Chain) (records : String → Option Record) : Prop where
  journaled : Ledger.links host ⟨[], [], Ledger.zero⟩ journal.events = .ok journal
  ledgered : Ledger.links host ⟨[], [], Ledger.zero⟩ ledger.events = .ok ledger
  plainEvents : ∀ event ∈ journal.events, event.lastWins = event
  plainEntries : ∀ entry ∈ ledger.events, entry.lastWins = entry
  cross : Journal.crossCheck journal.events ledger.events = .ok ()
  folds : ∃ folded, Folded.fold journal.events = some folded ∧ folded.records.lookup = records

variable {records : String → Option Record}

theorem Kept.claimed {instanceId : String} (kept : Kept host journal ledger records)
    (claimed : Claimed journal.events instanceId) : records instanceId ≠ none := by
  obtain ⟨folded, folds, rfl⟩ := kept.folds
  exact Folded.fold_claimed folds claimed

theorem Kept.recorded {instanceId : String} (kept : Kept host journal ledger records)
    (recorded : records instanceId ≠ none) : Claimed journal.events instanceId := by
  obtain ⟨folded, folds, rfl⟩ := kept.folds
  exact Folded.fold_recorded folds recorded

theorem Kept.headed (kept : Kept host journal ledger records) : journal.Headed ∧ ledger.Headed :=
  ⟨Ledger.links_headed ⟨rfl, rfl⟩ kept.journaled, Ledger.links_headed ⟨rfl, rfl⟩ kept.ledgered⟩

theorem Kept.event {event : Event} {time : Int} {line : Json} {hash : String}
    (kept : Kept host journal ledger records) (next : Next journal.events ledger.events event)
    (extension : Extends host journal (event.fields time) line hash) :
    Kept host (journal.snoc line hash) ledger (event.apply records) := by
  have linked := extension.linked (event.fields_unhashed time)
  obtain ⟨rfl, computed⟩ := extension
  have known : event.kind = "executing" ∨ Claimed journal.events event.instanceId := by
    cases event with
    | executing => exact .inl rfl
    | completed => exact .inr next.1
    | unknownOutcome => exact .inr next
    | reconciled => exact .inr next
  constructor
  · rw [Chain.snoc, Ledger.links_append, kept.journaled]
    simp [Ledger.links, linked, Chain.snoc]
  · exact kept.ledgered
  · intro event member
    obtain member | member := List.mem_append.mp member
    · exact kept.plainEvents event member
    · rw [List.mem_singleton.mp member, Event.line_lastWins]
  · exact kept.plainEntries
  · obtain ⟨claims, crossed, known⟩ := Journal.crossCheck_ok.mp kept.cross
    obtain ⟨after, passed, more⟩ := next.crossed time journal.events.length journal.head hash crossed
    exact Journal.crossCheck_ok.mpr ⟨after, passed, fun entry member => more _ (known entry member)⟩
  · obtain ⟨folded, folds, rfl⟩ := kept.folds
    obtain ⟨after, applied, lookup⟩ := Folded.apply_line time journal.events.length journal.head hash
      (known.imp_right (Folded.fold_claimed folds))
    exact ⟨after, by rw [Chain.snoc, Folded.fold_snoc, folds]; exact applied, lookup⟩

theorem Kept.entry {entry : Ledger.Entry} {line : Json} {hash : String}
    (kept : Kept host journal ledger records) (claimed : Claimed journal.events entry.effectInstanceId)
    (extension : Extends host ledger entry.fields line hash) :
    Kept host journal (ledger.snoc line hash) records := by
  have linked := extension.linked entry.fields_unhashed
  obtain ⟨rfl, computed⟩ := extension
  obtain ⟨claims, crossed, known⟩ := Journal.crossCheck_ok.mp kept.cross
  refine ⟨kept.journaled, ?_, kept.plainEvents, ?_, ?_, kept.folds⟩
  · rw [Chain.snoc, Ledger.links_append, kept.ledgered]
    simp [Ledger.links, linked, Chain.snoc]
  · intro other member
    obtain member | member := List.mem_append.mp member
    · exact kept.plainEntries other member
    · rw [List.mem_singleton.mp member, Ledger.Entry.line_lastWins]
  · refine Journal.crossCheck_ok.mpr ⟨claims, Journal.crossEvents_more _ crossed, fun other member => ?_⟩
    obtain member | member := List.mem_append.mp member
    · exact known other member
    · rw [List.mem_singleton.mp member, Ledger.Entry.line_instance, Journal.mem_crossEvents crossed]
      exact .inr claimed

theorem Next.more {event : Event} (next : Next events entries event) (line : Json) :
    Next events (entries ++ [line]) event := by
  cases event with
  | executing => trivial
  | completed => exact ⟨next.1, fun seq same => Journal.matchEntry_append _ (next.2 seq same)⟩
  | unknownOutcome => exact next
  | reconciled => exact next

end AshA2A.Actuator
