import AshA2A.Outcome
import AshA2A.Proofs.NonceLog
import Mathlib.Data.List.Induction

/-! An accepted nonce is not accepted again before its time, wherever the store stops and
whatever part of a line an append leaves behind; and without a failed append it always starts. -/

namespace AshA2A.Sa2aCrypto.NonceStore

variable {library : Json.Library} (lawful : Lawful library) {key : Key} {expires : Int} {state : State} {event : Event}

/-! ## Steps -/

/-- What the log and the server have in common at any time. -/
structure Sound (state : State) : Prop where
  frayed : Frayed (lines (state.log.getD [])).2
  unique : ∀ server, state.server = some server → server.entries.Unique

/-- The key is in the map, and in whatever a later server reads. -/
structure Guarded (library : Json.Library) (state : State) (key : Key) (expires : Int) : Prop where
  held : Held library state.log key expires
  up : ∀ server, state.server = some server → server.entries.lookup key = some expires

/-- The event takes the key out of the map because its time is over. -/
def Expires (state : State) (event : Event) (expires : Int) : Prop :=
  ∃ now rewrite server, event = .prune now rewrite ∧ state.server = some server ∧ expires + server.skew < now

theorem Server.kept_unique {server : Server} (unique : server.entries.Unique) (now : Int) :
    Entries.Unique (server.entries.filter fun entry => !server.overdue now entry) :=
  (List.filter_sublist.map Prod.fst).nodup unique

theorem load_unique {log : Option Bytes} {entries : Entries} {torn : Bool} (loaded : load library log = some (entries, torn)) :
    entries.Unique := by
  cases log with
  | none =>
    cases loaded
    exact List.nodup_nil
  | some bin =>
    obtain ⟨read, replayed, same⟩ := Option.map_eq_some_iff.mp loaded
    obtain rfl := (Prod.mk.inj same).1
    have none_left : Entries.Unique [] := List.nodup_nil
    exact replay_unique none_left replayed

include lawful

theorem data_frayed {entries : Entries} {bytes : Bytes} (written : data library entries = some bytes) :
    Frayed (lines bytes).2 := .inl (by rw [lines_data lawful written])

/-- A rewritten log has the keys that it was written for. -/
theorem data_held {entries : Entries} {bytes : Bytes} (unique : entries.Unique) (written : data library entries = some bytes)
    (found : entries.lookup key = some expires) : Held library (some bytes) key expires := by
  obtain ⟨read, loaded, same⟩ := load_data lawful unique written
  intro entries torn given
  obtain ⟨rfl, rfl⟩ := Prod.mk.inj (Option.some.inj (loaded.symm.trans given))
  rw [same, found]

theorem sound_checkAndSet {server : Server} {name : Key} {time : Int} {append : Append} (sound : Sound state)
    (running : state.server = some server) : Sound (checkAndSet library state server name time append).2 := by
  unfold checkAndSet
  split
  · exact sound
  · split
    next => exact ⟨sound.frayed, nofun⟩
    next line written =>
      cases append with
      | done =>
        have frayed := frayed_append lawful written sound.frayed line.length
        rw [List.take_length] at frayed
        refine ⟨frayed, fun next given => ?_⟩
        cases given
        exact (sound.unique server running).put name time
      | failed count => exact ⟨frayed_append lawful written sound.frayed count, sound.unique⟩
      | stopped count => exact ⟨frayed_append lawful written sound.frayed count, nofun⟩

theorem sound_prune {server : Server} {now : Int} {rewrite : Rewrite} (sound : Sound state)
    (running : state.server = some server) : Sound (prune library state server now rewrite).2 := by
  have unique := Server.kept_unique (sound.unique server running) now
  unfold prune
  dsimp only
  split
  · exact sound
  · split
    next => exact ⟨sound.frayed, nofun⟩
    next => exact ⟨sound.frayed, nofun⟩
    next bytes written =>
      refine ⟨data_frayed lawful written, fun next given => ?_⟩
      cases given
      exact unique
    next bytes written => exact ⟨data_frayed lawful written, nofun⟩

theorem sound_start {skew : Int} {rewrite : Rewrite} (sound : Sound state) :
    Sound (start library state.log skew rewrite) := by
  unfold start
  split
  next => exact ⟨sound.frayed, nofun⟩
  next entries loaded =>
    cases rewrite with
    | done =>
      refine ⟨sound.frayed, fun next given => ?_⟩
      cases given
      exact load_unique loaded
    | undone | renamed => exact ⟨sound.frayed, nofun⟩
  next entries loaded =>
    split
    next => exact ⟨sound.frayed, nofun⟩
    next => exact ⟨sound.frayed, nofun⟩
    next bytes written =>
      refine ⟨data_frayed lawful written, fun next given => ?_⟩
      cases given
      exact load_unique loaded
    next bytes written => exact ⟨data_frayed lawful written, nofun⟩

theorem sound_step (sound : Sound state) : Sound (step library state event).2 := by
  cases event with
  | restart skew rewrite => exact sound_start lawful sound
  | unencodable => exact ⟨sound.frayed, nofun⟩
  | checkAndSet kid nonce time append =>
    cases running : state.server with
    | none => simpa only [step, running] using sound
    | some server => simpa only [step, running] using sound_checkAndSet lawful sound running
  | prune now rewrite =>
    cases running : state.server with
    | none => simpa only [step, running] using sound
    | some server => simpa only [step, running] using sound_prune lawful sound running

theorem guarded_checkAndSet {server : Server} {name : Key} {time : Int} {append : Append} (sound : Sound state)
    (guarded : Guarded library state key expires) (running : state.server = some server) :
    Guarded library (checkAndSet library state server name time append).2 key expires := by
  have found := guarded.up server running
  unfold checkAndSet
  split
  · exact guarded
  next absent =>
    have different : key ≠ name := by
      rintro rfl
      simp [found] at absent
    -- The log is there, since the key is held of it.
    obtain ⟨log, given⟩ : ∃ log, state.log = some log := by
      cases given : state.log with
      | some log => exact ⟨log, rfl⟩
      | none => cases guarded.held [] false (by rw [given]; rfl)
    have held := guarded.held
    have frayed := sound.frayed
    rw [given] at held frayed
    rw [given]
    split
    next => exact ⟨given ▸ held, nofun⟩
    next line written =>
      cases append with
      | done =>
        have whole := held_append lawful written different frayed held line.length
        rw [List.take_length] at whole
        refine ⟨whole, fun next same => ?_⟩
        cases same
        exact (lookup_put ..).trans ((if_neg different).trans found)
      | failed count => exact ⟨held_append lawful written different frayed held count, guarded.up⟩
      | stopped count => exact ⟨held_append lawful written different frayed held count, nofun⟩

theorem guarded_prune {server : Server} {now : Int} {rewrite : Rewrite} (sound : Sound state)
    (guarded : Guarded library state key expires) (running : state.server = some server)
    (early : ¬expires + server.skew < now) : Guarded library (prune library state server now rewrite).2 key expires := by
  have unique := Server.kept_unique (sound.unique server running) now
  have kept : (server.entries.filter fun entry => !server.overdue now entry).lookup key = some expires := (lookup_iff unique).mpr <| List.mem_filter.mpr
    ⟨(lookup_iff (sound.unique server running)).mp (guarded.up server running), by simpa [Server.overdue] using early⟩
  unfold prune
  dsimp only
  split
  · exact guarded
  · split
    next => exact ⟨guarded.held, nofun⟩
    next => exact ⟨guarded.held, nofun⟩
    next bytes written =>
      refine ⟨data_held lawful unique written kept, fun next given => ?_⟩
      cases given
      exact kept
    next bytes written => exact ⟨data_held lawful unique written kept, nofun⟩

theorem guarded_start {skew : Int} {rewrite : Rewrite} (guarded : Guarded library state key expires) :
    Guarded library (start library state.log skew rewrite) key expires := by
  unfold start
  split
  next => exact ⟨guarded.held, nofun⟩
  next entries loaded =>
    cases rewrite with
    | done =>
      refine ⟨?_, fun next given => ?_⟩
      · cases log : state.log with
        | none => cases guarded.held [] false (by rw [log]; rfl)
        | some log' => exact log ▸ guarded.held
      · cases given
        exact guarded.held entries false loaded
    | undone | renamed => exact ⟨guarded.held, nofun⟩
  next entries loaded =>
    have found := guarded.held entries true loaded
    split
    next => exact ⟨guarded.held, nofun⟩
    next => exact ⟨guarded.held, nofun⟩
    next bytes written =>
      refine ⟨data_held lawful (load_unique loaded) written found, fun next given => ?_⟩
      cases given
      exact found
    next bytes written => exact ⟨data_held lawful (load_unique loaded) written found, nofun⟩

theorem guarded_step (sound : Sound state) (guarded : Guarded library state key expires)
    (kept : ¬Expires state event expires) : Guarded library (step library state event).2 key expires := by
  cases event with
  | restart skew rewrite => exact guarded_start lawful guarded
  | unencodable => exact ⟨guarded.held, nofun⟩
  | checkAndSet kid nonce time append =>
    cases running : state.server with
    | none => simpa only [step, running] using guarded
    | some server => simpa only [step, running] using guarded_checkAndSet lawful sound guarded running
  | prune now rewrite =>
    cases running : state.server with
    | none => simpa only [step, running] using guarded
    | some server =>
      have early : ¬expires + server.skew < now := fun late => kept ⟨now, rewrite, server, rfl, running, late⟩
      simpa only [step, running] using guarded_prune lawful sound guarded running early

/-- An accepted key is in the map and in the log. -/
theorem accepted_guarded {kid nonce : String} {append : Append} (sound : Sound state)
    (accepted : (step library state (.checkAndSet kid nonce expires append)).1 = .ok) :
    Guarded library (step library state (.checkAndSet kid nonce expires append)).2 (kid, nonce) expires := by
  cases running : state.server with
  | none =>
    simp only [step, running] at accepted
    cases accepted
  | some server =>
    simp only [step, running, checkAndSet] at accepted ⊢
    split at accepted
    · cases accepted
    next absent =>
      rw [if_neg absent]
      split at accepted
      next => cases accepted
      next line written =>
        cases append with
        | done =>
          refine ⟨held_written lawful written sound.frayed, fun next same => ?_⟩
          cases same
          exact (lookup_put ..).trans (if_pos rfl)
        | failed count => cases accepted
        | stopped count => cases accepted

omit lawful in
theorem guarded_refuses {kid nonce : String} {again : Int} {append : Append}
    (guarded : Guarded library state (kid, nonce) expires) :
    (step library state (.checkAndSet kid nonce again append)).1 ≠ .ok := by
  cases running : state.server with
  | none => simp [step, running]
  | some server => simp [step, running, checkAndSet, guarded.up server running]

/-! ## Runs -/

omit lawful in
theorem run_snoc (events : List Event) (event : Event) :
    run library (events ++ [event]) = (step library (run library events) event).2 := by
  rw [run, List.foldl_append]
  rfl

theorem sound_run (events : List Event) : Sound (run library events) := by
  induction events using List.reverseRecOn with
  | nil => exact ⟨.inl rfl, nofun⟩
  | append_singleton events event ih => exact (run_snoc events event : run library _ = _) ▸ sound_step lawful ih

/-- An event among others at which the key's time is over. -/
def Expired (library : Json.Library) (before middle : List Event) (expires : Int) : Prop :=
  ∃ front event back, middle = front ++ event :: back ∧ Expires (run library (before ++ front)) event expires

theorem guarded_run {before middle : List Event} (guarded : Guarded library (run library before) key expires)
    (kept : ¬Expired library before middle expires) : Guarded library (run library (before ++ middle)) key expires := by
  induction middle using List.reverseRecOn with
  | nil => rwa [List.append_nil]
  | append_singleton middle event ih =>
    rw [← List.append_assoc, run_snoc]
    refine guarded_step lawful (sound_run lawful _) (ih ?_) fun overdue => kept ⟨middle, event, [], rfl, overdue⟩
    rintro ⟨front, first, back, rfl, overdue⟩
    exact kept ⟨front, first, back ++ [event], by simp, overdue⟩

/-! ## Restarts -/

/-- No append fails; it may stop anywhere. -/
def Event.Unfailing (event : Event) : Prop := ∀ kid nonce expires count, event ≠ .checkAndSet kid nonce expires (.failed count)

def Encodable (library : Json.Library) (entry : Key × Int) : Prop := (line library entry.1 entry.2).isSome

/-- Every line is whole, and nothing stands behind the last while the server runs. -/
structure Clean (library : Json.Library) (state : State) : Prop where
  written : ∀ bytes ∈ (lines (state.log.getD [])).1, ∃ entry, Encodable library entry ∧ bytes = text entry.1 entry.2
  ended : state.server ≠ none → (lines (state.log.getD [])).2 = []
  entries : ∀ server, state.server = some server → ∀ entry ∈ server.entries, Encodable library entry

omit lawful in
theorem encodable_put {entries : Entries} {time : Int} (each : ∀ entry ∈ entries, Encodable library entry)
    (one : Encodable library (key, time)) : ∀ entry ∈ entries.put key time, Encodable library entry := by
  refine List.forall_mem_cons.mpr ⟨one, fun entry member => each entry (List.mem_filter.mp member).1⟩

theorem replay_clean {texts : List Bytes} (acc : Entries) (each : ∀ entry ∈ acc, Encodable library entry)
    (written : ∀ bytes ∈ texts, ∃ entry, Encodable library entry ∧ bytes = text entry.1 entry.2) :
    ∃ read, replay library acc texts = some read ∧ ∀ entry ∈ read, Encodable library entry := by
  induction texts generalizing acc with
  | nil => exact ⟨acc, rfl, each⟩
  | cons bytes texts ih =>
    obtain ⟨⟨entry, encodable, rfl⟩, rest⟩ := List.forall_mem_cons.mp written
    obtain ⟨line, given⟩ := Option.isSome_iff_exists.mp encodable
    obtain ⟨read, replayed, clean⟩ := ih (acc.put entry.1 entry.2) (encodable_put each encodable) rest
    exact ⟨read, by rw [replay, decodeLine_text lawful given]; exact replayed, clean⟩

theorem data_clean {entries : Entries} (each : ∀ entry ∈ entries, Encodable library entry) :
    ∃ bytes, data library entries = some bytes ∧ (lines bytes).2 = [] ∧
      ∀ line ∈ (lines bytes).1, ∃ entry, Encodable library entry ∧ line = text entry.1 entry.2 := by
  have each' : ∀ entry ∈ sorted entries, Encodable library entry := fun entry member =>
    each entry ((sorted_perm entries).mem_iff.mp member)
  have given : ∃ written, (sorted entries).mapM (fun entry => line library entry.1 entry.2) = some written :=
    mapM_some each'
  obtain ⟨written, given⟩ := given
  have whole : data library entries = some written.flatten := by
    rw [sorted] at given
    rw [data, given]
    rfl
  refine ⟨_, whole, by rw [lines_data lawful whole], fun line member => ?_⟩
  rw [lines_data lawful whole] at member
  obtain ⟨entry, listed, rfl⟩ := List.mem_map.mp member
  exact ⟨entry, each' entry listed, rfl⟩

theorem load_clean (clean : Clean library state) :
    ∃ entries torn, load library state.log = some (entries, torn) ∧ ∀ entry ∈ entries, Encodable library entry := by
  have written := clean.written
  cases log : state.log with
  | none => exact ⟨[], false, rfl, nofun⟩
  | some bin =>
    rw [log] at written
    obtain ⟨read, replayed, each⟩ := replay_clean lawful [] nofun written
    exact ⟨read, _, by rw [load, parse, show replay library [] (lines bin).1 = _ from replayed]; rfl, each⟩

/-- A store on a log of whole lines starts. -/
theorem start_clean {skew : Int} (clean : Clean library state) : (start library state.log skew .done).server ≠ none := by
  obtain ⟨entries, torn, loaded, each⟩ := load_clean lawful clean
  unfold start
  rw [loaded]
  cases torn with
  | false => exact Option.some_ne_none _
  | true =>
    obtain ⟨bytes, written, _⟩ := data_clean lawful each
    dsimp only
    rw [written]
    exact Option.some_ne_none _

theorem clean_start {skew : Int} {rewrite : Rewrite} (clean : Clean library state) :
    Clean library (start library state.log skew rewrite) := by
  obtain ⟨entries, torn, loaded, each⟩ := load_clean lawful clean
  have down : Clean library ⟨state.log, none⟩ := ⟨clean.written, fun up => absurd rfl up, nofun⟩
  unfold start
  rw [loaded]
  cases torn with
  | false =>
    cases rewrite with
    | undone | renamed => exact down
    | done =>
      refine ⟨clean.written, fun _ => ?_, fun server given => ?_⟩
      · cases log : state.log with
        | none => rfl
        | some bin =>
          rw [log] at loaded
          obtain ⟨read, _, same⟩ := Option.map_eq_some_iff.mp loaded
          simpa using (Prod.mk.inj same).2
      · cases given
        exact each
  | true =>
    obtain ⟨bytes, written, ended, texts⟩ := data_clean lawful each
    dsimp only
    rw [written]
    cases rewrite with
    | undone => exact down
    | renamed => exact ⟨texts, fun up => absurd rfl up, nofun⟩
    | done =>
      refine ⟨texts, fun _ => ended, fun server given => ?_⟩
      cases given
      exact each

theorem clean_prune {server : Server} {now : Int} {rewrite : Rewrite} (clean : Clean library state)
    (running : state.server = some server) : Clean library (prune library state server now rewrite).2 := by
  have down : Clean library { state with server := none } := ⟨clean.written, fun up => absurd rfl up, nofun⟩
  have each : ∀ entry ∈ server.entries.filter (fun entry => !server.overdue now entry), Encodable library entry :=
    fun entry member => clean.entries server running entry (List.mem_filter.mp member).1
  obtain ⟨bytes, written, ended, texts⟩ := data_clean lawful each
  unfold prune
  dsimp only
  split
  · exact clean
  · rw [written]
    cases rewrite with
    | undone => exact down
    | renamed => exact ⟨texts, fun up => absurd rfl up, nofun⟩
    | done =>
      refine ⟨texts, fun _ => ended, fun server given => ?_⟩
      cases given
      exact each

theorem clean_checkAndSet {server : Server} {name : Key} {time : Int} {append : Append} (clean : Clean library state)
    (running : state.server = some server) (unfailing : ∀ count, append ≠ .failed count) :
    Clean library (checkAndSet library state server name time append).2 := by
  have ended := clean.ended (by rw [running]; exact Option.some_ne_none _)
  unfold checkAndSet
  split
  · exact clean
  · split
    next => exact ⟨clean.written, fun up => absurd rfl up, nofun⟩
    next bytes written =>
      have encodable : Encodable library (name, time) := by rw [Encodable, written]; rfl
      have whole : lines (state.log.getD [] ++ bytes) = ((lines (state.log.getD [])).1 ++ [text name time], []) := by
        rw [line_text lawful written, lines_append, feed_line (text_free name time), ended]
        rfl
      have texts : ∀ line ∈ (lines (state.log.getD [] ++ bytes)).1, ∃ entry, Encodable library entry ∧
          line = text entry.1 entry.2 := by
        rw [whole]
        intro line member
        obtain old | new := List.mem_append.mp member
        · exact clean.written line old
        · exact ⟨(name, time), encodable, List.mem_singleton.mp new⟩
      cases append with
      | failed count => exact absurd rfl (unfailing count)
      | done =>
        refine ⟨texts, fun _ => congrArg Prod.snd whole, fun next given => ?_⟩
        cases given
        exact encodable_put (clean.entries server running) encodable
      | stopped count =>
        refine ⟨?_, fun up => absurd rfl up, nofun⟩
        dsimp only [Option.getD_some]
        obtain all | ⟨chunk, same, free, _⟩ := take_line lawful written count
        · rw [all]
          exact texts
        · rw [same, lines_append, feed_free free]
          exact clean.written

theorem clean_step (clean : Clean library state) (unfailing : event.Unfailing) : Clean library (step library state event).2 := by
  cases event with
  | restart skew rewrite => exact clean_start lawful clean
  | unencodable => exact ⟨clean.written, fun up => absurd rfl up, nofun⟩
  | checkAndSet kid nonce time append =>
    cases running : state.server with
    | none => simpa only [step, running] using clean
    | some server =>
      have complete : ∀ count, append ≠ .failed count := fun count same => unfailing kid nonce time count (same ▸ rfl)
      simpa only [step, running] using clean_checkAndSet lawful clean running complete
  | prune now rewrite =>
    cases running : state.server with
    | none => simpa only [step, running] using clean
    | some server => simpa only [step, running] using clean_prune lawful clean running

theorem clean_run (events : List Event) (unfailing : ∀ event ∈ events, event.Unfailing) :
    Clean library (run library events) := by
  induction events using List.reverseRecOn with
  | nil => exact ⟨nofun, fun up => absurd rfl up, nofun⟩
  | append_singleton events event ih =>
    rw [run_snoc]
    exact clean_step lawful (ih fun other member => unfailing other (List.mem_append_left _ member))
      (unfailing event (List.mem_append_right _ (List.mem_singleton_self event)))

/-- An accepted nonce is not accepted again before its time, and a store of which no append
failed starts at any time. -/
theorem nonce_once : (∀ (before middle : List Event) (kid nonce : String) (expires again : Int) (append append' : Append),
      (step library (run library before) (.checkAndSet kid nonce expires append)).1 = .ok →
      (step library (run library (before ++ .checkAndSet kid nonce expires append :: middle))
        (.checkAndSet kid nonce again append')).1 = .ok →
      ∃ front now rewrite back server, middle = front ++ .prune now rewrite :: back ∧
        (run library (before ++ .checkAndSet kid nonce expires append :: front)).server = some server ∧
        expires + server.skew < now) ∧
    ∀ events : List Event, (∀ event ∈ events, event.Unfailing) →
      ∀ skew, (step library (run library events) (.restart skew .done)).2.server ≠ none := by
  refine ⟨?_, fun events unfailing skew => start_clean lawful (clean_run lawful events unfailing)⟩
  intro before middle kid nonce expires again append append' accepted repeated
  by_contra none_over
  have guarded := accepted_guarded lawful (sound_run lawful before) accepted
  rw [← run_snoc] at guarded
  rw [List.append_cons] at repeated
  refine guarded_refuses (guarded_run lawful guarded ?_) repeated
  rintro ⟨front, event, back, rfl, now, rewrite, server, rfl, running, late⟩
  refine none_over ⟨front, now, rewrite, back, server, rfl, ?_, late⟩
  rwa [List.append_cons]

omit lawful

/-- A library for two lines. -/
def probeLibrary : Json.Library where
  encode
    | .array [.string kid, .string nonce, .int expires] =>
      if (kid, nonce, expires) ∈ [("k", "a", 10), ("k", "b", 20)] then some (text (kid, nonce) expires) else none
    | _ => none
  decode bytes :=
    if bytes = text ("k", "a") 10 then some (triple ("k", "a") 10)
    else if bytes = text ("k", "b") 20 then some (triple ("k", "b") 20)
    else none

theorem probe_encode {key : Key} {expires : Int} {bytes : Bytes} (encoded : probeLibrary.encode (triple key expires) = some bytes) :
    bytes = text key expires ∧ ((key, expires) = (("k", "a"), 10) ∨ (key, expires) = (("k", "b"), 20)) := by
  obtain ⟨kid, nonce⟩ := key
  have encoded : (if (kid, nonce, expires) ∈ [("k", "a", 10), ("k", "b", 20)] then some (text (kid, nonce) expires) else none) =
      some bytes := encoded
  split at encoded
  next known =>
    refine ⟨(Option.some.inj encoded).symm, ?_⟩
    simpa [and_assoc] using known
  next => cases encoded

theorem probe_lawful : Lawful probeLibrary where
  text encoded := (probe_encode encoded).1
  read encoded := by
    obtain ⟨rfl, first | second⟩ := probe_encode encoded
    · cases first
      rfl
    · cases second
      have different : text ("k", "b") 20 ≠ text ("k", "a") 10 := by decide
      simp [probeLibrary, different]
  grammar := by
    intro key expires bytes read
    simp only [probeLibrary] at read
    split at read
    next same => rw [same, scan_text_outside]
    next =>
      split at read
      next same => rw [same, scan_text_outside]
      next => cases read

/-- A line of another nonce is torn, and the store starts again without it. -/
theorem torn_not_repeated : (step probeLibrary (run probeLibrary [.restart 30 .done, .checkAndSet "k" "a" 10 .done,
    .checkAndSet "k" "b" 20 (.stopped 4), .restart 30 .done]) (.checkAndSet "k" "a" 99 .done)).1 ≠ .ok := by
  intro repeated
  obtain ⟨front, now, rewrite, back, server, same, _⟩ := (nonce_once probe_lawful).1 [.restart 30 .done]
    [.checkAndSet "k" "b" 20 (.stopped 4), .restart 30 .done] "k" "a" 10 99 .done .done (by decide) repeated
  have member : Event.prune now rewrite ∈ [Event.checkAndSet "k" "b" 20 (.stopped 4), .restart 30 .done] :=
    same ▸ List.mem_append_right _ (List.mem_cons_self ..)
  simp at member

end AshA2A.Sa2aCrypto.NonceStore
