import AshA2A.Actuator.Journal

/-! What the chain check of a file says about its lines, and which lines it accepts next. -/

namespace AshA2A.Actuator.Ledger

open Sa2aCrypto AppendLog

variable {host : Host}

/-! ## Lines -/

theorem read_snoc {file : File Json} {line : Option Json} {torn : Bool} :
    read ⟨file.lines ++ [line], torn⟩ =
      (read file).bind fun events => line.map fun event => events ++ [event.lastWins] := by
  simp only [read, List.mapM_append]
  cases file.lines.mapM fun line => line.map Json.lastWins with
  | none => rfl
  | some events => cases line <;> rfl

theorem links_append (chain : Chain) (first second : List Json) :
    links host chain (first ++ second) =
      match links host chain first with
      | .ok middle => links host middle second
      | .error broken => .error broken := by
  induction first generalizing chain with
  | nil => rfl
  | cons event events ih =>
    simp only [List.cons_append, links]
    cases link host chain event with
    | ok after => exact ih after
    | error broken => rfl

/-- What a line has to say to be accepted behind a chain. -/
theorem link_ok {chain after : Chain} {event : Json} (linked : link host chain event = .ok after) :
    event.number? "seq" = some (chain.events.length : Rat) ∧ event.string? "prev" = some chain.head ∧
      ∃ hash, Ledger.hash host chain.head (event.without "hash") = some hash ∧ event.string? "hash" = some hash ∧
        after = ⟨chain.events ++ [event], chain.hashes ++ [hash], hash⟩ := by
  unfold link at linked
  dsimp only at linked
  split at linked
  · cases linked
  next seq =>
  split at linked
  · cases linked
  next prev =>
  split at linked
  · cases linked
  next hash computed =>
    split at linked
    next given =>
      cases linked
      exact ⟨not_not.mp seq, not_not.mp prev, hash, computed, given, rfl⟩
    next => cases linked

theorem links_events {chain after : Chain} {events : List Json} (linked : links host chain events = .ok after) :
    after.events = chain.events ++ events ∧
      after.hashes.length = chain.hashes.length + events.length := by
  induction events generalizing chain with
  | nil => cases linked; simp
  | cons event events ih =>
    simp only [links] at linked
    split at linked
    next middle accepted =>
      obtain ⟨_, _, hash, _, _, rfl⟩ := link_ok accepted
      obtain ⟨same, count⟩ := ih linked
      constructor
      · simpa using same
      · simp only [List.length_append, List.length_cons, List.length_nil] at count
        rw [count, List.length_cons]
        omega
    next => cases linked

theorem verify_events {file : File Json} {chain : Chain} (verified : verify host file = .ok chain) :
    read file = some chain.events ∧ chain.hashes.length = chain.events.length := by
  unfold verify at verified
  split at verified
  · cases verified
  next events given =>
    obtain ⟨same, count⟩ := links_events verified
    simp only [List.nil_append, List.length_nil, Nat.zero_add] at same count
    rw [given, same, count]
    exact ⟨rfl, rfl⟩

/-- The last line of a chain is accepted behind the ones before it. -/
theorem verify_snoc {file : File Json} {line : Option Json} {torn : Bool} {chain : Chain}
    (verified : verify host ⟨file.lines ++ [line], torn⟩ = .ok chain) :
    ∃ event before, line = some event ∧ verify host file = .ok before ∧
      link host before event.lastWins = .ok chain := by
  unfold verify at verified ⊢
  rw [read_snoc] at verified
  cases given : read file with
  | none => simp [given] at verified
  | some events =>
    cases line with
    | none => simp [given] at verified
    | some event =>
      simp only [given, Option.bind_some, Option.map_some, links_append] at verified ⊢
      split at verified
      next middle accepted =>
        refine ⟨event, middle, rfl, accepted, ?_⟩
        simp only [links] at verified
        split at verified
        next after linked => cases verified; exact linked
        next => cases verified
      next => cases verified

theorem verify_extend {file : File Json} {event : Json} {torn : Bool} {chain after : Chain}
    (verified : verify host file = .ok chain) (linked : link host chain event.lastWins = .ok after) :
    verify host ⟨file.lines ++ [some event], torn⟩ = .ok after := by
  unfold verify at verified ⊢
  rw [read_snoc]
  cases given : read file with
  | none => simp [given] at verified
  | some events =>
    simp only [given] at verified
    simp [links_append, verified, links, linked]

/-- The break behind the lines does not matter. -/
theorem verify_lines {first second : File Json} (same : first.lines = second.lines) :
    verify host first = verify host second := by simp only [verify, read, same]

theorem links_prefix {chain after : Chain} {first second : List Json}
    (linked : links host chain (first ++ second) = .ok after) :
    ∃ middle, links host chain first = .ok middle ∧ links host middle second = .ok after := by
  rw [links_append] at linked
  split at linked
  next middle accepted => exact ⟨middle, accepted, linked⟩
  next => cases linked

/-! ## Lines of the store -/

def line (fields : List (String × Json)) (seq : Nat) (prev hash : String) : Json :=
  .object (fields ++ [("seq", .int seq), ("prev", .string prev), ("hash", .string hash)])

variable {fields : List (String × Json)} {seq : Nat} {prev hash : String}

theorem chained_ok {written : Json} (chains : chained host fields seq prev = some (written, hash)) :
    written = line fields seq prev hash ∧
      Ledger.hash host prev (.object (fields ++ [("seq", .int seq), ("prev", .string prev)])) = some hash := by
  unfold chained at chains
  obtain ⟨given, computed, same⟩ := Option.map_eq_some_iff.mp chains
  cases same
  refine ⟨?_, computed⟩
  simp [line]

@[simp] theorem line_seq : (line fields seq prev hash).number? "seq" = some (seq : Rat) := by
  simp [line, Json.number?, Json.get?, Json.entries, List.lookup_cons, Rat.intCast_natCast]

@[simp] theorem line_prev : (line fields seq prev hash).string? "prev" = some prev := by
  simp [line, Json.string?, Json.get?, Json.entries, List.lookup_cons]

@[simp] theorem line_hash : (line fields seq prev hash).string? "hash" = some hash := by
  simp [line, Json.string?, Json.get?, Json.entries]

theorem line_get {key : String} (other : key ∉ ["seq", "prev", "hash"]) :
    (line fields seq prev hash).get? key = (Json.object fields).get? key := by
  simp only [List.mem_cons, List.not_mem_nil, or_false, not_or] at other
  have named : ∀ name, key ≠ name → (key == name) = false := fun name different => by simpa using different
  simp [line, Json.get?, Json.entries, List.lookup_cons, named _ other.1, named _ other.2.1, named _ other.2.2]

theorem line_without (unhashed : ∀ field ∈ fields, field.1 ≠ "hash") :
    (line fields seq prev hash).without "hash" =
      .object (fields ++ [("seq", .int seq), ("prev", .string prev)]) := by
  simp only [line, Json.without, Json.entries, List.filter_append]
  rw [List.filter_eq_self.mpr fun field member => decide_eq_true (unhashed field member)]
  simp

/-- The next line is accepted where the chain ends. -/
theorem link_line {chain : Chain} (unhashed : ∀ field ∈ fields, field.1 ≠ "hash")
    (computed : Ledger.hash host chain.head
      (.object (fields ++ [("seq", .int chain.events.length), ("prev", .string chain.head)])) = some hash) :
    link host chain (line fields chain.events.length chain.head hash) =
      .ok ⟨chain.events ++ [line fields chain.events.length chain.head hash], chain.hashes ++ [hash], hash⟩ := by
  simp [link, line_without unhashed, computed]

end AshA2A.Actuator.Ledger

namespace AshA2A.Actuator

open Ledger

/-! ## Events -/

namespace Event

def kind : Event → String
  | .executing _ _ _ _ => "executing"
  | .completed _ _ _ => "completed"
  | .unknownOutcome _ _ => "unknown_outcome"
  | .reconciled _ _ _ => "reconciled"

variable (event : Event) (time : Int) (seq : Nat) (prev hash : String)

theorem lastWins_nonces (nonces : List (String × String)) :
    Json.lastWinsItems (nonces.map fun (kid, nonce) => .array [.string kid, .string nonce]) =
      nonces.map fun (kid, nonce) => .array [.string kid, .string nonce] := by
  induction nonces with
  | nil => rfl
  | cons nonce rest ih => simp [Json.lastWinsItems, Json.lastWins, ih]

@[simp] theorem line_lastWins :
    (line (event.fields time) seq prev hash).lastWins = line (event.fields time) seq prev hash := by
  cases event with
  | executing instanceId generation effectDigest nonces =>
    simp [line, fields, Json.lastWins, Json.lastWinsEntries, lastWins_nonces]
  | completed instanceId ledgerSeq ledgerHash =>
    cases ledgerSeq <;> cases ledgerHash <;> simp [line, fields, Json.lastWins, Json.lastWinsEntries]
  | unknownOutcome instanceId reason => simp [line, fields, Json.lastWins, Json.lastWinsEntries]
  | reconciled instanceId resolution note => simp [line, fields, Json.lastWins, Json.lastWinsEntries]

theorem fields_unhashed : ∀ field ∈ event.fields time, field.1 ≠ "hash" := by
  cases event <;> simp [fields]

@[simp] theorem line_kind : (line (event.fields time) seq prev hash).string? "t" = some event.kind := by
  rw [Json.string?, line_get (by decide)]
  cases event <;> simp [fields, Json.get?, Json.entries, List.lookup_cons, kind]

@[simp] theorem line_instance :
    (line (event.fields time) seq prev hash).string? "instance_id" = some event.instanceId := by
  rw [Json.string?, line_get (by decide)]
  cases event <;> simp [fields, Json.get?, Json.entries, List.lookup_cons, instanceId]

theorem nonces_mapM (nonces : List (String × String)) :
    (nonces.map fun (kid, nonce) => Json.array [.string kid, .string nonce]).mapM Folded.nonce = some nonces := by
  induction nonces with
  | nil => rfl
  | cons nonce rest ih => simp [Folded.nonce, ih]

@[simp] theorem line_nonces (instanceId : String) (generation : Nat) (effectDigest : String)
    (nonces : List (String × String)) :
    Folded.nonces (line ((Event.executing instanceId generation effectDigest nonces).fields time) seq prev hash) =
      some nonces := by
  rw [Folded.nonces, line_get (by decide)]
  have found : (Json.object ((executing instanceId generation effectDigest nonces).fields time)).get? "nonces" =
      some (.array (nonces.map fun (kid, nonce) => .array [.string kid, .string nonce])) := by
    simp [fields, Json.get?, Json.entries, List.lookup_cons]
  rw [found]
  exact nonces_mapM nonces

end Event

end AshA2A.Actuator
