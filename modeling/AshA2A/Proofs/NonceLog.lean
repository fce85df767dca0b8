import AshA2A.Proofs.TermDigest
import AshA2A.Sa2aCrypto.NonceStore
import AshA2A.Term

/-! The log of the replay store: how a line is spelled, why nothing can be read from a line
that begins with the torn end of another one, and what is replayed of a log that grows. -/

namespace AshA2A.Sa2aCrypto.NonceStore

/-! ## Texts of lines -/

section Text

def hexDigit (value : Nat) : UInt8 := if value < 10 then .ofNat (0x30 + value) else .ofNat (0x37 + value)

/-- As JSON strings have it: control characters, the quote and the backslash are escaped. -/
def escapeByte (byte : UInt8) : Bytes :=
  if byte = 0x22 then [0x5c, 0x22]
  else if byte = 0x5c then [0x5c, 0x5c]
  else if byte = 0x08 then [0x5c, 0x62]
  else if byte = 0x09 then [0x5c, 0x74]
  else if byte = 0x0a then [0x5c, 0x6e]
  else if byte = 0x0c then [0x5c, 0x66]
  else if byte = 0x0d then [0x5c, 0x72]
  else if byte < 0x20 then [0x5c, 0x75, 0x30, 0x30, hexDigit (byte.toNat / 16), hexDigit (byte.toNat % 16)]
  else [byte]

def escape (text : String) : Bytes := (utf8 text).flatMap escapeByte

/-- `["kid","nonce",expires]`. -/
def text (key : Key) (expires : Int) : Bytes :=
  [0x5b, 0x22] ++ escape key.1 ++ [0x22, 0x2c, 0x22] ++ escape key.2 ++ [0x22, 0x2c] ++ utf8 expires.repr ++ [0x5d]

inductive Mode where
  | outside | inside | escaped
  deriving Repr, DecidableEq

/-- Where a JSON text stands after a byte, and how many arrays were opened. Outside of a
string there is no backslash. -/
def scanByte : Mode × Nat → UInt8 → Option (Mode × Nat)
  | (.outside, opens), byte =>
    if byte = 0x22 then some (.inside, opens)
    else if byte = 0x5c then none
    else if byte = 0x5b then some (.outside, opens + 1)
    else some (.outside, opens)
  | (.inside, opens), byte =>
    if byte = 0x22 then some (.outside, opens)
    else if byte = 0x5c then some (.escaped, opens)
    else some (.inside, opens)
  | (.escaped, opens), _ => some (.inside, opens)

def scan (state : Mode × Nat) (bytes : Bytes) : Option (Mode × Nat) := bytes.foldlM scanByte state

/-- A byte that is neither a quote, a backslash, a bracket nor a line break. -/
def Plain (byte : UInt8) : Prop := byte ≠ 0x22 ∧ byte ≠ 0x5c ∧ byte ≠ 0x5b ∧ byte ≠ newline

instance (byte : UInt8) : Decidable (Plain byte) := inferInstanceAs (Decidable (_ ∧ _ ∧ _ ∧ _))

theorem scan_append (state : Mode × Nat) (first second : Bytes) :
    scan state (first ++ second) = (scan state first).bind fun state => scan state second := List.foldlM_append ..

theorem scan_cons (state : Mode × Nat) (byte : UInt8) (bytes : Bytes) :
    scan state (byte :: bytes) = (scanByte state byte).bind fun state => scan state bytes := List.foldlM_cons ..

theorem scanByte_opens {state next : Mode × Nat} {byte : UInt8} (given : scanByte state byte = some next) :
    state.2 ≤ next.2 := by
  obtain ⟨mode, opens⟩ := state
  cases mode <;> simp only [scanByte] at given <;> grind

theorem scan_opens {state next : Mode × Nat} {bytes : Bytes} (given : scan state bytes = some next) : state.2 ≤ next.2 := by
  induction bytes generalizing state with
  | nil => exact Nat.le_of_eq (congrArg Prod.snd (Option.some.inj given))
  | cons byte bytes ih =>
    rw [scan_cons] at given
    obtain ⟨middle, one, rest⟩ := Option.bind_eq_some_iff.mp given
    exact (scanByte_opens one).trans (ih rest)

theorem scan_plain {bytes : Bytes} (plain : ∀ byte ∈ bytes, Plain byte) (mode : Mode) (opens : Nat) (open_ : mode ≠ .escaped) :
    scan (mode, opens) bytes = some (mode, opens) := by
  induction bytes with
  | nil => rfl
  | cons byte bytes ih =>
    obtain ⟨⟨quote, backslash, bracket, _⟩, rest⟩ := List.forall_mem_cons.mp plain
    have one : scanByte (mode, opens) byte = some (mode, opens) := by
      cases mode with
      | outside => simp [scanByte, quote, backslash, bracket]
      | inside => simp [scanByte, quote, backslash]
      | escaped => exact absurd rfl open_
    rw [scan_cons, one]
    exact ih rest

/-- A byte that is kept, or an escape that begins with a backslash. -/
theorem escapeByte_cases (byte : UInt8) :
    (escapeByte byte = [byte] ∧ byte ≠ 0x22 ∧ byte ≠ 0x5c ∧ byte ≠ newline) ∨
      ∃ sign rest, escapeByte byte = 0x5c :: sign :: rest ∧ sign ≠ newline ∧ ∀ other ∈ rest, Plain other := by
  have all : ∀ value : Fin 256, (escapeByte (.ofFin value) = [.ofFin value] ∧ UInt8.ofFin value ≠ 0x22 ∧
      UInt8.ofFin value ≠ 0x5c ∧ UInt8.ofFin value ≠ newline) ∨
      ((escapeByte (.ofFin value)).head? = some 0x5c ∧ (escapeByte (.ofFin value)).tail.head?.any (· ≠ newline) ∧
        ∀ other ∈ (escapeByte (.ofFin value)).tail.tail, Plain other) := by decide +kernel
  obtain kept | ⟨first, second, rest⟩ := all byte.toFin
  · exact .inl kept
  · right
    change (escapeByte byte).head? = _ at first
    change (escapeByte byte).tail.head?.any _ at second
    change ∀ other ∈ (escapeByte byte).tail.tail, _ at rest
    match same : escapeByte byte with
    | [] | [_] => simp_all
    | backslash :: sign :: others => exact ⟨sign, others, by simp_all, by simpa [same] using second, by simpa [same] using rest⟩

theorem scan_escape_inside (given : String) (opens : Nat) : scan (.inside, opens) (escape given) = some (.inside, opens) := by
  unfold escape
  induction utf8 given with
  | nil => rfl
  | cons byte bytes ih =>
    rw [List.flatMap_cons, scan_append]
    have one : scan (.inside, opens) (escapeByte byte) = some (.inside, opens) := by
      obtain ⟨kept, quote, backslash, _⟩ | ⟨sign, rest, same, _, plain⟩ := escapeByte_cases byte
      · simp [kept, scan, scanByte, quote, backslash]
      · rw [same]
        exact scan_plain plain .inside opens nofun
    rw [one]
    exact ih

/-- Outside of a string an escape is an error, and nothing else of an escaped text is a quote. -/
theorem scan_escape_outside (given : String) (opens : Nat) :
    scan (.outside, opens) (escape given) = none ∨ ∃ more, scan (.outside, opens) (escape given) = some (.outside, more) := by
  unfold escape
  induction utf8 given generalizing opens with
  | nil => exact .inr ⟨opens, rfl⟩
  | cons byte bytes ih =>
    rw [List.flatMap_cons, scan_append]
    obtain ⟨kept, quote, backslash, _⟩ | ⟨sign, rest, same, _, _⟩ := escapeByte_cases byte
    · have one : ∃ more, scan (.outside, opens) (escapeByte byte) = some (.outside, more) := by
        rw [kept, scan_cons, scanByte, if_neg quote, if_neg backslash]
        split
        · exact ⟨_, rfl⟩
        · exact ⟨_, rfl⟩
      obtain ⟨more, one⟩ := one
      rw [one]
      exact ih more
    · rw [same]
      exact .inl rfl

theorem digits_plain (number : Int) : ∀ byte ∈ utf8 number.repr, Plain byte := by
  have all : (Semantic.CanonicalTermDigest.numerals.all fun char => (String.utf8EncodeChar char).all fun byte => Plain byte) = true := by
    decide
  intro byte member
  obtain ⟨char, listed, coded⟩ := List.mem_flatMap.mp member
  exact of_decide_eq_true (List.all_eq_true.mp (List.all_eq_true.mp all char (Semantic.CanonicalTermDigest.int_numeric number char listed)) byte coded)

theorem text_free (key : Key) (expires : Int) : newline ∉ text key expires := by
  have escaped (given : String) : newline ∉ escape given := by
    intro member
    obtain ⟨byte, _, within⟩ := List.mem_flatMap.mp member
    obtain ⟨kept, _, _, free⟩ | ⟨sign, rest, same, free, plain⟩ := escapeByte_cases byte
    · rw [kept, List.mem_singleton] at within
      exact free within.symm
    · rw [same] at within
      simp only [List.mem_cons] at within
      obtain one | one | other := within
      · exact absurd one (by decide)
      · exact free one.symm
      · exact (plain newline other).2.2.2 rfl
  simp only [text, List.mem_append, escaped, not_or]
  exact ⟨⟨⟨⟨⟨⟨by decide, not_false⟩, by decide⟩, not_false⟩, by decide⟩,
    fun member => (digits_plain expires newline member).2.2.2 rfl⟩, by decide⟩

theorem scan_text_outside (key : Key) (expires : Int) (opens : Nat) :
    scan (.outside, opens) (text key expires) = some (.outside, opens + 1) := by
  simp only [text, scan_append, scan_escape_inside, scan_plain (digits_plain expires) _ _ (nofun : Mode.outside ≠ .escaped),
    Option.bind_some, show scan (.outside, opens) [0x5b, 0x22] = some (.inside, opens + 1) from rfl,
    show scan (.inside, opens + 1) [0x22, 0x2c, 0x22] = some (.inside, opens + 1) from rfl,
    show scan (.inside, opens + 1) [0x22, 0x2c] = some (.outside, opens + 1) from rfl,
    show scan (.outside, opens + 1) [0x5d] = some (.outside, opens + 1) from rfl]

/-- Within a string the quotes of another text are taken the other way, and it ends inside of one. -/
theorem scan_text_inside (key : Key) (expires : Int) {mode : Mode} (opens : Nat) (within : mode ≠ .outside) :
    scan (mode, opens) (text key expires) = none ∨ ∃ more, scan (mode, opens) (text key expires) = some (.inside, more) := by
  have start : scan (mode, opens) [0x5b, 0x22] = some (.outside, opens) := by
    cases mode with
    | outside => exact absurd rfl within
    | inside | escaped => rfl
  simp only [text, scan_append, start, Option.bind_some]
  obtain failed | ⟨more, first⟩ := scan_escape_outside key.1 opens
  · simp [failed]
  · rw [first, Option.bind_some, show scan (.outside, more) [0x22, 0x2c, 0x22] = some (.outside, more) from rfl, Option.bind_some]
    obtain failed | ⟨last, second⟩ := scan_escape_outside key.2 more
    · simp [failed]
    · right
      refine ⟨last, ?_⟩
      rw [second, Option.bind_some, show scan (.outside, last) [0x22, 0x2c] = some (.inside, last) from rfl, Option.bind_some,
        scan_plain (digits_plain expires) .inside last nofun]
      rfl

end Text

/-! ## Lines -/

section Lines

theorem lines_append (log chunk : Bytes) : lines (log ++ chunk) = chunk.foldl feed (lines log) := List.foldl_append ..

/-- Without a line break the last line only grows. -/
theorem feed_free {chunk : Bytes} (free : newline ∉ chunk) (read : List Bytes × Bytes) :
    chunk.foldl feed read = (read.1, read.2 ++ chunk) := by
  induction chunk generalizing read with
  | nil => simp
  | cons byte chunk ih =>
    obtain ⟨different, free⟩ := not_or.mp fun given => free (List.mem_cons.mpr given)
    rw [List.foldl_cons, ih free, feed, if_neg (Ne.symm different)]
    simp

theorem feed_line {chunk : Bytes} (free : newline ∉ chunk) (read : List Bytes × Bytes) :
    (chunk ++ [newline]).foldl feed read = (read.1 ++ [read.2 ++ chunk], []) := by
  rw [List.foldl_append, feed_free free]
  rfl

theorem feed_flatten {texts : List Bytes} (free : ∀ text ∈ texts, newline ∉ text) (body : List Bytes) :
    (texts.map (· ++ [newline])).flatten.foldl feed (body, []) = (body ++ texts, []) := by
  induction texts generalizing body with
  | nil => simp
  | cons text texts ih =>
    obtain ⟨first, rest⟩ := List.forall_mem_cons.mp free
    rw [List.map_cons, List.flatten_cons, List.foldl_append, feed_line first, List.nil_append, ih rest]
    simp

variable {library : Json.Library} {entries : Entries}

theorem replay_append (entries : Entries) (first second : List Bytes) :
    replay library entries (first ++ second) =
      (replay library entries first).bind fun entries => replay library entries second := by
  induction first generalizing entries with
  | nil => rfl
  | cons line lines ih =>
    rw [List.cons_append, replay, replay]
    cases decodeLine library line with
    | none => rfl
    | some entry => exact ih _

theorem lookup_put (entries : Entries) (key other : Key) (expires : Int) :
    (entries.put key expires).lookup other = if other = key then some expires else entries.lookup other := by
  rw [Entries.put, List.lookup_cons]
  by_cases same : other = key
  · simp [same]
  · rw [if_neg same, beq_eq_false_iff_ne.mpr same]
    exact lookup_others entries same

def Entries.Unique (entries : Entries) : Prop := (entries.map Prod.fst).Nodup

theorem Entries.Unique.put (unique : entries.Unique) (key : Key) (expires : Int) : (entries.put key expires).Unique := by
  refine List.nodup_cons.mpr ⟨fun member => ?_, (List.filter_sublist.map Prod.fst).nodup unique⟩
  obtain ⟨entry, kept, same⟩ := List.mem_map.mp member
  exact absurd same (by simpa using (List.mem_filter.mp kept).2)

theorem replay_unique {read : Entries} {texts : List Bytes} (unique : entries.Unique)
    (replayed : replay library entries texts = some read) : read.Unique := by
  induction texts generalizing entries with
  | nil => exact Option.some.inj replayed ▸ unique
  | cons text texts ih =>
    obtain ⟨entry, _, rest⟩ := Option.bind_eq_some_iff.mp replayed
    exact ih (unique.put _ _) rest

theorem lookup_iff (unique : entries.Unique) {key : Key} {expires : Int} :
    entries.lookup key = some expires ↔ (key, expires) ∈ entries := by
  induction entries with
  | nil => simp
  | cons entry entries ih =>
    obtain ⟨name, stored⟩ := entry
    obtain ⟨fresh, rest⟩ := List.nodup_cons.mp unique
    rw [List.lookup_cons, List.mem_cons]
    by_cases same : key = name
    · subst same
      have absent : (key, expires) ∉ entries := fun member => fresh (List.mem_map.mpr ⟨_, member, rfl⟩)
      simp [absent, eq_comm]
    · rw [beq_eq_false_iff_ne.mpr same]
      simp [same, ih rest]

/-- Lines of different keys are read back as the entries they were written for. -/
theorem replay_distinct {texts : List Bytes} {written : Entries} (acc : Entries)
    (each : List.Forall₂ (fun entry text => decodeLine library text = some entry) written texts)
    (unique : written.Unique) : ∃ read, replay library acc texts = some read ∧
      ∀ key, read.lookup key = (written.lookup key).or (acc.lookup key) := by
  induction each generalizing acc with
  | nil => exact ⟨acc, rfl, fun key => rfl⟩
  | @cons entry text written texts one each ih =>
    obtain ⟨name, stored⟩ := entry
    obtain ⟨fresh, rest⟩ := List.nodup_cons.mp unique
    obtain ⟨read, replayed, same⟩ := ih (acc.put name stored) rest
    refine ⟨read, by rw [replay, one]; exact replayed, fun key => ?_⟩
    rw [same, lookup_put, List.lookup_cons]
    by_cases named : key = name
    · subst named
      have absent : written.lookup key = none := List.lookup_eq_none_iff.mpr fun entry member =>
        bne_iff_ne.mpr fun same => fresh (List.mem_map.mpr ⟨entry, member, same.symm⟩)
      simp [absent]
    · rw [if_neg named, beq_eq_false_iff_ne.mpr named]

end Lines

/-! ## Logs -/

/-- The JSON library: what it encodes is spelled as above and read back, and it reads nothing
that breaks the grammar of strings and arrays. -/
structure Lawful (library : Json.Library) : Prop where
  text : ∀ {key expires bytes}, library.encode (triple key expires) = some bytes → bytes = text key expires
  read : ∀ {key expires bytes}, library.encode (triple key expires) = some bytes →
    library.decode bytes = some (triple key expires)
  grammar : ∀ {key expires bytes}, library.decode bytes = some (triple key expires) →
    scan (.outside, 0) bytes = some (.outside, 1)

/-- The end of a log behind which no line can be read: there is none, or an array is open. -/
def Frayed (tail : Bytes) : Prop := tail = [] ∨ ∀ state, scan (.outside, 0) tail = some state → 1 ≤ state.2

/-- Whatever is replayed of the log has the key. -/
def Held (library : Json.Library) (log : Option Bytes) (key : Key) (expires : Int) : Prop :=
  ∀ entries torn, load library log = some (entries, torn) → entries.lookup key = some expires

section Logs

variable {library : Json.Library} (lawful : Lawful library) {key other : Key} {expires later : Int} {log bytes : Bytes}

include lawful

theorem line_text (written : line library key expires = some bytes) : bytes = text key expires ++ [newline] := by
  obtain ⟨encoded, given, rfl⟩ := Option.map_eq_some_iff.mp written
  rw [lawful.text given]

theorem decodeLine_text (written : line library key expires = some bytes) :
    decodeLine library (text key expires) = some (key, expires) := by
  obtain ⟨encoded, given, _⟩ := Option.map_eq_some_iff.mp written
  rw [decodeLine, ← lawful.text given, lawful.read given]
  rfl

theorem decodeLine_grammar {entry : Key × Int} (read : decodeLine library bytes = some entry) :
    scan (.outside, 0) bytes = some (.outside, 1) := by
  unfold decodeLine at read
  split at read
  next kid nonce expires given => exact lawful.grammar (show library.decode bytes = some (triple (kid, nonce) expires) from given)
  next => cases read

/-- A line that begins with the torn end of another one is not read. -/
theorem decodeLine_frayed {tail : Bytes} (frayed : Frayed tail) (torn : tail ≠ []) :
    decodeLine library (tail ++ text key expires) = none := by
  refine Option.eq_none_iff_forall_ne_some.mpr fun entry read => ?_
  have whole := decodeLine_grammar lawful read
  rw [scan_append] at whole
  obtain ⟨⟨mode, opens⟩, left, right⟩ := Option.bind_eq_some_iff.mp whole
  have opened := frayed.resolve_left torn _ left
  by_cases outside : mode = .outside
  · subst outside
    rw [scan_text_outside] at right
    simp only [Option.some.injEq, Prod.mk.injEq, true_and] at right
    dsimp only at opened
    omega
  · obtain failed | ⟨more, inside⟩ := scan_text_inside key expires opens outside
    · cases failed.symm.trans right
    · cases inside.symm.trans right

/-- What of a line reaches the log is a part without a line break, or the whole line. -/
theorem take_line (written : line library key expires = some bytes) (count : Nat) :
    bytes.take count = bytes ∨ ∃ chunk, bytes.take count = chunk ∧ newline ∉ chunk ∧
      (chunk = [] ∨ ∃ rest, chunk = 0x5b :: rest) := by
  rw [line_text lawful written]
  by_cases short : count ≤ (text key expires).length
  · refine .inr ⟨_, rfl, ?_, ?_⟩
    · rw [List.take_append_of_le_length short]
      exact fun member => text_free key expires (List.mem_of_mem_take member)
    · cases count with
      | zero => exact .inl (List.take_zero)
      | succ count => exact .inr ⟨_, rfl⟩
  · refine .inl (List.take_of_length_le ?_)
    rw [List.length_append, List.length_singleton]
    omega

theorem frayed_append (written : line library key expires = some bytes) (frayed : Frayed (lines log).2) (count : Nat) :
    Frayed (lines (log ++ bytes.take count)).2 := by
  obtain whole | ⟨chunk, same, free, begins⟩ := take_line lawful written count
  · rw [whole, line_text lawful written, lines_append, feed_line (text_free key expires)]
    exact .inl rfl
  · rw [same, lines_append, feed_free free]
    obtain rfl | ⟨rest, rfl⟩ := begins
    · rwa [List.append_nil]
    · refine .inr fun state given => ?_
      rw [scan_append] at given
      obtain ⟨middle, left, right⟩ := Option.bind_eq_some_iff.mp given
      obtain none_left | opened := frayed
      · rw [none_left] at left
        cases left
        rw [scan_cons] at right
        exact scan_opens right
      · exact (opened middle left).trans (scan_opens right)

/-- A line of another key takes nothing away. -/
theorem held_append (written : line library other later = some bytes) (different : key ≠ other)
    (frayed : Frayed (lines log).2) (held : Held library (some log) key expires) (count : Nat) :
    Held library (some (log ++ bytes.take count)) key expires := by
  intro entries torn loaded
  simp only [load, parse, Option.map_eq_some_iff, Prod.mk.injEq] at loaded
  obtain ⟨read, replayed, rfl, _⟩ := loaded
  have before (old : Entries) (given : replay library [] (lines log).1 = some old) : old.lookup key = some expires :=
    held old _ (by rw [load, parse, given]; rfl)
  obtain whole | ⟨chunk, same, free, _⟩ := take_line lawful written count
  · rw [whole, line_text lawful written, lines_append, feed_line (text_free other later), replay_append] at replayed
    obtain ⟨old, given, last⟩ := Option.bind_eq_some_iff.mp replayed
    by_cases torn : (lines log).2 = []
    · rw [torn, List.nil_append, replay, decodeLine_text lawful written] at last
      obtain rfl := Option.some.inj last
      rw [lookup_put, if_neg different]
      exact before old given
    · rw [replay, decodeLine_frayed lawful frayed torn] at last
      cases last
  · rw [same, lines_append, feed_free free] at replayed
    exact before read replayed

/-- Behind its own line the key is held, whatever stood before. -/
theorem held_written (written : line library key expires = some bytes) (frayed : Frayed (lines log).2) :
    Held library (some (log ++ bytes)) key expires := by
  intro entries torn loaded
  simp only [load, parse, Option.map_eq_some_iff, Prod.mk.injEq] at loaded
  obtain ⟨read, replayed, rfl, _⟩ := loaded
  rw [line_text lawful written, lines_append, feed_line (text_free key expires), replay_append] at replayed
  obtain ⟨old, given, last⟩ := Option.bind_eq_some_iff.mp replayed
  by_cases torn : (lines log).2 = []
  · rw [torn, List.nil_append, replay, decodeLine_text lawful written] at last
    obtain rfl := Option.some.inj last
    rw [lookup_put, if_pos rfl]
  · rw [replay, decodeLine_frayed lawful frayed torn] at last
    cases last

theorem mapM_texts {entries : Entries} {written : List Bytes}
    (each : entries.mapM (fun entry => line library entry.1 entry.2) = some written) :
    written = (entries.map fun entry => text entry.1 entry.2).map (· ++ [newline]) ∧
      List.Forall₂ (fun entry text => decodeLine library text = some entry) entries
        (entries.map fun entry => text entry.1 entry.2) := by
  induction entries generalizing written with
  | nil =>
    cases each
    exact ⟨rfl, .nil⟩
  | cons entry entries ih =>
    rw [List.mapM_cons] at each
    obtain ⟨bytes, first, each⟩ := Option.bind_eq_some_iff.mp each
    obtain ⟨others, rest, each⟩ := Option.bind_eq_some_iff.mp each
    cases each
    obtain ⟨rfl, decoded⟩ := ih rest
    exact ⟨by rw [line_text lawful first]; rfl, .cons (decodeLine_text lawful first) decoded⟩

def sorted (entries : Entries) : Entries := entries.insertionSort fun first second => rank first ≤ rank second

omit lawful in
theorem sorted_perm (entries : Entries) : List.Perm (sorted entries) entries := List.perm_insertionSort _ entries

theorem lines_data {entries : Entries} (written : data library entries = some bytes) :
    lines bytes = ((sorted entries).map fun entry => text entry.1 entry.2, []) := by
  obtain ⟨texts, each, rfl⟩ := Option.map_eq_some_iff.mp written
  obtain ⟨rfl, _⟩ := mapM_texts lawful each
  refine feed_flatten (fun bytes member => ?_) []
  obtain ⟨entry, _, rfl⟩ := List.mem_map.mp member
  exact text_free entry.1 entry.2

/-- A rewritten log is read back. -/
theorem load_data {entries : Entries} (unique : entries.Unique) (written : data library entries = some bytes) :
    ∃ read, load library (some bytes) = some (read, false) ∧ ∀ key, read.lookup key = entries.lookup key := by
  have split := lines_data lawful written
  obtain ⟨texts, each, _⟩ := Option.map_eq_some_iff.mp written
  have decoded := (mapM_texts lawful each).2
  have perm := sorted_perm entries
  have unique' : (sorted entries).Unique := (perm.map Prod.fst).nodup_iff.mpr unique
  obtain ⟨read, replayed, same⟩ := replay_distinct [] decoded unique'
  refine ⟨read, ?_, fun key => ?_⟩
  · rw [load, parse, split]
    dsimp only
    rw [sorted, replayed]
    rfl
  · rw [same key, List.lookup_nil, Option.or_none]
    refine Option.ext fun expires => ?_
    rw [lookup_iff unique, ← perm.mem_iff]
    exact lookup_iff unique'

end Logs

end AshA2A.Sa2aCrypto.NonceStore
