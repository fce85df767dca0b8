import AshA2A.Passport.Encoding
import Mathlib.Data.List.Basic

/-! Server-sent events as a client reads them: chunks are gathered in a buffer, line ends become line feeds,
and a blank line ends an event. -/

namespace AshA2A.Protocol.ClientSSE

abbrev lineFeed : UInt8 := 0x0A

abbrev carriageReturn : UInt8 := 0x0D

/-! ## Line ends -/

/-- `String.replace(text, "\r\n", "\n")`. -/
def replaceCrlf : Bytes → Bytes
  | first :: second :: rest =>
    if first = carriageReturn ∧ second = lineFeed then lineFeed :: replaceCrlf rest
    else first :: replaceCrlf (second :: rest)
  | rest => rest

/-- `String.replace(text, "\r", "\n")`. -/
def replaceCr (text : Bytes) : Bytes := text.map fun byte => if byte = carriageReturn then lineFeed else byte

/-- A carriage return at the end is held back: the line feed after it may be still to come. -/
def normalizeNewlines (buffer : Bytes) : Bytes :=
  if buffer.getLast? = some carriageReturn then replaceCr (replaceCrlf buffer.dropLast) ++ [carriageReturn]
  else replaceCr (replaceCrlf buffer)

/-! ## Events -/

def splitFrom (part : Bytes) : Bytes → List Bytes
  | first :: second :: rest =>
    if first = lineFeed ∧ second = lineFeed then part :: splitFrom [] rest
    else splitFrom (part ++ [first]) (second :: rest)
  | rest => [part ++ rest]

/-- `String.split(buffer, "\n\n")`. -/
def splitBreaks (buffer : Bytes) : List Bytes := splitFrom [] buffer

/-- The last part stays in the buffer. -/
def extractEvents (buffer : Bytes) : List Bytes × Bytes :=
  ((splitBreaks buffer).dropLast, (splitBreaks buffer).getLastD [])

def isData (line : Bytes) : Bool := (utf8 "data:").isPrefixOf line

/-- What stands behind `data:`, without the spaces in front. -/
def payload (line : Bytes) : Bytes := (line.drop (utf8 "data:").length).dropWhile fun byte => byte = 0x20

def dataOf (raw : Bytes) : Bytes := [lineFeed].intercalate (((raw.splitOn lineFeed).filter isData).map payload)

section Feeding
variable {J : Type} (decode : Bytes → Option J)

def decodeEvents (raws : List Bytes) : List J := raws.flatMap fun raw => (decode (dataOf raw)).toList

structure State where
  buffer : Bytes := []
  deriving Repr, DecidableEq

def feed (state : State) (chunk : Bytes) : List J × State :=
  let (events, rest) := extractEvents (normalizeNewlines (state.buffer ++ chunk))
  (decodeEvents decode events, { state with buffer := rest })

/-- One chunk after the other. -/
def feedAll (state : State) : List Bytes → List J × State
  | [] => ([], state)
  | chunk :: chunks =>
    let (events, state) := feed decode state chunk
    let (others, state) := feedAll state chunks
    (events ++ others, state)

end Feeding

/-! ## Normalising in parts -/

section Normalising
variable {text front tail first second : Bytes} {byte : UInt8}

theorem normalize_nil : normalizeNewlines [] = [] := rfl

theorem normalize_held : normalizeNewlines [carriageReturn] = [carriageReturn] := rfl

theorem replaceCrlf_plain (plain : byte ≠ carriageReturn) : replaceCrlf (byte :: text) = byte :: replaceCrlf text := by
  cases text with
  | nil => rfl
  | cons next rest => rw [replaceCrlf, if_neg fun both => plain both.1]

theorem replaceCrlf_cr (other : ∀ next ∈ text.head?, next ≠ lineFeed) :
    replaceCrlf (carriageReturn :: text) = carriageReturn :: replaceCrlf text := by
  cases text with
  | nil => rfl
  | cons next rest => rw [replaceCrlf, if_neg fun both => other next rfl both.2]

/-- One byte in front, where the end of the text stays its end. -/
theorem normalize_cons (some : text ≠ []) (whole : replaceCrlf (byte :: text) = byte :: replaceCrlf text)
    (held : replaceCrlf (byte :: text.dropLast) = byte :: replaceCrlf text.dropLast) :
    normalizeNewlines (byte :: text) =
      (if byte = carriageReturn then lineFeed else byte) :: normalizeNewlines text := by
  unfold normalizeNewlines
  rw [List.getLast?_cons_of_ne_nil some, List.dropLast_cons_of_ne_nil some, held, whole]
  split
  · rw [replaceCr, List.map_cons, List.cons_append]
    rfl
  · rw [replaceCr, List.map_cons]
    rfl

theorem normalize_plain (plain : byte ≠ carriageReturn) : normalizeNewlines (byte :: text) = byte :: normalizeNewlines text := by
  cases text with
  | nil =>
    have open_ : ¬ [byte].getLast? = some carriageReturn := fun same => plain (Option.some.inj same)
    rw [normalizeNewlines, if_neg open_]
    show [if byte = carriageReturn then lineFeed else byte] = [byte]
    rw [if_neg plain]
  | cons next rest =>
    rw [normalize_cons (List.cons_ne_nil _ _) (replaceCrlf_plain plain) (replaceCrlf_plain plain), if_neg plain]

theorem normalize_cr (other : byte ≠ lineFeed) :
    normalizeNewlines (carriageReturn :: byte :: text) = lineFeed :: normalizeNewlines (byte :: text) := by
  have whole : ∀ next ∈ (byte :: text).head?, next ≠ lineFeed := fun next same => Option.some.inj same ▸ other
  have held : ∀ next ∈ (byte :: text).dropLast.head?, next ≠ lineFeed := by
    cases text with
    | nil => exact nofun
    | cons => exact whole
  rw [normalize_cons (List.cons_ne_nil _ _) (replaceCrlf_cr whole) (replaceCrlf_cr held), if_pos rfl]

theorem normalize_crlf : normalizeNewlines (carriageReturn :: lineFeed :: text) = lineFeed :: normalizeNewlines text := by
  have pair (rest : Bytes) : replaceCrlf (carriageReturn :: lineFeed :: rest) = lineFeed :: replaceCrlf rest :=
    if_pos ⟨rfl, rfl⟩
  cases text with
  | nil => rfl
  | cons next rest =>
    unfold normalizeNewlines
    rw [List.getLast?_cons_of_ne_nil (List.cons_ne_nil _ _), List.getLast?_cons_of_ne_nil (List.cons_ne_nil _ _),
      List.dropLast_cons_of_ne_nil (List.cons_ne_nil _ _), List.dropLast_cons_of_ne_nil (List.cons_ne_nil _ _), pair, pair]
    split <;> rfl

/-- What the induction on a text needs: its first line end is one of three. -/
theorem text_cases {motive : Bytes → Prop} (empty : motive []) (held : motive [carriageReturn])
    (crlf : ∀ text, motive text → motive (carriageReturn :: lineFeed :: text))
    (cr : ∀ byte text, byte ≠ lineFeed → motive (byte :: text) → motive (carriageReturn :: byte :: text))
    (plain : ∀ byte text, byte ≠ carriageReturn → motive text → motive (byte :: text)) (text : Bytes) : motive text := by
  induction length : text.length using Nat.strongRecOn generalizing text with
  | ind size ih =>
    cases text with
    | nil => exact empty
    | cons byte rest =>
      by_cases same : byte = carriageReturn
      · subst same
        cases rest with
        | nil => exact held
        | cons next rest =>
          by_cases feed : next = lineFeed
          · subst feed
            exact crlf rest (ih rest.length (by simp only [← length, List.length_cons]; omega) rest rfl)
          · exact cr next rest feed (ih (rest.length + 1) (by simp only [← length, List.length_cons]; omega) (next :: rest) rfl)
      · exact plain byte rest same (ih rest.length (by simp only [← length, List.length_cons]; omega) rest rfl)

theorem normalize_again (text tail : Bytes) :
    normalizeNewlines (normalizeNewlines text ++ tail) = normalizeNewlines (text ++ tail) := by
  have feed : lineFeed ≠ carriageReturn := by decide
  induction text using text_cases with
  | empty => rfl
  | held => rfl
  | crlf text ih =>
    rw [normalize_crlf, List.cons_append, normalize_plain feed, ih, List.cons_append, List.cons_append, normalize_crlf]
  | cr byte text other ih =>
    rw [normalize_cr other, List.cons_append, normalize_plain feed, ih]
    exact (normalize_cr other).symm
  | plain byte text plain ih =>
    rw [normalize_plain plain, List.cons_append, normalize_plain plain, ih, List.cons_append, normalize_plain plain]

theorem normalize_front (plain : carriageReturn ∉ front) :
    normalizeNewlines (front ++ tail) = front ++ normalizeNewlines tail := by
  induction front with
  | nil => rfl
  | cons byte front ih =>
    obtain ⟨other, rest⟩ := not_or.mp (mt List.mem_cons.mpr plain)
    rw [List.cons_append, normalize_plain (Ne.symm other), ih rest, List.cons_append]

/-- Only the last byte may still be a carriage return. -/
theorem normalize_clean (text : Bytes) :
    ∀ front tail, normalizeNewlines text = front ++ carriageReturn :: tail → tail = [] := by
  have behind {byte : UInt8} {rest : Bytes} (plain : byte ≠ carriageReturn)
      (ih : ∀ front tail, rest = front ++ carriageReturn :: tail → tail = []) :
      ∀ front tail, byte :: rest = front ++ carriageReturn :: tail → tail = [] := by
    intro front tail same
    cases front with
    | nil => exact absurd (List.cons.inj same).1 plain
    | cons first front => exact ih front tail (List.cons.inj same).2
  have feed : lineFeed ≠ carriageReturn := by decide
  induction text using text_cases with
  | empty => intro front tail same; cases front <;> cases same
  | held =>
    intro front tail same
    rw [normalize_held] at same
    cases front with
    | nil => exact (List.cons.inj same).2.symm
    | cons first front => exact absurd (List.cons.inj same).2.symm (by simp)
  | crlf text ih => rw [normalize_crlf]; exact behind feed ih
  | cr byte text other ih => rw [normalize_cr other]; exact behind feed ih
  | plain byte text plain ih => rw [normalize_plain plain]; exact behind plain ih

end Normalising

/-! ## Splitting in parts -/

section Splitting
variable {part text rest event : Bytes} {events : List Bytes}

/-- What ends an event, wherever it starts. -/
def Ends (event : Bytes) : Prop :=
  ∀ part tail, splitFrom part (event ++ lineFeed :: lineFeed :: tail) = (part ++ event) :: splitBreaks tail

def joined (events : List Bytes) : Bytes := events.flatMap fun event => event ++ [lineFeed, lineFeed]

theorem ends_nil : Ends [] := by
  intro part tail
  rw [List.nil_append, splitFrom, if_pos ⟨rfl, rfl⟩, List.append_nil]
  rfl

/-- A byte in front that makes no break with what follows. -/
theorem ends_cons {byte : UInt8} (ends : Ends event)
    (apart : ∀ next ∈ (event ++ [lineFeed]).head?, ¬ (byte = lineFeed ∧ next = lineFeed)) : Ends (byte :: event) := by
  intro part tail
  obtain ⟨next, rest, head⟩ : ∃ next rest, event ++ lineFeed :: lineFeed :: tail = next :: rest ∧
      (event ++ [lineFeed]).head? = some next := by
    cases event with
    | nil => exact ⟨_, _, rfl, rfl⟩
    | cons next rest => exact ⟨_, _, rfl, rfl⟩
  have later := ends (part ++ [byte]) tail
  rw [head.1] at later
  rw [List.cons_append, head.1, splitFrom, if_neg (apart next head.2), later, List.append_assoc]
  rfl

theorem splitFrom_cases (part text : Bytes) :
    splitFrom part text = [part ++ text] ∨
      ∃ event rest, text = event ++ lineFeed :: lineFeed :: rest ∧ Ends event ∧
        splitFrom part text = (part ++ event) :: splitBreaks rest := by
  fun_induction splitFrom part text with
  | case1 part first second rest break_ ih =>
    obtain ⟨rfl, rfl⟩ := break_
    exact .inr ⟨[], rest, rfl, ends_nil, by rw [List.append_nil]; rfl⟩
  | case2 part first second rest apart ih =>
    obtain whole | ⟨event, behind, same, ends, split⟩ := ih
    · rw [whole, List.append_assoc]
      exact .inl rfl
    · refine .inr ⟨first :: event, behind, by rw [same]; rfl, ends_cons ends ?_, ?_⟩
      · intro next head
        have second_eq : next = second := by
          cases event with
          | nil => exact (Option.some.inj head).symm.trans (List.cons.inj same).1.symm
          | cons => exact (Option.some.inj head).symm.trans (List.cons.inj same).1.symm
        exact second_eq ▸ apart
      · rw [split, List.append_assoc]
        rfl
  | case3 part rest => exact .inl rfl

theorem splitBreaks_joined (text : Bytes) :
    ∃ events rest, splitBreaks text = events ++ [rest] ∧ text = joined events ++ rest ∧ ∀ event ∈ events, Ends event := by
  induction length : text.length using Nat.strongRecOn generalizing text with
  | ind size ih =>
    obtain whole | ⟨event, rest, same, ends, split⟩ := splitFrom_cases [] text
    · exact ⟨[], text, whole, rfl, nofun⟩
    · have shorter : rest.length < size := by
        rw [← length, same, List.length_append]
        simp only [List.length_cons]
        omega
      obtain ⟨events, last, others, text_eq, each⟩ := ih rest.length shorter rest rfl
      refine ⟨event :: events, last, ?_, ?_, List.forall_mem_cons.mpr ⟨ends, each⟩⟩
      · rw [splitBreaks, split, others]
        rfl
      · rw [same, text_eq, joined, joined, List.flatMap_cons]
        simp only [List.append_assoc, List.cons_append, List.nil_append]

theorem splitBreaks_front (ends : ∀ event ∈ events, Ends event) (tail : Bytes) :
    splitBreaks (joined events ++ tail) = events ++ splitBreaks tail := by
  induction events with
  | nil => rfl
  | cons event events ih =>
    obtain ⟨first, others⟩ := List.forall_mem_cons.mp ends
    have split := first [] (joined events ++ tail)
    rw [List.nil_append] at split
    rw [List.cons_append, ← ih others, ← split, joined, List.flatMap_cons]
    simp only [List.append_assoc, List.cons_append, List.nil_append]
    rfl

theorem joined_last (some : events ≠ []) : (joined events).getLast? = .some lineFeed := by
  induction events with
  | nil => exact absurd rfl some
  | cons event events ih =>
    rw [joined, List.flatMap_cons, List.getLast?_append]
    cases events with
    | nil => simp
    | cons next events =>
      have last := ih (List.cons_ne_nil _ _)
      rw [joined] at last
      rw [last, Option.some_or]

theorem extractEvents_eq (split : splitBreaks text = events ++ [rest]) : extractEvents text = (events, rest) := by
  rw [extractEvents, split, List.dropLast_concat, List.getLastD_concat]

end Splitting

/-! ## Chunks -/

/-- What is read and what is left of a text that is not normalised. -/
def readAll (text : Bytes) : List Bytes × Bytes := extractEvents (normalizeNewlines text)

/-- What is read ends in line feeds, and what is left goes on as it is. -/
theorem normalize_joined {text rest : Bytes} {events : List Bytes} (same : normalizeNewlines text = joined events ++ rest)
    (tail : Bytes) : normalizeNewlines (text ++ tail) = joined events ++ normalizeNewlines (rest ++ tail) := by
  have plain : carriageReturn ∉ joined events := by
    intro member
    obtain ⟨front, behind, split⟩ := List.append_of_mem member
    have none : behind ++ rest = [] := by
      apply normalize_clean text front
      rw [same, split, List.append_assoc, List.cons_append]
    rw [(List.append_eq_nil_iff.mp none).1] at split
    have some : events ≠ [] := by
      rintro rfl
      cases front <;> cases split
    have last := joined_last some
    rw [split, List.getLast?_concat] at last
    cases last
  rw [← normalize_again, same, List.append_assoc, normalize_front plain]

theorem readAll_append (text tail : Bytes) :
    readAll (text ++ tail) =
      ((readAll text).1 ++ (readAll ((readAll text).2 ++ tail)).1, (readAll ((readAll text).2 ++ tail)).2) := by
  obtain ⟨events, rest, split, same, ends⟩ := splitBreaks_joined (normalizeNewlines text)
  have first : readAll text = (events, rest) := extractEvents_eq split
  obtain ⟨others, last, splits, -, -⟩ := splitBreaks_joined (normalizeNewlines (rest ++ tail))
  have second : readAll (rest ++ tail) = (others, last) := extractEvents_eq splits
  rw [first]
  dsimp only
  rw [second]
  apply extractEvents_eq
  rw [normalize_joined same, splitBreaks_front ends, splits, List.append_assoc]

theorem readAll_rest (text : Bytes) : readAll (readAll text).2 = ([], (readAll text).2) := by
  have again := readAll_append text []
  rw [List.append_nil, List.append_nil] at again
  obtain ⟨events, rest⟩ := Prod.mk.inj again
  exact Prod.ext (List.append_right_eq_self.mp events.symm) rest.symm

section Chunks
variable {J : Type} {decode : Bytes → Option J}

theorem feed_eq (state : State) (chunk : Bytes) : feed decode state chunk =
    (decodeEvents decode (readAll (state.buffer ++ chunk)).1, ⟨(readAll (state.buffer ++ chunk)).2⟩) := rfl

/-- From a buffer in which nothing is left to be read. -/
theorem feedAll_eq {buffer : Bytes} (settled : readAll buffer = ([], buffer)) (chunks : List Bytes) :
    feedAll decode ⟨buffer⟩ chunks =
      (decodeEvents decode (readAll (buffer ++ chunks.flatten)).1, ⟨(readAll (buffer ++ chunks.flatten)).2⟩) := by
  induction chunks generalizing buffer with
  | nil =>
    rw [List.flatten_nil, List.append_nil, settled]
    rfl
  | cons chunk chunks ih =>
    have later := ih (readAll_rest (buffer ++ chunk))
    rw [feedAll, feed_eq]
    dsimp only
    rw [later, List.flatten_cons, ← List.append_assoc, readAll_append (buffer ++ chunk)]
    dsimp only
    rw [decodeEvents, decodeEvents, decodeEvents, List.flatMap_append]

theorem feedAll_flatten (chunks : List Bytes) : feedAll decode {} chunks = feed decode {} chunks.flatten :=
  feedAll_eq rfl chunks

end Chunks

/-! ## Texts of JSON -/

inductive Place where
  | outside | inside | escaped
  deriving Repr, DecidableEq

/-- Strings, and what stands behind a backslash in them. -/
def Place.after : Place → UInt8 → Place
  | .outside, byte => if byte = 0x22 then .inside else .outside
  | .inside, byte => if byte = 0x22 then .outside else if byte = 0x5C then .escaped else .inside
  | .escaped, _ => .inside

def Outside (text : Bytes) : Prop := text.foldl Place.after .outside = .outside

def isSpace (byte : UInt8) : Bool := byte = 0x20 || byte = 0x09 || byte = 0x0A || byte = 0x0D

def Blank (gap : Bytes) : Prop := ∀ byte ∈ gap, isSpace byte = true

/-- What is relied on of a decoder of JSON: white space outside of strings says nothing. -/
structure Decoder {J : Type} (decode : Bytes → Option J) : Prop where
  empty : decode [] = none
  leading : ∀ gap rest, Blank gap → decode (gap ++ rest) = decode rest
  between : ∀ before gap other rest, Outside before → Blank gap → Blank other → gap ≠ [] → other ≠ [] →
    decode (before ++ gap ++ rest) = decode (before ++ other ++ rest)

/-- The white space at a cut: what is left out there, or what stands before or behind it. -/
def Seam (front gap rest : Bytes) : Prop :=
  gap ≠ [] ∨ (∃ byte ∈ front.getLast?, isSpace byte = true) ∨ ∃ byte ∈ rest.head?, isSpace byte = true

/-- A text cut into pieces at white space between its tokens. -/
inductive Spread : Bytes → List Bytes → Prop where
  | whole (text : Bytes) : Spread text [text]
  | cut {front gap rest : Bytes} {pieces : List Bytes} : Outside front → Blank gap → Seam front gap rest →
      Spread rest pieces → Spread (front ++ gap ++ rest) (front :: pieces)

/-! ## Written events -/

inductive End where
  | lf | crlf | cr
  deriving Repr, DecidableEq

def End.bytes : End → Bytes
  | .lf => [lineFeed]
  | .crlf => [carriageReturn, lineFeed]
  | .cr => [carriageReturn]

/-- A line with its end, and no other line end in it. -/
structure Line where
  text : Bytes
  ending : End
  plain : ∀ byte ∈ text, byte ≠ lineFeed ∧ byte ≠ carriageReturn

def Line.bytes (line : Line) : Bytes := line.text ++ line.ending.bytes

def Line.blank (ending : End) : Line := ⟨[], ending, nofun⟩

/-- A data line of a piece, with any number of spaces before it. -/
def Holds (line piece : Bytes) : Prop := ∃ spaces, line = utf8 "data:" ++ (List.replicate spaces 0x20 ++ piece)

section Written
variable {J : Type} {decode : Bytes → Option J}

/-- The data lines hold the value's text; without a value there are none. -/
def Carries (decode : Bytes → Option J) (data : List Bytes) : Option J → Prop
  | none => data = []
  | some value => ∃ text pieces, decode text = some value ∧ Spread text pieces ∧ List.Forall₂ Holds data pieces

/-- Lines of any kind and the blank line behind them. -/
structure Event (decode : Bytes → Option J) where
  lines : List Line
  filled : ∀ line ∈ lines, line.text ≠ []
  blank : End
  value : Option J
  carries : Carries decode ((lines.map Line.text).filter isData) value

def Event.all (event : Event decode) : List Line := event.lines ++ [.blank event.blank]

/-- A line that a carriage return ends is not followed by a lone line feed: the two are one line end. -/
def Apart (first second : Line) : Prop := first.ending = .cr → second.text = [] → second.ending ≠ .lf

instance : DecidableRel Apart := fun first second =>
  inferInstanceAs (Decidable (first.ending = .cr → second.text = [] → second.ending ≠ .lf))

def stream (lines : List Line) : Bytes := lines.flatMap Line.bytes

end Written

/-! ## Pieces of a text -/

section Texts
variable {J : Type} {decode : Bytes → Option J} {front gap rest before text : Bytes} {pieces data : List Bytes}

theorem outside_append (outside : Outside front) : Outside (front ++ rest) ↔ Outside rest := by
  rw [Outside, List.foldl_append, outside]
  rfl

theorem after_space {place : Place} {byte : UInt8} (space : isSpace byte = true) :
    place.after byte = .outside ↔ place = .outside := by
  have other : byte ≠ 0x22 ∧ byte ≠ 0x5C := by
    constructor <;> (rintro rfl; cases space)
  cases place with
  | outside => exact iff_of_true (if_neg other.1) rfl
  | inside => exact iff_of_false (by rw [Place.after, if_neg other.1, if_neg other.2]; nofun) nofun
  | escaped => exact iff_of_false nofun nofun

theorem outside_space {byte : UInt8} (space : isSpace byte = true) : Outside (front ++ [byte]) ↔ Outside front := by
  rw [Outside, List.foldl_append]
  exact after_space space

theorem blank_feed : Blank [lineFeed] := List.forall_mem_singleton.mpr rfl

/-- The text that is written so far is empty, or a line feed has just been put behind a piece. -/
def Fresh (before : Bytes) : Prop := Outside before ∧ (before = [] ∨ ∃ front, before = front ++ [lineFeed])

def trim (piece : Bytes) : Bytes := piece.dropWhile fun byte => byte = 0x20

theorem trim_decode (decoder : Decoder decode) (fresh : Fresh before) (piece rest : Bytes) :
    decode (before ++ trim piece ++ rest) = decode (before ++ piece ++ rest) := by
  have blank : Blank (piece.takeWhile fun byte => byte = 0x20) := by
    intro byte member
    have space := List.all_eq_true.mp List.all_takeWhile byte member
    rw [of_decide_eq_true space]
    rfl
  have whole : piece.takeWhile (fun byte => byte = 0x20) ++ trim piece = piece := List.takeWhile_append_dropWhile
  obtain ⟨outside, rfl | ⟨front, rfl⟩⟩ := fresh
  · conv => rhs; rw [← whole]
    rw [List.nil_append, List.nil_append, List.append_assoc]
    exact (decoder.leading _ _ blank).symm
  · have earlier : Outside front := (outside_space rfl).mp outside
    have more : Blank ([lineFeed] ++ piece.takeWhile fun byte => byte = 0x20) :=
      List.forall_mem_append.mpr ⟨blank_feed, blank⟩
    have same := decoder.between front [lineFeed] _ (trim piece ++ rest) earlier blank_feed more (List.cons_ne_nil _ _)
      (List.cons_ne_nil _ _)
    conv => rhs; rw [← whole]
    simpa only [List.append_assoc] using same

/-- A line feed stands for the white space at a cut. -/
theorem seam_decode (decoder : Decoder decode) (outside : Outside (before ++ front)) (blank : Blank gap)
    (seam : Seam front gap rest) :
    decode (before ++ front ++ [lineFeed] ++ rest) = decode (before ++ front ++ gap ++ rest) := by
  by_cases none : gap = []
  · subst none
    obtain some | ⟨byte, last, space⟩ | ⟨byte, head, space⟩ := seam
    · exact absurd rfl some
    · obtain ⟨start, rfl⟩ : ∃ start, front = start ++ [byte] := ⟨_, (List.dropLast_append_getLast? byte last).symm⟩
      rw [← List.append_assoc] at outside
      have own : Blank [byte] := List.forall_mem_singleton.mpr space
      have both : Blank [byte, lineFeed] := List.forall_mem_cons.mpr ⟨space, blank_feed⟩
      have same := decoder.between (before ++ start) _ _ rest ((outside_space space).mp outside) both own
        (List.cons_ne_nil _ _) (List.cons_ne_nil _ _)
      simpa only [List.append_assoc, List.cons_append, List.nil_append] using same
    · obtain ⟨behind, rfl⟩ := List.head?_eq_some_iff.mp head
      have own : Blank [byte] := List.forall_mem_singleton.mpr space
      have both : Blank [lineFeed, byte] := List.forall_mem_cons.mpr ⟨rfl, own⟩
      have same := decoder.between (before ++ front) _ _ behind outside both own (List.cons_ne_nil _ _)
        (List.cons_ne_nil _ _)
      simpa only [List.append_assoc, List.cons_append, List.nil_append] using same
  · exact decoder.between _ _ _ rest outside blank_feed blank (List.cons_ne_nil _ _) none

theorem spread_some (spread : Spread text pieces) : pieces ≠ [] := by
  cases spread <;> exact List.cons_ne_nil _ _

theorem spread_decode (decoder : Decoder decode) (spread : Spread text pieces) (fresh : Fresh before) :
    decode (before ++ [lineFeed].intercalate (pieces.map trim)) = decode (before ++ text) := by
  induction spread generalizing before with
  | whole text =>
    have same := trim_decode decoder fresh text []
    rw [List.append_nil, List.append_nil] at same
    rw [List.map_singleton, List.intercalate_singleton, same]
  | @cut front gap rest pieces outside blank seam spread ih =>
    have within : Outside (before ++ front) := (outside_append fresh.1).mpr outside
    have next : Fresh (before ++ front ++ [lineFeed]) := ⟨(outside_space rfl).mpr within, .inr ⟨_, rfl⟩⟩
    have some : pieces.map trim ≠ [] := mt List.map_eq_nil_iff.mp (spread_some spread)
    calc decode (before ++ [lineFeed].intercalate ((front :: pieces).map trim))
        = decode (before ++ trim front ++ ([lineFeed] ++ [lineFeed].intercalate (pieces.map trim))) := by
          rw [List.map_cons, List.intercalate_cons_of_ne_nil some, List.append_assoc, List.append_assoc]
      _ = decode (before ++ front ++ ([lineFeed] ++ [lineFeed].intercalate (pieces.map trim))) :=
          trim_decode decoder fresh front _
      _ = decode (before ++ front ++ [lineFeed] ++ rest) := by rw [← List.append_assoc, ih next]
      _ = decode (before ++ front ++ gap ++ rest) := seam_decode decoder within blank seam
      _ = decode (before ++ (front ++ gap ++ rest)) := by simp only [List.append_assoc]

theorem payload_holds {line piece : Bytes} (holds : Holds line piece) : payload line = trim piece := by
  obtain ⟨spaces, rfl⟩ := holds
  rw [payload, List.drop_left]
  induction spaces with
  | zero => rfl
  | succ spaces ih => rw [List.replicate_succ, List.cons_append, List.dropWhile_cons_of_pos rfl, ih]

theorem payloads_hold (holds : List.Forall₂ Holds data pieces) : data.map payload = pieces.map trim := by
  induction holds with
  | nil => rfl
  | cons one _ ih => rw [List.map_cons, List.map_cons, payload_holds one, ih]

/-- The payloads of the data lines, joined, are read as the value. -/
theorem carries_decode (decoder : Decoder decode) {value : Option J} (carries : Carries decode data value) :
    decode ([lineFeed].intercalate (data.map payload)) = value := by
  cases value with
  | none =>
    obtain rfl : data = [] := carries
    exact decoder.empty
  | some value =>
    obtain ⟨text, pieces, read, spread, holds⟩ := carries
    have fresh : Fresh [] := ⟨rfl, .inl rfl⟩
    have same := spread_decode decoder spread fresh
    rw [List.nil_append, List.nil_append, read] at same
    rw [payloads_hold holds, same]

end Texts

/-! ## Lines of a stream -/

section Streams
variable {line : Line} {lines : List Line} {part tail : Bytes}

/-- The lines as they are once every line end is a line feed. -/
def fed (lines : List Line) : Bytes := lines.flatMap fun line => line.text ++ [lineFeed]

theorem no_return (line : Line) : carriageReturn ∉ line.text := fun member => (line.plain _ member).2 rfl

theorem no_feed (line : Line) : lineFeed ∉ line.text := fun member => (line.plain _ member).1 rfl

/-- What follows a carriage return in the stream is no line feed, unless it is the last byte. -/
theorem stream_head (byte : UInt8) (ending : line.ending = .cr) (apart : (line :: lines).IsChain Apart) (some : lines ≠ []) :
    ∃ first rest, first ≠ lineFeed ∧ stream lines ++ [byte] = first :: rest := by
  cases lines with
  | nil => exact absurd rfl some
  | cons next lines =>
    have separate := (List.isChain_cons_cons.mp apart).1 ending
    obtain ⟨text, end_, plain⟩ := next
    cases text with
    | nil =>
      have other : end_ ≠ .lf := separate rfl
      cases end_ with
      | lf => exact absurd rfl other
      | crlf => exact ⟨carriageReturn, _, by decide, rfl⟩
      | cr => exact ⟨carriageReturn, _, by decide, rfl⟩
    | cons first text => exact ⟨first, _, (plain first List.mem_cons_self).1, rfl⟩

theorem normalize_single (byte : UInt8) : normalizeNewlines [byte] = [byte] := by
  by_cases same : byte = carriageReturn
  · rw [same]
    rfl
  · exact normalize_plain same

theorem normalize_stream (apart : lines.IsChain Apart) (byte : UInt8) :
    ∃ last, (last = [] ∨ last = [byte]) ∧ normalizeNewlines (stream lines ++ [byte]) = fed lines ++ last := by
  induction lines with
  | nil =>
    exact ⟨[byte], .inr rfl, normalize_single byte⟩
  | cons line lines ih =>
    obtain ⟨last, one, rest⟩ := ih apart.of_cons
    have split : stream (line :: lines) ++ [byte] = line.text ++ (line.ending.bytes ++ (stream lines ++ [byte])) := by
      simp only [stream, Line.bytes, List.flatMap_cons, List.append_assoc]
    have whole : fed (line :: lines) ++ last = line.text ++ lineFeed :: (fed lines ++ last) := by
      simp only [fed, List.flatMap_cons, List.append_assoc, List.cons_append, List.nil_append]
    rw [split, normalize_front (no_return line)]
    cases ending : line.ending with
    | lf =>
      refine ⟨last, one, ?_⟩
      rw [whole, ← rest]
      exact congrArg _ (normalize_plain (by decide))
    | crlf =>
      refine ⟨last, one, ?_⟩
      rw [whole, ← rest]
      exact congrArg _ normalize_crlf
    | cr =>
      by_cases none : lines = []
      · subst none
        have single : fed [line] = line.text ++ [lineFeed] := List.flatMap_singleton _ line
        by_cases same : byte = lineFeed
        · refine ⟨[], .inl rfl, ?_⟩
          rw [same, single, List.append_nil]
          exact congrArg _ normalize_crlf
        · refine ⟨[byte], .inr rfl, ?_⟩
          rw [single, List.append_assoc]
          refine congrArg _ ((normalize_cr same).trans ?_)
          rw [normalize_single]
          rfl
      · obtain ⟨first, behind, other, head⟩ := stream_head byte ending apart none
        refine ⟨last, one, ?_⟩
        rw [whole, ← rest, head]
        exact congrArg _ (normalize_cr other)

theorem splitFrom_cons {byte : UInt8} (apart : ¬ (byte = lineFeed ∧ tail.head? = some lineFeed)) :
    splitFrom part (byte :: tail) = splitFrom (part ++ [byte]) tail := by
  cases tail with
  | nil => simp only [splitFrom, List.append_nil]
  | cons next tail =>
    rw [splitFrom, if_neg]
    exact fun both => apart ⟨both.1, congrArg some both.2⟩

theorem splitFrom_text {text : Bytes} (plain : lineFeed ∉ text) :
    splitFrom part (text ++ tail) = splitFrom (part ++ text) tail := by
  induction text generalizing part with
  | nil => rw [List.nil_append, List.append_nil]
  | cons byte text ih =>
    obtain ⟨other, rest⟩ := not_or.mp (mt List.mem_cons.mpr plain)
    rw [List.cons_append, splitFrom_cons fun both => other both.1.symm, ih rest, List.append_assoc]
    rfl

/-- A line of some text starts with no line feed. -/
theorem fed_head (filled : ∀ line ∈ lines, line.text ≠ []) (some : lines ≠ []) :
    (fed lines ++ tail).head? ≠ .some lineFeed := by
  cases lines with
  | nil => exact absurd rfl some
  | cons line lines =>
    obtain ⟨text, ending, plain⟩ := line
    cases text with
    | nil => exact absurd rfl (filled _ List.mem_cons_self)
    | cons byte text => exact fun same => (plain byte List.mem_cons_self).1 (Option.some.inj same)

theorem splitFrom_lines (filled : ∀ line ∈ lines, line.text ≠ []) (some : lines ≠ []) :
    splitFrom part (fed lines ++ lineFeed :: tail) =
      (part ++ [lineFeed].intercalate (lines.map Line.text)) :: splitBreaks tail := by
  induction lines generalizing part with
  | nil => exact absurd rfl some
  | cons line lines ih =>
    have split : fed (line :: lines) ++ lineFeed :: tail = line.text ++ lineFeed :: (fed lines ++ lineFeed :: tail) := by
      simp only [fed, List.flatMap_cons, List.append_assoc, List.cons_append, List.nil_append]
    obtain ⟨-, others⟩ := List.forall_mem_cons.mp filled
    rw [split, splitFrom_text (no_feed line)]
    by_cases none : lines = []
    · subst none
      rw [List.map_singleton, List.intercalate_singleton]
      exact if_pos ⟨rfl, rfl⟩
    · rw [splitFrom_cons fun both => fed_head others none both.2, ih others none, List.map_cons,
        List.intercalate_cons_of_ne_nil (mt List.map_eq_nil_iff.mp none)]
      simp only [List.append_assoc]

end Streams

/-! ## Events of a stream -/

section Events
variable {J : Type} {decode : Bytes → Option J} {raws : List Bytes} {tail : Bytes}

theorem splitBreaks_some (text : Bytes) : splitBreaks text ≠ [] := by
  obtain ⟨events, rest, split, -, -⟩ := splitBreaks_joined text
  rw [split]
  exact List.append_ne_nil_of_right_ne_nil _ (List.cons_ne_nil _ _)

theorem splitBreaks_break (text : Bytes) : splitBreaks (lineFeed :: lineFeed :: text) = [] :: splitBreaks text := by
  rw [splitBreaks, splitFrom, if_pos ⟨rfl, rfl⟩]
  rfl

/-- A raw event may start with the line feed of a further blank line. -/
def Lead (lead : Bytes) : Prop := lead = [] ∨ lead = [lineFeed]

theorem dataOf_lines {lead : Bytes} (leads : Lead lead) {texts : List Bytes} (plain : ∀ text ∈ texts, lineFeed ∉ text)
    (some : texts ≠ []) : dataOf (lead ++ [lineFeed].intercalate texts) =
      [lineFeed].intercalate ((texts.filter isData).map payload) := by
  obtain rfl | rfl := leads
  · rw [List.nil_append, dataOf, List.splitOn_intercalate _ plain some]
  · have more : [lineFeed] ++ [lineFeed].intercalate texts = [lineFeed].intercalate ([] :: texts) := by
      rw [List.intercalate_cons_of_ne_nil some, List.nil_append]
    have free : ∀ text ∈ [] :: texts, lineFeed ∉ text := List.forall_mem_cons.mpr ⟨List.not_mem_nil, plain⟩
    rw [more, dataOf, List.splitOn_intercalate _ free (List.cons_ne_nil _ _)]
    rfl

theorem dataOf_nil : dataOf [] = [] := rfl

theorem carries_none {value : Option J} (carries : Carries decode [] value) : value = none := by
  cases value with
  | none => rfl
  | some value =>
    obtain ⟨text, pieces, -, spread, holds⟩ := carries
    cases holds
    exact absurd rfl (spread_some spread)

theorem decodeEvents_cons (raw : Bytes) (text : Bytes) : decodeEvents decode ((raw :: splitBreaks text).dropLast) =
    (decode (dataOf raw)).toList ++ decodeEvents decode (splitBreaks text).dropLast := by
  rw [List.dropLast_cons_of_ne_nil (splitBreaks_some text), decodeEvents, List.flatMap_cons]
  rfl

/-- The last byte ends no event that holds anything. -/
theorem decode_last (decoder : Decoder decode) {lead last : Bytes} (leads : Lead lead) {byte : UInt8}
    (one : last = [] ∨ last = [byte]) : decodeEvents decode (splitBreaks (lead ++ last)).dropLast = [] := by
  have single (byte : UInt8) : splitBreaks [byte] = [[byte]] := rfl
  obtain rfl | rfl := leads
  · obtain rfl | rfl := one <;> rfl
  · obtain rfl | rfl := one
    · rfl
    · by_cases same : byte = lineFeed
      · have split : splitBreaks ([lineFeed] ++ [byte]) = [] :: splitBreaks [] := if_pos ⟨rfl, same⟩
        rw [split, decodeEvents_cons, dataOf_nil, decoder.empty]
        rfl
      · have split : splitBreaks ([lineFeed] ++ [byte]) = [[lineFeed] ++ [byte]] := if_neg fun both => same both.2
        rw [split]
        rfl

theorem fed_append (first second : List Line) : fed (first ++ second) = fed first ++ fed second := List.flatMap_append

theorem decode_events (decoder : Decoder decode) (events : List (Event decode)) {last : Bytes} {byte : UInt8}
    (one : last = [] ∨ last = [byte]) {lead : Bytes} (leads : Lead lead) :
    decodeEvents decode (splitBreaks (lead ++ (fed (events.flatMap Event.all) ++ last))).dropLast =
      events.filterMap Event.value := by
  induction events generalizing lead with
  | nil => exact decode_last decoder leads one
  | cons event events ih =>
    have whole : fed ((event :: events).flatMap Event.all) ++ last =
        fed event.lines ++ lineFeed :: (fed (events.flatMap Event.all) ++ last) := by
      rw [List.flatMap_cons, fed_append, Event.all, fed_append, List.append_assoc, List.append_assoc]
      rfl
    have rest := ih (.inl rfl)
    rw [List.nil_append] at rest
    rw [whole]
    by_cases none : event.lines = []
    · have carries := event.carries
      rw [none] at carries ⊢
      rw [List.filterMap_cons_none (carries_none carries)]
      obtain rfl | rfl := leads
      · exact ih (.inr rfl)
      · have split : splitBreaks ([lineFeed] ++ (fed [] ++ lineFeed :: (fed (events.flatMap Event.all) ++ last))) =
            [] :: splitBreaks (fed (events.flatMap Event.all) ++ last) := splitBreaks_break _
        rw [split, decodeEvents_cons, dataOf_nil, decoder.empty, rest]
        rfl
    · have split : splitBreaks (lead ++ (fed event.lines ++ lineFeed :: (fed (events.flatMap Event.all) ++ last))) =
          (lead ++ [lineFeed].intercalate (event.lines.map Line.text)) ::
            splitBreaks (fed (events.flatMap Event.all) ++ last) := by
        obtain rfl | rfl := leads
        · exact splitFrom_lines event.filled none
        · rw [splitBreaks, List.singleton_append, splitFrom_cons fun both => fed_head event.filled none both.2]
          exact splitFrom_lines event.filled none
      have plain : ∀ text ∈ event.lines.map Line.text, lineFeed ∉ text := List.forall_mem_map.mpr fun line _ => no_feed line
      rw [split, decodeEvents_cons, rest, dataOf_lines leads plain (mt List.map_eq_nil_iff.mp none),
        carries_decode decoder event.carries]
      cases value : event.value with
      | none => rw [List.filterMap_cons_none value]; rfl
      | some value => rw [List.filterMap_cons_some value]; rfl

/-- The values written, whatever byte follows. -/
theorem feed_stream (decoder : Decoder decode) (events : List (Event decode))
    (apart : (events.flatMap Event.all).IsChain Apart) (byte : UInt8) :
    (feed decode {} (stream (events.flatMap Event.all) ++ [byte])).1 = events.filterMap Event.value := by
  obtain ⟨last, one, same⟩ := normalize_stream apart byte
  show decodeEvents decode (splitBreaks (normalizeNewlines ([] ++ (stream (events.flatMap Event.all) ++ [byte])))).dropLast = _
  rw [List.nil_append, same]
  exact decode_events decoder events one (.inl rfl)

end Events

/-- Chunks are read as one, and a stream of events as the values in it. -/
theorem client_reads {J : Type} (decode : Bytes → Option J) :
    (∀ chunks, feedAll decode {} chunks = feed decode {} chunks.flatten) ∧
      (Decoder decode → ∀ events : List (Event decode), (events.flatMap Event.all).IsChain Apart → ∀ byte,
        (feed decode {} (stream (events.flatMap Event.all) ++ [byte])).1 = events.filterMap Event.value) :=
  ⟨feedAll_flatten, fun decoder events apart byte => feed_stream decoder events apart byte⟩

/-- It knows one text of JSON. -/
def readOne (text : Bytes) : Option Nat := if text.filter (fun byte => ! isSpace byte) = utf8 "1" then some 1 else none

theorem readOne_decoder : Decoder readOne := by
  have blank {gap : Bytes} (spaces : Blank gap) : gap.filter (fun byte => ! isSpace byte) = [] :=
    List.filter_eq_nil_iff.mpr fun byte member => by rw [spaces byte member]; nofun
  refine ⟨rfl, fun gap rest spaces => ?_, fun before gap other rest _ spaces others _ _ => ?_⟩
  · rw [readOne, List.filter_append, blank spaces, List.nil_append, readOne]
  · rw [readOne, readOne, List.filter_append, List.filter_append, blank spaces, List.filter_append, List.filter_append,
      blank others]

theorem plain_of_all {text : Bytes} (all : text.all (fun byte => byte ≠ lineFeed && byte ≠ carriageReturn) = true) :
    ∀ byte ∈ text, byte ≠ lineFeed ∧ byte ≠ carriageReturn := by
  intro byte member
  have own := List.all_eq_true.mp all byte member
  rw [Bool.and_eq_true, decide_eq_true_eq, decide_eq_true_eq] at own
  exact own

/-- A comment that a carriage return ends, and a data line. -/
def oneEvent : Event readOne where
  lines := [⟨utf8 ": one", .cr, plain_of_all rfl⟩, ⟨utf8 "data: 1", .lf, plain_of_all rfl⟩]
  filled := by decide
  blank := .crlf
  value := some 1
  carries := ⟨utf8 "1", [utf8 "1"], rfl, .whole _, .cons ⟨1, rfl⟩ .nil⟩

theorem client_reads_one : (feed readOne {} (stream oneEvent.all ++ [0x3A])).1 = [1] :=
  (client_reads readOne).2 readOne_decoder [oneEvent] (by decide) 0x3A

end AshA2A.Protocol.ClientSSE
