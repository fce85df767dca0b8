import AshA2A.Semantic.LogicClosure.Tokenizer
import Mathlib.Data.List.Find

/-! The tokens of a document do not change when a line is written behind it. -/

namespace AshA2A.Semantic.LogicClosure.RuleDocument
open Scan

variable {doc rest more : Bytes} {acc after : List Token} {start keep : UInt8 → Bool} {text : String} {quote : UInt8}

/-! ## Characters -/

namespace Utf8

theorem following_shorter {count : Nat} (read : following count doc = some rest) : rest.length ≤ doc.length := by
  induction count generalizing doc with
  | zero => cases read; exact le_refl _
  | succ count ih =>
    cases doc with
    | nil => cases read
    | cons byte doc =>
      rw [following] at read
      split at read
      · exact Nat.le_succ_of_le (ih read)
      · cases read

theorem following_append {count : Nat} (read : following count doc = some rest) (more : Bytes) :
    following count (doc ++ more) = some (rest ++ more) := by
  induction count generalizing doc with
  | zero => cases read; rfl
  | succ count ih =>
    cases doc with
    | nil => cases read
    | cons byte doc =>
      rw [following] at read
      rw [List.cons_append, following]
      split at read
      case isTrue continues => rw [if_pos continues]; exact ih read
      case isFalse => cases read

theorem char_shorter (read : char doc = some rest) : rest.length < doc.length := by
  cases doc with
  | nil => cases read
  | cons byte doc =>
    simp only [char] at read
    split at read
    · cases read; exact Nat.lt_succ_self _
    · split at read
      · exact Nat.lt_succ_of_le (Nat.le_succ_of_le (following_shorter read))
      · cases read
    · cases read

theorem char_append (read : char doc = some rest) (more : Bytes) : char (doc ++ more) = some (rest ++ more) := by
  cases doc with
  | nil => cases read
  | cons byte doc =>
    simp only [char] at read
    split at read
    case h_1 one => cases read; simp only [List.cons_append, char, one]
    case h_2 many =>
      split at read
      case isTrue valid =>
        simp only [List.cons_append, char, many, valid, if_true]
        exact following_append read more
      case isFalse => cases read
    case h_3 => cases read

theorem char_ascii {byte : UInt8} (ascii : byte < 0x80) (rest : Bytes) : char (byte :: rest) = some rest := by
  have one : width byte = 1 := if_pos ascii
  simp only [char, one]

end Utf8

/-! ## Starts -/

theorem isPrefixOf_stop {words items : Bytes} {item : UInt8} (outside : item ∉ words) :
    words.isPrefixOf (items ++ item :: more) = words.isPrefixOf items := by
  induction words generalizing items with
  | nil => simp
  | cons word words ih =>
    obtain ⟨other, outside⟩ := not_or.mp (mt List.mem_cons.mpr outside)
    cases items with
    | nil => simp [List.isPrefixOf, beq_eq_false_iff_ne.mpr (Ne.symm other)]
    | cons first items => simp only [List.cons_append, List.isPrefixOf, ih outside]

theorem startsWith_line (outside : 0x0a ∉ utf8 text) : startsWith text (doc ++ 0x0a :: more) = startsWith text doc :=
  isPrefixOf_stop outside

theorem firstIs_line (outside : keep 0x0a = false) : firstIs keep (doc ++ 0x0a :: more) = firstIs keep doc := by
  cases doc with
  | nil => simp [firstIs, outside]
  | cons byte doc => rfl

theorem firstIs_append (nonempty : doc ≠ []) : firstIs keep (doc ++ more) = firstIs keep doc := by
  cases doc with
  | nil => exact absurd rfl nonempty
  | cons byte doc => rfl

theorem tail_append (nonempty : doc ≠ []) : (doc ++ more).tail = doc.tail ++ more := by
  cases doc with
  | nil => exact absurd rfl nonempty
  | cons byte doc => rfl

theorem ne_nil_of_startsWith (starts : startsWith text doc = true) (some_ : utf8 text ≠ []) : doc ≠ [] := by
  rintro rfl
  cases given : utf8 text with
  | nil => exact some_ given
  | cons => simp [startsWith, given] at starts

theorem startsWith_length (starts : startsWith text doc = true) : (utf8 text).length ≤ doc.length :=
  (List.isPrefixOf_iff_prefix.mp starts).length_le

theorem ne_nil_of_firstIs (first : firstIs keep doc = true) : doc ≠ [] := by
  rintro rfl
  cases first

/-! ## Strings -/

/-- A quote is neither a backslash nor a line feed. -/
def IsQuote (quote : UInt8) : Prop := quote = 0x22 ∨ quote = 0x27

theorem stringTurn_consuming : Consuming (stringTurn quote) := by
  intro doc state rest after taken
  rw [stringTurn] at taken
  split at taken
  case h_1 rest escaped =>
    cases taken
    split at escaped
    case isTrue starts =>
      have shorter := Utf8.char_shorter escaped
      rw [List.length_tail] at shorter
      omega
    case isFalse => cases escaped
  case h_2 =>
    split at taken
    · cases taken
    · split at taken
      · cases taken
      · split at taken
        case h_1 rest read => cases taken; exact Utf8.char_shorter read
        case h_2 => cases taken

theorem firstIs_iff {first : UInt8} : firstIs (· = first) doc = true ↔ ∃ rest, doc = first :: rest := by
  cases doc with
  | nil => simp [firstIs]
  | cons byte doc => simp [firstIs]

theorem startsWith_byte {first : UInt8} (spelled : utf8 text = [first]) :
    startsWith text doc = true ↔ ∃ rest, doc = first :: rest := by
  rw [startsWith, spelled]
  cases doc with
  | nil => simp
  | cons byte doc =>
    simp only [List.isPrefixOf, Bool.and_true, beq_iff_eq, List.cons.injEq, exists_and_left, exists_eq', and_true]
    exact eq_comm

theorem startsWith_append {first : UInt8} (nonempty : doc ≠ []) (spelled : utf8 text = [first]) (more : Bytes) :
    startsWith text (doc ++ more) = startsWith text doc := by
  obtain ⟨byte, tail, rfl⟩ := List.exists_cons_of_ne_nil nonempty
  simp [startsWith, spelled, List.isPrefixOf]

theorem stringTurn_quote (isQuote : IsQuote quote) : stringTurn quote (quote :: rest) () = .stop (some rest) := by
  have plain : startsWith "\\" (quote :: rest) = false := by
    rcases isQuote with rfl | rfl <;> rfl
  simp [stringTurn, plain, firstIs]

/-- A character that is not one ends the scan. -/
theorem stringTurn_broken (isQuote : IsQuote quote) (broken : Utf8.char doc = none) :
    stringTurn quote doc () = .stop none := by
  have free : ∀ first : UInt8, first < 0x80 → ¬ ∃ rest, doc = first :: rest := by
    rintro first ascii ⟨rest, rfl⟩
    cases (Utf8.char_ascii ascii rest).symm.trans broken
  have backslash : ¬ startsWith "\\" doc = true := mt (startsWith_byte rfl).mp (free 0x5c (by decide))
  have closing : ¬ firstIs (· = quote) doc = true :=
    mt firstIs_iff.mp (free quote (by rcases isQuote with rfl | rfl <;> decide))
  have newline : ¬ startsWith "\n" doc = true := mt (startsWith_byte rfl).mp (free 0x0a (by decide))
  simp only [stringTurn, if_neg backslash, if_neg closing, if_neg newline, broken]

/-- What a scanned character leaves is the same when more follows, unless the scan is lost. -/
theorem stringTurn_append (isQuote : IsQuote quote) (taken : stringTurn quote doc () = .next rest ())
    (sound : stringTurn quote rest () ≠ .stop none) (more : Bytes) :
    stringTurn quote (doc ++ more) () = .next (rest ++ more) () := by
  have nonempty : doc ≠ [] := by
    rintro rfl
    have shorter := stringTurn_consuming taken
    simp at shorter
  have backslashes := startsWith_append nonempty (rfl : utf8 "\\" = [0x5c]) more
  have newlines := startsWith_append nonempty (rfl : utf8 "\n" = [0x0a]) more
  rw [stringTurn] at taken
  split at taken
  case h_1 rest escaped =>
    cases taken
    split at escaped
    case isTrue backslash =>
      simp only [stringTurn, backslashes, backslash, if_true, tail_append nonempty, Utf8.char_append escaped]
    case isFalse => cases escaped
  case h_2 unescaped =>
    split at taken
    case isTrue => cases taken
    case isFalse open_ =>
      split at taken
      case isTrue => cases taken
      case isFalse line =>
        split at taken
        case h_2 => cases taken
        case h_1 rest read =>
          cases taken
          by_cases backslash : startsWith "\\" doc = true
          · -- the character behind the backslash is broken, and is what the scan meets next
            rw [if_pos backslash] at unescaped
            obtain ⟨tail, rfl⟩ := (startsWith_byte rfl).mp backslash
            cases (Utf8.char_ascii (by decide) tail).symm.trans read
            exact absurd (stringTurn_broken isQuote unescaped) sound
          · simp only [stringTurn, backslashes, newlines, if_neg backslash, firstIs_append nonempty, if_neg open_,
              if_neg line, Utf8.char_append read]

theorem stringTurn_stop {state : Unit} (stopped : stringTurn quote doc state = .stop (some rest)) : doc = quote :: rest := by
  rw [stringTurn] at stopped
  split at stopped
  case h_1 => cases stopped
  case h_2 =>
    split at stopped
    case isTrue closing =>
      obtain ⟨tail, rfl⟩ := firstIs_iff.mp closing
      cases stopped
      rfl
    case isFalse =>
      split at stopped
      · cases stopped
      · split at stopped <;> cases stopped

theorem scan_steps (scanned : scanString quote doc = some rest) :
    Steps (stringTurn quote) doc () (quote :: rest) () := by
  obtain ⟨last, final, steps, stopped⟩ := run_steps (Option.join_eq_some_iff.mp scanned)
  obtain rfl := stringTurn_stop stopped
  exact steps

theorem scanString_append (isQuote : IsQuote quote) (scanned : scanString quote doc = some rest) (more : Bytes) :
    scanString quote (doc ++ more) = some (rest ++ more) := by
  suffices appends : ∀ last state final, Steps (stringTurn quote) doc state last final → last = quote :: rest →
      run (stringTurn quote) (doc ++ more) state = some (some (rest ++ more)) by
    rw [scanString, appends _ _ _ (scan_steps scanned) rfl]
    rfl
  clear scanned
  intro last state final steps ends
  induction steps with
  | refl => exact ends ▸ run_stop (stringTurn_quote isQuote)
  | step taken steps ih =>
    refine (run_next stringTurn_consuming (stringTurn_append isQuote taken ?_ more)).trans (ih ends)
    intro broken
    cases steps with
    | refl => cases broken.symm.trans (ends ▸ stringTurn_quote isQuote)
    | step further _ => cases broken.symm.trans further

theorem scanString_shorter (scanned : scanString quote doc = some rest) : rest.length < doc.length := by
  suffices shorter : ∀ last state final, Steps (stringTurn quote) doc state last final → last.length ≤ doc.length from
    shorter _ _ _ (scan_steps scanned)
  clear scanned
  intro last state final steps
  induction steps with
  | refl => exact le_refl _
  | step taken _ ih => exact ih.trans (stringTurn_consuming taken).le

/-! ## Regular expressions

None of them reads beyond the end of a line, and what they hold stands at the start of the document. -/

theorem nameRe_line (starts : start 0x0a = false) (keeps : keep 0x0a = false) :
    nameRe start keep (doc ++ 0x0a :: more) = nameRe start keep doc := by
  rw [nameRe, nameRe, firstIs_line starts, takeWhile_stop keeps]

theorem nameRe_start {name : Bytes} (read : nameRe start keep doc = some name) : name <+: doc := by
  rw [nameRe] at read
  split at read
  · cases read; exact List.takeWhile_prefix _
  · cases read

theorem dottedRe_line (starts : start 0x0a = false) (keeps : keep 0x0a = false) :
    dottedRe start keep (doc ++ 0x0a :: more) = dottedRe start keep doc := by
  rw [dottedRe, dottedRe, nameRe_line starts (by simp [keeps]; decide)]

theorem dottedRe_start {name : Bytes} (read : dottedRe start keep doc = some name) : name <+: doc := by
  obtain ⟨whole, named, rfl⟩ := Option.map_eq_some_iff.mp read
  exact (List.rdropWhile_prefix _ _).trans (nameRe_start named)

theorem append_start {first second : Bytes} (start : first <+: doc) (next : second <+: doc.drop first.length) :
    first ++ second <+: doc := by
  obtain ⟨rest, rfl⟩ := start
  rw [List.drop_left] at next
  exact (List.prefix_append_right_inj first).mpr next

theorem getD_start {found : Option Bytes} (start : ∀ name, found = some name → name <+: doc) : found.getD [] <+: doc := by
  cases found with
  | none => exact List.nil_prefix
  | some name => exact start name rfl

theorem iriRe_line (nonempty : doc ≠ []) : iriRe (doc ++ 0x0a :: more) = iriRe doc := by
  simp only [iriRe, tail_append nonempty, takeWhile_stop (by decide : isIri 0x0a = false),
    drop_taken (List.takeWhile_prefix _), startsWith_line (by decide : 0x0a ∉ utf8 ">")]

theorem iriRe_fits {name : Bytes} (nonempty : doc ≠ []) (read : iriRe doc = some name) :
    name.length + 2 ≤ doc.length := by
  obtain ⟨byte, doc, rfl⟩ := List.exists_cons_of_ne_nil nonempty
  obtain ⟨closed, same⟩ := Option.ite_none_right_eq_some.mp read
  cases same
  have one := startsWith_length closed
  have size : (utf8 ">").length = 1 := rfl
  rw [List.length_drop, List.tail_cons] at one
  rw [List.tail_cons, List.length_cons]
  omega

theorem varRe_line (nonempty : doc ≠ []) : varRe (doc ++ 0x0a :: more) = varRe doc := by
  rw [varRe, varRe, tail_append nonempty, nameRe_line (by decide) (by decide)]

theorem varRe_fits {name : Bytes} (nonempty : doc ≠ []) (read : varRe doc = some name) :
    name.length + 1 ≤ doc.length := by
  obtain ⟨byte, doc, rfl⟩ := List.exists_cons_of_ne_nil nonempty
  exact Nat.succ_le_succ (nameRe_start read).length_le

theorem bnodeRe_line (long : 2 ≤ doc.length) : bnodeRe (doc ++ 0x0a :: more) = bnodeRe doc := by
  rw [bnodeRe, bnodeRe, List.drop_append_of_le_length long, dottedRe_line (by decide) (by decide)]

theorem bnodeRe_fits {name : Bytes} (long : 2 ≤ doc.length) (read : bnodeRe doc = some name) :
    name.length + 2 ≤ doc.length := by
  have fits := (dottedRe_start read).length_le
  rw [List.length_drop] at fits
  omega

theorem wordRe_line : wordRe (doc ++ 0x0a :: more) = wordRe doc := nameRe_line (by decide) (by decide)

theorem pnameRe_line : pnameRe (doc ++ 0x0a :: more) = pnameRe doc := by
  have label : ((dottedRe isLetter isWord doc).getD []) <+: doc := getD_start fun _ => dottedRe_start
  simp only [pnameRe, dottedRe_line (by decide : isLetter 0x0a = false) (by decide : isWord 0x0a = false),
    drop_taken label, startsWith_line (by decide : 0x0a ∉ utf8 ":")]
  split
  case isTrue colon =>
    rw [tail_append (ne_nil_of_startsWith colon (by decide)), dottedRe_line (by decide) (by decide)]
  case isFalse => rfl

theorem pnameRe_fits {label name : Bytes} (read : pnameRe doc = some (label, name)) :
    label.length + 1 + name.length ≤ doc.length := by
  have start : ((dottedRe isLetter isWord doc).getD []) <+: doc := getD_start fun _ => dottedRe_start
  simp only [pnameRe] at read
  split at read
  case isTrue colon =>
    cases read
    obtain ⟨rest, whole⟩ := start
    generalize (dottedRe isLetter isWord doc).getD [] = label at *
    subst whole
    rw [List.drop_left] at colon ⊢
    obtain ⟨tail, rfl⟩ := (startsWith_byte rfl).mp colon
    have fits := (getD_start fun name (read : dottedRe (fun byte => isWordStart byte || isOneOf ":%" byte)
      (fun byte => isWord byte || isOneOf ":%" byte) tail = some name) => dottedRe_start read).length_le
    simp only [List.tail_cons, List.length_append, List.length_cons]
    omega
  case isFalse => cases read

theorem signRe_line : signRe (doc ++ 0x0a :: more) = signRe doc := by
  rw [signRe, signRe, firstIs_line (by decide)]
  split
  case isTrue sign =>
    obtain ⟨byte, doc, rfl⟩ := List.exists_cons_of_ne_nil (ne_nil_of_firstIs sign)
    rfl
  case isFalse => rfl

theorem signRe_start : signRe doc <+: doc := by
  rw [signRe]
  split
  · exact List.take_prefix _ _
  · exact List.nil_prefix

theorem fractionRe_line : fractionRe (doc ++ 0x0a :: more) = fractionRe doc := by
  cases doc with
  | nil => rw [List.nil_append, fractionRe, fractionRe, startsWith, startsWith]; rfl
  | cons byte doc =>
    have starts : startsWith "." (byte :: (doc ++ 0x0a :: more)) = startsWith "." (byte :: doc) :=
      @startsWith_line (byte :: doc) more "." (by decide)
    simp only [fractionRe, List.cons_append, starts, List.tail_cons, firstIs_line (by decide : isDigit 0x0a = false),
      takeWhile_stop (by decide : isDigit 0x0a = false), List.take_succ_cons, List.take_zero]
    rfl

theorem fractionRe_start : fractionRe doc <+: doc := by
  rw [fractionRe]
  split
  case isTrue both =>
    rw [Bool.and_eq_true] at both
    obtain ⟨rest, rfl⟩ := (startsWith_byte rfl).mp both.1
    exact (List.prefix_cons_inj _).mpr (List.takeWhile_prefix _)
  case isFalse => exact List.nil_prefix

theorem exponentRe_line : exponentRe (doc ++ 0x0a :: more) = exponentRe doc := by
  rw [exponentRe, exponentRe, firstIs_line (by decide)]
  split
  case isTrue first =>
    obtain ⟨byte, doc, rfl⟩ := List.exists_cons_of_ne_nil (ne_nil_of_firstIs first)
    simp only [List.cons_append, List.tail_cons, signRe_line, drop_taken signRe_start,
      takeWhile_stop (by decide : isDigit 0x0a = false), List.take_succ_cons, List.take_zero]
    rfl
  case isFalse => rfl

theorem exponentRe_start : exponentRe doc <+: doc := by
  rw [exponentRe]
  split
  case isTrue first =>
    obtain ⟨byte, doc, rfl⟩ := List.exists_cons_of_ne_nil (ne_nil_of_firstIs first)
    dsimp only
    split
    · exact List.nil_prefix
    · exact (List.prefix_cons_inj _).mpr (append_start signRe_start (List.takeWhile_prefix _))
  case isFalse => exact List.nil_prefix

theorem numberRe_line : numberRe (doc ++ 0x0a :: more) = numberRe doc := by
  have digits : ∀ {rest : Bytes}, (rest.takeWhile isDigit) <+: rest := List.takeWhile_prefix _
  simp only [numberRe, signRe_line, drop_taken signRe_start, takeWhile_stop (by decide : isDigit 0x0a = false),
    drop_taken digits, fractionRe_line, drop_taken fractionRe_start, exponentRe_line]

theorem numberRe_start {whole : Bytes} (read : numberRe doc = some whole) : whole <+: doc := by
  simp only [numberRe] at read
  split at read
  · cases read
  · cases read
    refine append_start (append_start (append_start signRe_start (List.takeWhile_prefix _)) ?_) ?_
    · rw [List.length_append, ← List.drop_drop]
      exact fractionRe_start
    · rw [List.length_append, List.length_append, ← List.drop_drop, ← List.drop_drop]
      exact exponentRe_start

theorem numberRe_length {whole : Bytes} (read : numberRe doc = some whole) : 0 < whole.length := by
  simp only [numberRe] at read
  split at read
  case isTrue => cases read
  case isFalse some_ =>
    cases read
    rw [List.length_pos_iff]
    intro empty
    simp only [List.append_eq_nil_iff] at empty
    exact some_ ⟨empty.1.1.2, empty.1.2⟩

/-! ## Turns -/

/-- A turn takes something or refuses, and it takes the same where a line follows: it only raises, or it takes the end
of the line with it. -/
structure Keeps (doc more : Bytes) (short long : Reading) : Prop where
  refuses : ∀ {tokens}, short ≠ .stop (.ok tokens)
  shorter : ∀ {rest after}, short = .next rest after → rest.length < doc.length
  kept : ∀ {rest after}, short = .next rest after →
    long = .raise ∨ long = .next (rest ++ 0x0a :: more) after ∨ rest = [] ∧ long = .next more after

namespace Keeps
variable {short long : Reading}

theorem stop {reason : Reason} : Keeps doc more (.stop (unclassifiable reason)) long := ⟨nofun, nofun, nofun⟩

theorem skip {whole : Nat} {token : Token} (positive : 0 < whole) (fits : whole ≤ doc.length) :
    Keeps doc more (skip doc whole token acc) (skip (doc ++ 0x0a :: more) whole token acc) where
  refuses := nofun
  shorter taken := by
    cases taken
    rw [List.length_drop]
    omega
  kept taken := by
    cases taken
    exact .inr (.inl (by rw [RuleDocument.skip, List.drop_append_of_le_length fits]))

theorem next (shorter : rest.length < doc.length) :
    Keeps doc more (.next rest acc) (.next (rest ++ 0x0a :: more) acc) where
  refuses := nofun
  shorter taken := by cases taken; exact shorter
  kept taken := by cases taken; exact .inr (.inl rfl)

theorem unicode {subject line : Bytes} (keeps : Keeps doc more short long) :
    Keeps doc more (unicode subject short) (unicode line long) := by
  rw [RuleDocument.unicode, RuleDocument.unicode]
  refine ⟨fun accepted => ?_, fun taken => ?_, fun taken => ?_⟩
  · split at accepted
    · exact keeps.refuses accepted
    · cases accepted
  · split at taken
    · exact keeps.shorter taken
    · cases taken
  · split at taken
    · split
      · exact keeps.kept taken
      · exact .inl rfl
    · cases taken

end Keeps

theorem comment_keeps (shorter : rest.length < doc.length) :
    Keeps doc more (commentTurn rest acc) (commentTurn (rest ++ 0x0a :: more) acc) := by
  rw [commentTurn, commentTurn]
  cases found : behind (utf8 "\n") rest with
  | some after =>
    rw [behind_append found]
    exact .next ((behind_shorter (by decide) found).trans shorter)
  | none =>
    have ended : behind (utf8 "\n") (rest ++ 0x0a :: more) = some more := by
      clear shorter
      induction rest with
      | nil => rfl
      | cons byte rest ih =>
        rw [behind] at found
        split at found
        case isTrue => cases found
        case isFalse other =>
          have away : ¬ utf8 "\n" <+: byte :: (rest ++ 0x0a :: more) := by
            rintro ⟨tail, same⟩
            exact other ⟨rest, congrArg (· :: rest) (List.cons.inj same).1⟩
          rw [List.cons_append, behind, if_neg away]
          exact ih found
    rw [ended]
    refine ⟨by simp, fun taken => ?_, fun taken => ?_⟩
    · cases taken
      exact Nat.zero_lt_of_lt shorter
    · cases taken
      exact .inr (.inr ⟨rfl, rfl⟩)

theorem longString_keeps {delimiter : String} (nonempty : utf8 delimiter ≠ []) (shorter : rest.length < doc.length) :
    Keeps doc more (longString rest delimiter acc) (longString (rest ++ 0x0a :: more) delimiter acc) := by
  rw [longString, longString]
  cases found : behind (utf8 delimiter) rest with
  | some after =>
    rw [behind_append found]
    exact .next ((behind_shorter nonempty found).trans shorter)
  | none => exact .stop

theorem shortString_keeps (isQuote : IsQuote quote) (shorter : rest.length < doc.length) :
    Keeps doc more (shortString quote rest acc) (shortString quote (rest ++ 0x0a :: more) acc) := by
  rw [shortString, shortString]
  cases scanned : scanString quote rest with
  | some after =>
    rw [scanString_append isQuote scanned]
    exact .next ((scanString_shorter scanned).trans shorter)
  | none => exact .stop

theorem iriTurn_keeps (nonempty : doc ≠ []) : Keeps doc more (iriTurn doc acc) (iriTurn (doc ++ 0x0a :: more) acc) := by
  refine .unicode ?_
  rw [iriRe_line nonempty]
  cases read : iriRe doc with
  | none => exact .stop
  | some iri =>
    dsimp only
    split
    · exact .skip (by omega) (iriRe_fits nonempty read)
    · exact .stop

theorem directive_keeps {word : Bytes} (shorter : rest.length < doc.length) :
    Keeps doc more (directive word rest acc) (directive word (rest ++ 0x0a :: more) acc) := by
  rw [directive, directive]
  split
  · exact .next shorter
  · split
    · exact .next shorter
    · exact .stop

theorem atTurn_keeps (nonempty : doc ≠ []) : Keeps doc more (atTurn doc acc) (atTurn (doc ++ 0x0a :: more) acc) := by
  obtain ⟨byte, doc, rfl⟩ := List.exists_cons_of_ne_nil nonempty
  refine .unicode ?_
  rw [List.cons_append, List.tail_cons, List.tail_cons, wordRe_line]
  cases read : wordRe doc with
  | none => exact .stop
  | some word =>
    have fits := (nameRe_start read).length_le
    dsimp only
    rw [List.drop_succ_cons, List.drop_succ_cons, List.drop_append_of_le_length fits]
    refine directive_keeps ?_
    rw [List.length_drop, List.length_cons]
    omega

theorem varTurn_keeps (nonempty : doc ≠ []) : Keeps doc more (varTurn doc acc) (varTurn (doc ++ 0x0a :: more) acc) := by
  refine .unicode ?_
  rw [varRe_line nonempty]
  cases read : varRe doc with
  | none => exact .stop
  | some name => exact .skip (by omega) (varRe_fits nonempty read)

theorem bnodeTurn_keeps (long : 2 ≤ doc.length) :
    Keeps doc more (bnodeTurn doc acc) (bnodeTurn (doc ++ 0x0a :: more) acc) := by
  refine .unicode ?_
  rw [bnodeRe_line long]
  cases read : bnodeRe doc with
  | none => exact .stop
  | some label => exact .skip (by omega) (bnodeRe_fits long read)

theorem dotTurn_keeps (nonempty : doc ≠ []) : Keeps doc more (dotTurn doc acc) (dotTurn (doc ++ 0x0a :: more) acc) := by
  rw [dotTurn, dotTurn, numberRe_line]
  cases read : numberRe doc with
  | none => exact .skip Nat.one_pos (List.length_pos_iff.mpr nonempty)
  | some whole => exact .skip (numberRe_length read) (numberRe_start read).length_le

theorem numberTurn_keeps : Keeps doc more (numberTurn doc acc) (numberTurn (doc ++ 0x0a :: more) acc) := by
  rw [numberTurn, numberTurn, numberRe_line]
  cases read : numberRe doc with
  | none => exact .stop
  | some whole => exact .skip (numberRe_length read) (numberRe_start read).length_le

theorem wordTurn_keeps : Keeps doc more (wordTurn doc acc) (wordTurn (doc ++ 0x0a :: more) acc) := by
  rw [wordTurn, wordTurn, wordRe_line]
  cases read : wordRe doc with
  | none => exact .stop
  | some word =>
    have fits := (nameRe_start read).length_le
    dsimp only
    split
    case isTrue a => exact .skip (a ▸ by decide) fits
    case isFalse =>
      split
      case isTrue yes => exact .skip (yes ▸ by decide) fits
      case isFalse =>
        split
        case isTrue no => exact .skip (no ▸ by decide) fits
        case isFalse => exact .stop

theorem nameTurn_keeps : Keeps doc more (nameTurn doc acc) (nameTurn (doc ++ 0x0a :: more) acc) := by
  refine .unicode ?_
  rw [pnameRe_line]
  cases read : pnameRe doc with
  | none => exact wordTurn_keeps
  | some found =>
    obtain ⟨label, name⟩ := found
    have fits := pnameRe_fits read
    dsimp only
    rw [List.drop_append_of_le_length fits, startsWith_line (by decide)]
    split
    · exact .stop
    · exact .skip (by omega) fits

theorem find_line {entries : List (String × Token)} (outside : ∀ entry ∈ entries, 0x0a ∉ utf8 entry.1) :
    entries.find? (fun entry => startsWith entry.1 (doc ++ 0x0a :: more)) =
      entries.find? fun entry => startsWith entry.1 doc :=
  List.find?_congr fun entry member => startsWith_line (outside entry member)

theorem tokenTurn_open (acc : List Token) : ∃ reason, tokenTurn (utf8 "<=") acc = .stop (unclassifiable reason) := ⟨_, rfl⟩

/-- Turns that make the same tests. -/
theorem Keeps.test {condition : Prop} [Decidable condition] {short long other otherLong : Reading}
    (pass : condition → Keeps doc more short long) (fail : ¬ condition → Keeps doc more other otherLong) :
    Keeps doc more (if condition then short else other) (if condition then long else otherLong) := by
  split
  · exact pass ‹_›
  · exact fail ‹_›

theorem tokenTurn_keeps (nonempty : doc ≠ []) :
    Keeps doc more (tokenTurn doc acc) (tokenTurn (doc ++ 0x0a :: more) acc) := by
  have more_ : doc ++ 0x0a :: more ≠ [] := by simp
  have tail : (doc ++ 0x0a :: more).tail = doc.tail ++ 0x0a :: more := tail_append nonempty
  have shorter : doc.tail.length < doc.length := by
    rw [List.length_tail]
    have positive := List.length_pos_iff.mpr nonempty
    omega
  by_cases opened : doc = utf8 "<="
  · obtain ⟨reason, stopped⟩ := tokenTurn_open acc
    rw [opened, stopped]
    exact .stop
  have backward : (startsWith "<=" (doc ++ 0x0a :: more) &&
      firstIs (fun byte => isSpace byte || isOneOf "\x7b" byte) ((doc ++ 0x0a :: more).drop 2)) =
      (startsWith "<=" doc && firstIs (fun byte => isSpace byte || isOneOf "\x7b" byte) (doc.drop 2)) := by
    rw [startsWith_line (by decide)]
    cases starts : startsWith "<=" doc with
    | false => rfl
    | true =>
      obtain ⟨rest, rfl⟩ := List.isPrefixOf_iff_prefix.mp starts
      have nonempty : rest ≠ [] := by
        rintro rfl
        exact opened (List.append_nil _)
      rw [List.append_assoc]
      exact firstIs_append nonempty
  unfold tokenTurn
  rw [if_neg nonempty, if_neg more_, firstIs_append nonempty, backward, find_line (by decide)]
  simp only [startsWith_line (by decide : 0x0a ∉ utf8 "#"), startsWith_line (by decide : 0x0a ∉ utf8 "\"\"\""),
    startsWith_line (by decide : 0x0a ∉ utf8 "'''"), startsWith_line (by decide : 0x0a ∉ utf8 "\""),
    startsWith_line (by decide : 0x0a ∉ utf8 "'"), startsWith_line (by decide : 0x0a ∉ utf8 "=>"),
    startsWith_line (by decide : 0x0a ∉ utf8 "<"), startsWith_line (by decide : 0x0a ∉ utf8 "^^"),
    startsWith_line (by decide : 0x0a ∉ utf8 "@"), startsWith_line (by decide : 0x0a ∉ utf8 "?"),
    startsWith_line (by decide : 0x0a ∉ utf8 "_:"), startsWith_line (by decide : 0x0a ∉ utf8 "."),
    firstIs_append nonempty, tail]
  have long : ∀ {text : String}, startsWith text doc = true → (utf8 text).length = 3 →
      (doc ++ 0x0a :: more).drop 3 = doc.drop 3 ++ 0x0a :: more ∧ (doc.drop 3).length < doc.length := by
    intro text starts size
    have fits := startsWith_length starts
    refine ⟨List.drop_append_of_le_length (by omega), ?_⟩
    rw [List.length_drop]
    omega
  have two : ∀ {text : String}, startsWith text doc = true → (utf8 text).length = 2 → 2 ≤ doc.length :=
    fun starts size => size ▸ startsWith_length starts
  refine .test (fun _ => .next shorter) fun _ => ?_
  refine .test (fun _ => comment_keeps shorter) fun _ => ?_
  refine .test (fun starts => ?_) fun _ => ?_
  · obtain ⟨dropped, shorter⟩ := long starts rfl
    rw [dropped]
    exact longString_keeps (by decide) shorter
  refine .test (fun starts => ?_) fun _ => ?_
  · obtain ⟨dropped, shorter⟩ := long starts rfl
    rw [dropped]
    exact longString_keeps (by decide) shorter
  refine .test (fun _ => shortString_keeps (.inl rfl) shorter) fun _ => ?_
  refine .test (fun _ => shortString_keeps (.inr rfl) shorter) fun _ => ?_
  refine .test (fun starts => .skip Nat.two_pos (two starts rfl)) fun _ => ?_
  refine .test (fun starts => .skip Nat.two_pos (two (Bool.and_eq_true_iff.mp starts).1 rfl)) fun _ => ?_
  refine .test (fun _ => iriTurn_keeps nonempty) fun _ => ?_
  refine .test (fun starts => .skip Nat.two_pos (two starts rfl)) fun _ => ?_
  split
  · exact .skip Nat.one_pos (List.length_pos_iff.mpr nonempty)
  refine .test (fun _ => atTurn_keeps nonempty) fun _ => ?_
  refine .test (fun _ => varTurn_keeps nonempty) fun _ => ?_
  refine .test (fun starts => bnodeTurn_keeps (two starts rfl)) fun _ => ?_
  refine .test (fun _ => dotTurn_keeps nonempty) fun _ => ?_
  exact .test (fun _ => numberTurn_keeps) fun _ => nameTurn_keeps

theorem tokenTurn_consuming : Consuming tokenTurn := by
  intro doc acc rest after taken
  have nonempty : doc ≠ [] := by
    rintro rfl
    cases taken
  have keeps : Keeps doc [] (tokenTurn doc acc) _ := tokenTurn_keeps nonempty
  exact keeps.shorter taken

theorem tokenTurn_ok {tokens : List Token} (accepted : tokenTurn doc acc = .stop (.ok tokens)) :
    doc = [] ∧ tokens = acc.reverse := by
  by_cases nonempty : doc = []
  · subst nonempty
    cases accepted
    exact ⟨rfl, rfl⟩
  · have keeps : Keeps doc [] (tokenTurn doc acc) _ := tokenTurn_keeps nonempty
    exact absurd accepted keeps.refuses

theorem tokenize_nil {acc : List Token} : tokenize [] acc = some (.ok acc.reverse) := run_stop rfl

theorem tokenize_feed {acc : List Token} : tokenize (0x0a :: more) acc = tokenize more acc :=
  run_next tokenTurn_consuming rfl

/-- The tokens of two lines are the tokens of the first one and the tokens of the second one. -/
theorem tokenize_line {tokens all : List Token} (first : tokenize doc acc = some (.ok tokens))
    (both : tokenize (doc ++ 0x0a :: more) acc = some (.ok all)) :
    tokenize more tokens.reverse = some (.ok all) := by
  obtain ⟨last, final, steps, stopped⟩ := run_steps first
  clear first
  induction steps with
  | @refl doc acc =>
    obtain ⟨rfl, rfl⟩ := tokenTurn_ok stopped
    rw [List.reverse_reverse, ← tokenize_feed]
    exact both
  | @step doc acc rest after last final taken steps ih =>
    have nonempty : doc ≠ [] := by
      rintro rfl
      cases taken
    have keeps : Keeps doc more (tokenTurn doc acc) _ := tokenTurn_keeps nonempty
    obtain raised | kept | ⟨rfl, ended⟩ := keeps.kept taken
    · cases (run_raise raised).symm.trans both
    · exact ih ((run_next tokenTurn_consuming kept).symm.trans both) stopped
    · -- a comment took the end of the line with it
      have done : tokens = after.reverse := by
        have same := (Steps.run tokenTurn_consuming steps).trans (run_stop stopped)
        exact Except.ok.inj (Option.some.inj (same.symm.trans tokenize_nil))
      subst done
      rw [List.reverse_reverse]
      exact (run_next tokenTurn_consuming ended).symm.trans both

/-! ## The tokens before

What is read only depends on the last token before it. -/

/-- A turn behind further tokens. -/
def rebase (base : List Token) (reading : Reading) : Reading :=
  reading.map (· ++ base) (Except.map (base.reverse ++ ·))

structure Rebased (acc base : List Token) (short long : Reading) : Prop where
  same : long = rebase base short
  kept : ∀ {rest after}, short = .next rest after → acc <:+ after

namespace Rebased
variable {base : List Token} {short long other otherLong : Reading}

theorem stop {reason : Reason} :
    Rebased acc base (.stop (unclassifiable reason)) (.stop (unclassifiable reason)) := ⟨rfl, nofun⟩

theorem next : Rebased acc base (.next rest acc) (.next rest (acc ++ base)) :=
  ⟨rfl, fun taken => by cases taken; exact List.suffix_rfl⟩

theorem emit {token : Token} : Rebased acc base (.next rest (token :: acc)) (.next rest (token :: (acc ++ base))) :=
  ⟨rfl, fun taken => by cases taken; exact List.suffix_cons token acc⟩

theorem unicode (rebased : Rebased acc base short long) : Rebased acc base (unicode doc short) (unicode doc long) := by
  rw [RuleDocument.unicode, RuleDocument.unicode]
  split
  · exact rebased
  · exact ⟨rfl, nofun⟩

theorem test {condition : Prop} [Decidable condition] (pass : condition → Rebased acc base short long)
    (fail : ¬ condition → Rebased acc base other otherLong) :
    Rebased acc base (if condition then short else other) (if condition then long else otherLong) := by
  split
  · exact pass ‹_›
  · exact fail ‹_›

end Rebased

section Rebase
variable {base : List Token}

theorem longString_rebased {delimiter : String} :
    Rebased acc base (longString rest delimiter acc) (longString rest delimiter (acc ++ base)) := by
  rw [longString, longString]
  split
  · exact .emit
  · exact .stop

theorem shortString_rebased : Rebased acc base (shortString quote rest acc) (shortString quote rest (acc ++ base)) := by
  rw [shortString, shortString]
  split
  · exact .emit
  · exact .stop

theorem iriTurn_rebased : Rebased acc base (iriTurn doc acc) (iriTurn doc (acc ++ base)) := by
  refine .unicode ?_
  split
  · exact .test (fun _ => .emit) fun _ => .stop
  · exact .stop

theorem atTurn_rebased (nonempty : acc ≠ []) : Rebased acc base (atTurn doc acc) (atTurn doc (acc ++ base)) := by
  refine .unicode ?_
  split
  · have head : (acc ++ base).head? = acc.head? := by
      obtain ⟨token, acc, rfl⟩ := List.exists_cons_of_ne_nil nonempty
      rfl
    rw [directive, directive, head]
    exact .test (fun _ => .emit) fun _ => .test (fun _ => .next) fun _ => .stop
  · exact .stop

theorem varTurn_rebased : Rebased acc base (varTurn doc acc) (varTurn doc (acc ++ base)) := by
  refine .unicode ?_
  split
  · exact .emit
  · exact .stop

theorem bnodeTurn_rebased : Rebased acc base (bnodeTurn doc acc) (bnodeTurn doc (acc ++ base)) := by
  refine .unicode ?_
  split
  · exact .emit
  · exact .stop

theorem dotTurn_rebased : Rebased acc base (dotTurn doc acc) (dotTurn doc (acc ++ base)) := by
  rw [dotTurn, dotTurn]
  split
  · exact .emit
  · exact .emit

theorem numberTurn_rebased : Rebased acc base (numberTurn doc acc) (numberTurn doc (acc ++ base)) := by
  rw [numberTurn, numberTurn]
  split
  · exact .emit
  · exact .stop

theorem nameTurn_rebased : Rebased acc base (nameTurn doc acc) (nameTurn doc (acc ++ base)) := by
  refine .unicode ?_
  split
  · exact .test (fun _ => .stop) fun _ => .emit
  · rw [wordTurn, wordTurn]
    split
    · exact .test (fun _ => .emit) fun _ => .test (fun _ => .emit) fun _ => .test (fun _ => .emit) fun _ => .stop
    · exact .stop

theorem tokenTurn_rebased (nonempty : acc ≠ []) : Rebased acc base (tokenTurn doc acc) (tokenTurn doc (acc ++ base)) := by
  unfold tokenTurn
  refine .test (fun _ => ⟨?_, nofun⟩) fun _ => ?_
  · rw [List.reverse_append]
    rfl
  refine .test (fun _ => .next) fun _ => ?_
  refine .test (fun _ => .next) fun _ => ?_
  refine .test (fun _ => longString_rebased) fun _ => ?_
  refine .test (fun _ => longString_rebased) fun _ => ?_
  refine .test (fun _ => shortString_rebased) fun _ => ?_
  refine .test (fun _ => shortString_rebased) fun _ => ?_
  refine .test (fun _ => .emit) fun _ => ?_
  refine .test (fun _ => .emit) fun _ => ?_
  refine .test (fun _ => iriTurn_rebased) fun _ => ?_
  refine .test (fun _ => .emit) fun _ => ?_
  split
  · exact .emit
  refine .test (fun _ => atTurn_rebased nonempty) fun _ => ?_
  refine .test (fun _ => varTurn_rebased) fun _ => ?_
  refine .test (fun _ => bnodeTurn_rebased) fun _ => ?_
  refine .test (fun _ => dotTurn_rebased) fun _ => ?_
  exact .test (fun _ => numberTurn_rebased) fun _ => nameTurn_rebased

theorem tokenize_base (nonempty : acc ≠ []) :
    tokenize doc (acc ++ base) = (tokenize doc acc).map (Except.map (base.reverse ++ ·)) :=
  run_map (fun _ _ nonempty => (tokenTurn_rebased nonempty).same)
    (fun {_ state _ after} nonempty taken => by
      have kept : state <:+ after := (tokenTurn_rebased nonempty : Rebased state [] _ _).kept taken
      exact fun empty => nonempty (List.suffix_nil.mp (empty ▸ kept))) nonempty

/-- The tokens that are there stay. -/
theorem tokenize_start {tokens : List Token} (nonempty : acc ≠ []) (read : tokenize doc acc = some (.ok tokens)) :
    acc.reverse <+: tokens := by
  obtain ⟨last, final, steps, stopped⟩ := run_steps read
  have kept : acc <:+ final := by
    clear read stopped
    induction steps with
    | refl => exact List.suffix_rfl
    | @step doc acc rest after last final taken steps ih =>
      have kept : acc <:+ after := (tokenTurn_rebased nonempty : Rebased acc [] _ _).kept taken
      exact kept.trans (ih fun empty => nonempty (List.suffix_nil.mp (empty ▸ kept)))
  rw [(tokenTurn_ok stopped).2]
  exact List.reverse_prefix.mpr kept

end Rebase

end AshA2A.Semantic.LogicClosure.RuleDocument
