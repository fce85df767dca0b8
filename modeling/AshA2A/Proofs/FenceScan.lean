import AshA2A.Semantic.AxisFence
import Mathlib.Data.List.Infix

/-! The scan over the runs of adjacent tokens, and the two ways to normalize a name. -/

/-! ## Runs that are grown until nothing can change -/

namespace RunScan

variable {α : Type} (join : α → α → α) (stop bad : α → Bool)

def grow (acc : α) : List α → Bool
  | [] => false
  | next :: rest => if stop acc then false else bad (join acc next) || grow (join acc next) rest

/-- Runs of at least two from every start. -/
def scan : List α → Bool
  | [] => false
  | first :: rest => grow join stop bad first rest || scan rest

variable {join stop bad} {acc first : α} {list run pieces : List α}

theorem grow_sound (found : grow join stop bad acc list = true) :
    ∃ pieces, pieces ≠ [] ∧ pieces <+: list ∧ bad (pieces.foldl join acc) := by
  induction list generalizing acc with
  | nil => cases found
  | cons next rest ih =>
    rw [grow] at found
    split at found
    · cases found
    · obtain here | later := (Bool.or_eq_true _ _).mp found
      · exact ⟨[next], List.cons_ne_nil _ _, ⟨rest, rfl⟩, here⟩
      · obtain ⟨pieces, some, within, there⟩ := ih later
        exact ⟨next :: pieces, List.cons_ne_nil _ _, List.cons_prefix_cons.mpr ⟨rfl, within⟩, there⟩

theorem grow_complete (some : pieces ≠ []) (within : pieces <+: list) (hit : bad (pieces.foldl join acc))
    (goes : ∀ shorter, shorter <+: pieces → shorter ≠ pieces → stop (shorter.foldl join acc) = false) :
    grow join stop bad acc list = true := by
  induction pieces generalizing acc list with
  | nil => exact absurd rfl some
  | cons next pieces ih =>
    obtain ⟨rest, rfl⟩ := within
    have on : stop acc = false := goes [] (List.nil_prefix) (List.cons_ne_nil _ _).symm
    rw [List.cons_append, grow, if_neg (by simp [on]), Bool.or_eq_true]
    by_cases last : pieces = []
    · subst last
      exact .inl hit
    · refine .inr (ih last ⟨rest, rfl⟩ hit fun shorter begins other => ?_)
      exact goes (next :: shorter) (List.cons_prefix_cons.mpr ⟨rfl, begins⟩) (by simpa using other)

theorem scan_sound (found : scan join stop bad list = true) :
    ∃ first pieces, pieces ≠ [] ∧ first :: pieces <:+: list ∧ bad (pieces.foldl join first) := by
  induction list with
  | nil => cases found
  | cons head rest ih =>
    obtain here | later := (Bool.or_eq_true _ _).mp found
    · obtain ⟨pieces, some, within, hit⟩ := grow_sound here
      exact ⟨head, pieces, some, (List.cons_prefix_cons.mpr ⟨rfl, within⟩).isInfix, hit⟩
    · obtain ⟨first, pieces, some, within, hit⟩ := ih later
      exact ⟨first, pieces, some, List.infix_cons within, hit⟩

theorem scan_complete (some : pieces ≠ []) (within : first :: pieces <:+: list) (hit : bad (pieces.foldl join first))
    (goes : ∀ shorter, shorter <+: pieces → shorter ≠ pieces → stop (shorter.foldl join first) = false) :
    scan join stop bad list = true := by
  induction list with
  | nil => exact absurd (List.infix_nil.mp within) (List.cons_ne_nil _ _)
  | cons head rest ih =>
    rw [scan, Bool.or_eq_true]
    obtain begins | later := List.infix_cons_iff.mp within
    · obtain ⟨rfl, onwards⟩ := List.cons_prefix_cons.mp begins
      exact .inl (grow_complete some onwards hit goes)
    · exact .inr (ih later)

end RunScan

namespace AshA2A.Semantic.AxisFence

/-! ## Sizes -/

section Sizes
variable {first second text root : Text}

theorem byteSize_append : byteSize (first ++ second) = byteSize first + byteSize second := by
  rw [byteSize, List.map_append, List.sum_append]
  rfl

theorem byteSize_pos (some : text ≠ []) : 0 < byteSize text := by
  cases text with
  | nil => exact absurd rfl some
  | cons char rest =>
    have one := char.utf8Size_pos
    have whole : byteSize (char :: rest) = char.utf8Size + byteSize rest := rfl
    omega

theorem byteSize_prefix (begins : first <+: second) : byteSize first ≤ byteSize second := by
  obtain ⟨rest, rfl⟩ := begins
  rw [byteSize_append]
  exact Nat.le_add_right _ _

theorem byteSize_suffix (ends : first <:+ second) : byteSize first ≤ byteSize second := by
  obtain ⟨rest, rfl⟩ := ends
  rw [byteSize_append]
  exact Nat.le_add_left _ _

/-- A proper part is smaller. -/
theorem eq_of_suffix (ends : first <:+ second) (large : byteSize second ≤ byteSize first) : first = second := by
  obtain ⟨rest, rfl⟩ := ends
  rw [byteSize_append] at large
  have none : rest = [] := by_contra fun some => by
    have pos := byteSize_pos some
    omega
  rw [none, List.nil_append]

end Sizes

/-! ## Words -/

theorem forbiddenTokens_small {token : Text} (member : token ∈ forbiddenTokens) : byteSize token ≤ maxTokenBytes := by
  have all : forbiddenTokens.all (fun token => byteSize token ≤ maxTokenBytes) = true := by decide
  exact of_decide_eq_true (List.all_eq_true.mp all token member)

theorem affix_small {root : Text} (member : root ∈ forbiddenAffixes) : byteSize root < maxTokenBytes := by
  have all : forbiddenAffixes.all (fun root => byteSize root < maxTokenBytes) = true := by decide
  exact of_decide_eq_true (List.all_eq_true.mp all root member)

theorem suffix_small {root : Text} (member : root ∈ forbiddenSuffixes) : byteSize root ≤ maxRootBytes := by
  have all : forbiddenSuffixes.all (fun root => byteSize root ≤ maxRootBytes) = true := by decide
  exact of_decide_eq_true (List.all_eq_true.mp all root member)

theorem benign_small {word : Text} (member : word ∈ benignAffixWords) : byteSize word < maxTokenBytes := by
  have all : benignAffixWords.all (fun word => byteSize word < maxTokenBytes) = true := by decide
  exact of_decide_eq_true (List.all_eq_true.mp all word member)

section Tokens
variable {token first second : Text}

theorem affixPrefix_iff : affixPrefix token = true ↔ ∃ root ∈ forbiddenAffixes, root <+: token := by
  simp [affixPrefix, List.any_eq_true]

theorem affixSuffix_iff : affixSuffix token = true ↔ ∃ root ∈ forbiddenSuffixes, root <:+ token := by
  simp [affixSuffix, List.any_eq_true]

theorem forbiddenToken_iff : forbiddenToken token = true ↔
    token ∈ forbiddenTokens ∨ (affixPrefix token = true ∨ affixSuffix token = true) ∧ token ∉ benignAffixWords := by
  simp [forbiddenToken]

/-- A part that long has the root in front of it already. -/
theorem forbidden_of_begins (begins : first <+: second) (large : maxTokenBytes ≤ byteSize first)
    (rooted : affixPrefix second = true) : forbiddenToken first = true := by
  obtain ⟨root, member, fits⟩ := affixPrefix_iff.mp rooted
  have within : root <+: first := by
    obtain within | beyond := List.prefix_or_prefix_of_prefix fits begins
    · exact within
    · have small := affix_small member
      have le := byteSize_prefix beyond
      omega
  refine forbiddenToken_iff.mpr (.inr ⟨.inl (affixPrefix_iff.mpr ⟨root, member, within⟩), fun benign => ?_⟩)
  have small := benign_small benign
  omega

/-- A part that long has the root behind it already. -/
theorem forbidden_of_ends (ends : first <:+ second) (large : maxRootBytes ≤ byteSize first)
    (other : first ∉ benignAffixWords) (rooted : affixSuffix second = true) : forbiddenToken first = true := by
  obtain ⟨root, member, fits⟩ := affixSuffix_iff.mp rooted
  have within : root <:+ first := by
    obtain within | beyond := List.suffix_or_suffix_of_suffix fits ends
    · exact within
    · have same := eq_of_suffix beyond ((suffix_small member).trans large)
      rw [same]
  exact forbiddenToken_iff.mpr (.inr ⟨.inr (affixSuffix_iff.mpr ⟨root, member, within⟩), other⟩)

end Tokens

/-! ## The window -/

theorem growLeft_eq (acc : Text) (list : List Text) :
    growLeft acc list = RunScan.grow (fun acc next => acc ++ next) stopsLeft forbiddenToken acc list := by
  induction list generalizing acc with
  | nil => rfl
  | cons next rest ih => simp only [growLeft, RunScan.grow, stopsLeft, decide_eq_true_eq, ih]

theorem growRight_eq (run : Text) (list : List Text) :
    growRight run list = RunScan.grow (fun run prev => prev ++ run) stopsRight forbiddenToken run list := by
  induction list generalizing run with
  | nil => rfl
  | cons prev rest ih => simp only [growRight, RunScan.grow, stopsRight, decide_eq_true_eq, ih]

theorem leftRuns_eq (list : List Text) :
    forbiddenLeftRuns list = RunScan.scan (fun acc next => acc ++ next) stopsLeft forbiddenToken list := by
  induction list with
  | nil => rfl
  | cons head rest ih => rw [forbiddenLeftRuns, RunScan.scan, growLeft_eq, ih]

theorem rightRuns_eq (list : List Text) :
    forbiddenRightRuns list = RunScan.scan (fun run prev => prev ++ run) stopsRight forbiddenToken list := by
  induction list with
  | nil => rfl
  | cons head rest ih => rw [forbiddenRightRuns, RunScan.scan, growRight_eq, ih]

theorem foldl_append (acc : Text) (pieces : List Text) :
    pieces.foldl (fun acc next => acc ++ next) acc = acc ++ pieces.flatten := by
  induction pieces generalizing acc with
  | nil => simp
  | cons next pieces ih => rw [List.foldl_cons, ih, List.flatten_cons, List.append_assoc]

theorem foldl_prepend (run : Text) (pieces : List Text) :
    pieces.foldl (fun run prev => prev ++ run) run = (pieces.reverse ++ [run]).flatten := by
  induction pieces generalizing run with
  | nil => simp
  | cons prev pieces ih => simp [List.foldl_cons, ih]

section Window
variable {list run : List Text}

theorem window_eq (two : 2 ≤ list.length) :
    forbiddenWindow list = (forbiddenLeftRuns list || forbiddenRightRuns list.reverse) := by
  match list, two with
  | _ :: _ :: _, _ => rfl

theorem window_sound (found : forbiddenWindow list = true) :
    ∃ run, run <:+: list ∧ 2 ≤ run.length ∧ forbiddenToken run.flatten = true := by
  have two : 2 ≤ list.length := by
    match list, found with
    | _ :: _ :: _, _ => simp
  rw [window_eq two, Bool.or_eq_true, leftRuns_eq, rightRuns_eq] at found
  obtain left | right := found
  · obtain ⟨first, pieces, some, within, hit⟩ := RunScan.scan_sound left
    rw [foldl_append] at hit
    have long := List.length_pos_iff.mpr some
    exact ⟨first :: pieces, within, Nat.succ_le_succ long, hit⟩
  · obtain ⟨last, pieces, some, within, hit⟩ := RunScan.scan_sound right
    rw [foldl_prepend] at hit
    have long := List.length_pos_iff.mpr some
    refine ⟨pieces.reverse ++ [last], ?_, ?_, hit⟩
    · rwa [← List.reverse_infix, List.reverse_append, List.reverse_reverse]
    · rw [List.length_append, List.length_reverse]
      exact Nat.succ_le_succ long

/-- Either the run is grown to its end from the left, or a part of it is as large as a forbidden token. -/
theorem grown_left (within : run <:+: list) (two : 2 ≤ run.length) (hit : forbiddenToken run.flatten = true) :
    forbiddenLeftRuns list = true ∨
      ∃ part, part <+: run ∧ part ≠ run ∧ part ≠ [] ∧ maxTokenBytes ≤ byteSize part.flatten := by
  match run, two with
  | first :: pieces, two =>
    have some : pieces ≠ [] := fun none => by simp [none] at two
    by_cases goes : ∀ shorter, shorter <+: pieces → shorter ≠ pieces →
        stopsLeft (shorter.foldl (fun acc next => acc ++ next) first) = false
    · rw [leftRuns_eq]
      exact .inl (RunScan.scan_complete some within (by rwa [foldl_append]) goes)
    · push Not at goes
      obtain ⟨shorter, begins, other, stops⟩ := goes
      rw [foldl_append, Bool.ne_false_iff] at stops
      exact .inr ⟨first :: shorter, List.cons_prefix_cons.mpr ⟨rfl, begins⟩, by simpa using other,
        List.cons_ne_nil _ _, of_decide_eq_true stops⟩

/-- And so from the right, with a part as large as a root. -/
theorem grown_right (within : run <:+: list) (two : 2 ≤ run.length) (hit : forbiddenToken run.flatten = true) :
    forbiddenRightRuns list.reverse = true ∨
      ∃ part, part <:+ run ∧ part ≠ run ∧ part ≠ [] ∧ maxRootBytes ≤ byteSize part.flatten ∧
        part.flatten ∉ benignAffixWords := by
  obtain ⟨pieces, last, rfl⟩ : ∃ (pieces : List Text) (last : Text), run = pieces.reverse ++ [last] := by
    refine ⟨run.dropLast.reverse, run.getLast (fun none => by simp [none] at two), ?_⟩
    rw [List.reverse_reverse, List.dropLast_append_getLast]
  have some : pieces ≠ [] := fun none => by simp [none] at two
  by_cases goes : ∀ shorter, shorter <+: pieces → shorter ≠ pieces →
      stopsRight (shorter.foldl (fun run prev => prev ++ run) last) = false
  · rw [rightRuns_eq]
    refine .inl (RunScan.scan_complete some ?_ (by rwa [foldl_prepend]) goes)
    rwa [← List.reverse_infix, List.reverse_append, List.reverse_reverse] at within
  · push Not at goes
    obtain ⟨shorter, begins, other, stops⟩ := goes
    rw [foldl_prepend, Bool.ne_false_iff] at stops
    obtain ⟨large, plain⟩ := of_decide_eq_true stops
    obtain ⟨rest, rfl⟩ := begins
    refine .inr ⟨shorter.reverse ++ [last], ⟨rest.reverse, by simp⟩, fun same => other ?_, by simp, large, plain⟩
    simpa using congrArg List.reverse same

theorem length_lt_of_begins {part : List Text} (begins : part <+: run) (other : part ≠ run) : part.length < run.length :=
  lt_of_le_of_ne begins.length_le fun same => other (begins.eq_of_length same)

theorem length_lt_of_ends {part : List Text} (ends : part <:+ run) (other : part ≠ run) : part.length < run.length :=
  lt_of_le_of_ne ends.length_le fun same => other (ends.eq_of_length same)

theorem flatten_begins {part : List Text} (begins : part <+: run) : part.flatten <+: run.flatten := by
  obtain ⟨rest, rfl⟩ := begins
  rw [List.flatten_append]
  exact List.prefix_append _ _

theorem flatten_ends {part : List Text} (ends : part <:+ run) : part.flatten <:+ run.flatten := by
  obtain ⟨rest, rfl⟩ := ends
  rw [List.flatten_append]
  exact List.suffix_append _ _

/-- What is cut off from a run of tokens is not empty. -/
theorem byteSize_lt {part : List Text} (filled : ∀ token ∈ run, token ≠ []) (begins : part <+: run) (other : part ≠ run) :
    byteSize part.flatten < byteSize run.flatten := by
  obtain ⟨rest, rfl⟩ := begins
  rw [List.flatten_append, byteSize_append]
  cases rest with
  | nil => exact absurd (List.append_nil _).symm other
  | cons token rest =>
    have pos := byteSize_pos (filled token (List.mem_append_right _ List.mem_cons_self))
    rw [List.flatten_cons, byteSize_append]
    omega

theorem window_complete (filled : ∀ token ∈ list, token ≠ []) (single : ∀ token ∈ list, forbiddenToken token = false)
    (within : run <:+: list) (some : run ≠ []) (hit : forbiddenToken run.flatten = true) : forbiddenWindow list = true := by
  -- a part that stops the growth is forbidden itself, and shorter
  induction size : run.length using Nat.strong_induction_on generalizing run with
  | _ size ih =>
    subst size
    have two : 2 ≤ run.length := by
      match run, some with
      | [token], _ =>
        have whole : forbiddenToken token = true := by simpa using hit
        rw [single token (within.subset List.mem_cons_self)] at whole
        cases whole
      | _ :: _ :: _, _ => simp
    rw [window_eq (two.trans within.length_le), Bool.or_eq_true]
    have parts : ∀ part, part <:+: run → part.length < run.length → part ≠ [] → forbiddenToken part.flatten = true →
        forbiddenLeftRuns list = true ∨ forbiddenRightRuns list.reverse = true := by
      intro part inside shorter some hit
      have found := ih part.length shorter (inside.trans within) some hit rfl
      rwa [window_eq (two.trans within.length_le), Bool.or_eq_true] at found
    obtain exact_ | ⟨rooted | rooted, -⟩ := forbiddenToken_iff.mp hit
    · obtain found | ⟨part, begins, other, -, large⟩ := grown_left within two hit
      · exact .inl found
      · have small := forbiddenTokens_small exact_
        have less := byteSize_lt (fun token member => filled token (within.subset member)) begins other
        omega
    · obtain found | ⟨part, begins, other, some, large⟩ := grown_left within two hit
      · exact .inl found
      · exact parts part begins.isInfix (length_lt_of_begins begins other) some
          (forbidden_of_begins (flatten_begins begins) large rooted)
    · obtain found | ⟨part, ends, other, some, large, plain⟩ := grown_right within two hit
      · exact .inr found
      · exact parts part ends.isInfix (length_lt_of_ends ends other) some
          (forbidden_of_ends (flatten_ends ends) large plain rooted)

end Window

/-! ## The two normalizations -/

/-- What the tables of the runtime say of ASCII. -/
structure Unicode.Plain (unicode : Unicode) : Prop where
  nfkc : ∀ text, ascii text = true → unicode.nfkc text = text
  invisible : ∀ char : Char, char.toNat < 128 → unicode.invisible char = false
  lower : ∀ char : Char, char.toNat < 128 → unicode.lower char = char.isLower
  upper : ∀ char : Char, char.toNat < 128 → unicode.upper char = char.isUpper
  letter : ∀ char : Char, char.toNat < 128 → unicode.letter char = char.isAlpha
  number : ∀ char : Char, char.toNat < 128 → unicode.number char = char.isDigit
  downcase : ∀ text, ascii text = true → unicode.downcase text = text.map Char.toLower

theorem ascii_cons {char : Char} {rest : Text} : ascii (char :: rest) = true ↔ char.toNat < 128 ∧ ascii rest = true := by
  simp [ascii]

section Fold
variable {unicode : Unicode} {char : Char} {text rest acc : Text} {prev : Option Char}

theorem underscore_alone (plain : unicode.Plain) : (unicode.letter '_' || unicode.number '_') = false := by
  rw [plain.letter '_' (by decide), plain.number '_' (by decide)]
  rfl

theorem wordStarts_ascii (plain : unicode.Plain) (known : ∀ p ∈ prev, p.toNat < 128) (small : char.toNat < 128)
    (others : ascii rest = true) : wordStarts unicode prev char rest = (char.isUpper && camelBoundary prev rest) := by
  cases prev with
  | none => simp [wordStarts, camelBoundary]
  | some prev =>
    have before := known prev rfl
    cases rest with
    | nil =>
      simp only [wordStarts, camelBoundary, plain.lower prev before, plain.number prev before, plain.upper char small,
        Bool.and_false, Bool.or_false]
      exact Bool.and_comm _ _
    | cons next rest =>
      have after := (ascii_cons.mp others).1
      simp only [wordStarts, camelBoundary, plain.lower prev before, plain.number prev before, plain.upper prev before,
        plain.upper char small, plain.lower next after]
      cases char.isUpper <;> simp

/-- The sign that stands for a run of others is not written in front of the first token, nor twice. -/
def gap (acc : Text) : Bool := acc = [] ∨ acc.getLast? = some '_'

theorem gap_append : gap (acc ++ [char]) = decide (char = '_') := by
  simp [gap]

/-- The fold tells lower-case letters and digits, upper-case letters and all others apart. -/
def sorted (char : Char) : Bool :=
  if char.isLower || char.isDigit then char.toLower = char && ! char.isUpper && char ≠ '_' && (char.isAlpha || char.isDigit)
  else if char.isUpper then char.toLower.isAlpha && char.toLower ≠ '_' && char.toLower.toNat < 128
  else char.toLower = char && ! char.isAlpha && ! char.isDigit

theorem sorted_of_ascii (small : char.toNat < 128) : sorted char = true := by
  have table : ∀ code : Fin 128, sorted (Char.ofNat code) = true := by decide
  have entry := table ⟨char.toNat, small⟩
  rwa [Char.ofNat_toNat] at entry

theorem alphanum_of_boundary {before : Char} (starts : camelBoundary (some before) rest = true) :
    before.isAlphanum = true := by
  unfold camelBoundary at starts
  have alphanum : before.isAlphanum = (before.isUpper || before.isLower || before.isDigit) := rfl
  cases rest <;> simp only [alphanum, Bool.or_eq_true, Bool.and_eq_true] at starts ⊢ <;> tauto

theorem foldAscii_eq (plain : unicode.Plain) (known : ∀ p ∈ prev, p.toNat < 128) (others : ascii rest = true)
    (behind : ∀ p ∈ prev, p.isAlphanum = true → gap acc = false) :
    foldAscii rest prev acc =
      trimTrailing (acc ++ collapse unicode (gap acc) ((splitWords unicode prev rest).map Char.toLower)) := by
  induction rest generalizing prev acc with
  | nil => simp [foldAscii, splitWords, collapse]
  | cons char rest ih =>
    obtain ⟨small, others⟩ := ascii_cons.mp others
    have here : ∀ p ∈ some char, p.toNat < 128 := fun p same => Option.some.inj same ▸ small
    have told := sorted_of_ascii small
    unfold sorted at told
    rw [foldAscii, splitWords, wordStarts_ascii plain known small others]
    split at told
    case isTrue keeps =>
      simp only [Bool.and_eq_true, decide_eq_true_eq, Bool.not_eq_true'] at told
      obtain ⟨⟨⟨same, upper⟩, other⟩, kept⟩ := told
      have after : gap (acc ++ [char]) = false := by rw [gap_append]; exact decide_eq_false other
      have written : (unicode.letter char || unicode.number char) = true := by
        rw [plain.letter char small, plain.number char small]
        exact kept
      rw [if_pos keeps, ih here others fun _ _ _ => after, after, upper, Bool.false_and, if_neg Bool.false_ne_true,
        List.cons_append, List.nil_append, List.map_cons, same, collapse, if_pos written, List.append_assoc]
      rfl
    case isFalse keeps =>
      rw [if_neg keeps]
      split at told
      case isTrue upper =>
        simp only [Bool.and_eq_true, decide_eq_true_eq] at told
        obtain ⟨⟨letter, other⟩, low⟩ := told
        have written : (unicode.letter char.toLower || unicode.number char.toLower) = true := by
          rw [plain.letter _ low, letter]
          rfl
        have after : ∀ acc : Text, gap (acc ++ [char.toLower]) = false := fun acc => by
          rw [gap_append]
          exact decide_eq_false other
        rw [if_pos upper, ih here others fun _ _ _ => after _, after, upper, Bool.true_and]
        by_cases starts : camelBoundary prev rest = true
        · have open_ : gap acc = false := by
            cases prev with
            | none => cases starts
            | some before => exact behind before rfl (alphanum_of_boundary starts)
          have lone : ¬ (unicode.letter '_' || unicode.number '_') = true := by
            rw [underscore_alone plain]
            exact Bool.false_ne_true
          rw [if_pos starts, if_pos starts, open_, List.cons_append, List.cons_append, List.nil_append, List.map_cons,
            List.map_cons]
          show _ = trimTrailing (acc ++ collapse unicode false ('_' :: char.toLower :: _))
          rw [collapse, if_neg lone, if_neg Bool.false_ne_true, collapse, if_pos written]
          simp only [List.append_assoc, List.cons_append, List.nil_append]
        · rw [if_neg starts, if_neg starts, List.cons_append, List.nil_append, List.map_cons, collapse, if_pos written,
            List.append_assoc]
          rfl
      case isFalse upper =>
        simp only [Bool.and_eq_true, decide_eq_true_eq, Bool.not_eq_true'] at told
        obtain ⟨⟨same, letter⟩, number⟩ := told
        have skipped : ¬ (unicode.letter char || unicode.number char) = true := by
          rw [plain.letter char small, plain.number char small, letter, number]
          exact Bool.false_ne_true
        have plainly : ∀ acc : Text, ∀ p ∈ some char, p.isAlphanum = true → gap acc = false := by
          intro acc p here letters
          cases here
          rw [Char.isAlphanum, letter, number] at letters
          cases letters
        rw [if_neg upper, (Bool.not_eq_true _).mp upper, Bool.false_and, if_neg Bool.false_ne_true, List.cons_append,
          List.nil_append, List.map_cons, same, collapse, if_neg skipped]
        by_cases empty : acc = []
        · have fresh : gap acc = true := decide_eq_true (.inl empty)
          rw [if_pos empty, ih here others (plainly []), fresh, if_pos rfl, empty]
          rfl
        · rw [if_neg empty]
          by_cases last : acc.getLast? = some '_'
          · have within : gap acc = true := decide_eq_true (.inr last)
            rw [if_pos last, ih here others (plainly acc), within, if_pos rfl]
          · have outside : gap acc = false := decide_eq_false (not_or.mpr ⟨empty, last⟩)
            have after : gap (acc ++ ['_']) = true := gap_append
            rw [if_neg last, ih here others (plainly _), after, outside, if_neg Bool.false_ne_true, List.append_assoc]
            rfl

theorem dropWhile_collapse (plain : unicode.Plain) (text : Text) (within : Bool) :
    (collapse unicode within text).dropWhile (· = '_') = collapse unicode true text := by
  induction text generalizing within with
  | nil => rfl
  | cons char rest ih =>
    unfold collapse
    by_cases keeps : (unicode.letter char || unicode.number char) = true
    · have other : char ≠ '_' := fun same => by
        rw [same, underscore_alone plain] at keeps
        cases keeps
      rw [if_pos keeps, if_pos keeps, List.dropWhile_cons_of_neg (by simpa using other)]
    · rw [if_neg keeps, if_neg keeps]
      cases within with
      | true => exact ih true
      | false => exact (List.dropWhile_cons_of_pos (by rfl)).trans (ih true)

theorem splitWords_ascii (prev : Option Char) (given : ascii text = true) : ascii (splitWords unicode prev text) = true := by
  induction text generalizing prev with
  | nil => rfl
  | cons char rest ih =>
    obtain ⟨small, others⟩ := ascii_cons.mp given
    have later := ih (some char) others
    rw [splitWords]
    split
    · exact ascii_cons.mpr ⟨by decide, ascii_cons.mpr ⟨small, later⟩⟩
    · exact ascii_cons.mpr ⟨small, later⟩

theorem foldAscii_normalizes (plain : unicode.Plain) (given : ascii text = true) :
    foldAscii text none [] = normalizeUnicode unicode text := by
  have seen : text.filter (fun char => ! unicode.invisible char) = text := by
    refine List.filter_eq_self.mpr fun char member => ?_
    rw [plain.invisible char (of_decide_eq_true (List.all_eq_true.mp given char member))]
    rfl
  rw [normalizeUnicode, plain.nfkc text given, seen, plain.downcase _ (splitWords_ascii none given), trim,
    dropWhile_collapse plain, foldAscii_eq plain (by simp) given (by simp)]
  rfl

end Fold

/-! ## Names -/

section Names
variable {normalized : Text}

theorem tokens_filled : ∀ token ∈ tokens normalized, token ≠ [] := by
  intro token member
  exact of_decide_eq_true (List.mem_filter.mp member).2

theorem forbiddenToken_nil : forbiddenToken [] = false := by decide

theorem axes_found (member : normalized ∈ forbiddenAxes) : (tokens normalized).any forbiddenToken = true := by
  have all : forbiddenAxes.all (fun axis => (tokens axis).any forbiddenToken) = true := by decide
  exact List.all_eq_true.mp all normalized member

/-- Some adjacent tokens, joined, are a forbidden token. -/
def RunForbidden (least : Nat) (list : List Text) : Prop :=
  ∃ run, run <:+: list ∧ least ≤ run.length ∧ forbiddenToken run.flatten = true

theorem runForbidden_one {list : List Text} {token : Text} (member : token ∈ list) (hit : forbiddenToken token = true) :
    RunForbidden 1 list := by
  obtain ⟨before, after, rfl⟩ := List.append_of_mem member
  exact ⟨[token], ⟨before, after, by simp⟩, le_refl _, by simpa using hit⟩

theorem forbiddenName_iff :
    forbiddenName normalized = true ↔ RunForbidden 1 (tokens normalized) ∨ hasStem (tokens normalized).flatten = true := by
  simp only [forbiddenName, Bool.or_eq_true, decide_eq_true_eq]
  constructor
  · rintro ((((axis | single) | whole) | stem) | window)
    · obtain ⟨token, member, hit⟩ := List.any_eq_true.mp (axes_found axis)
      exact .inl (runForbidden_one member hit)
    · obtain ⟨token, member, hit⟩ := List.any_eq_true.mp single
      exact .inl (runForbidden_one member hit)
    · refine .inl ⟨tokens normalized, List.infix_rfl, List.length_pos_iff.mpr fun none => ?_, whole⟩
      rw [none, List.flatten_nil, forbiddenToken_nil] at whole
      cases whole
    · exact .inr stem
    · obtain ⟨run, within, two, hit⟩ := window_sound window
      exact .inl ⟨run, within, by omega, hit⟩
  · rintro (⟨run, within, one, hit⟩ | stem)
    · by_cases single : (tokens normalized).any forbiddenToken = true
      · exact .inl (.inl (.inl (.inr single)))
      · have alone : ∀ token ∈ tokens normalized, forbiddenToken token = false := by
          intro token member
          exact Bool.eq_false_iff.mpr fun hit => single (List.any_eq_true.mpr ⟨token, member, hit⟩)
        exact .inr (window_complete tokens_filled alone within (List.length_pos_iff.mp one) hit)
    · exact .inl (.inr stem)

end Names

/-- The window is looked at behind the single tokens, so it need not find what begins or ends with one
of these. -/
theorem scans_agree {unicode : Unicode} (plain : unicode.Plain) :
    (∀ list : List Text, (∀ token ∈ list, token ≠ []) → (forbiddenWindow list = true → RunForbidden 2 list) ∧
      ((∀ token ∈ list, forbiddenToken token = false) → RunForbidden 2 list → forbiddenWindow list = true)) ∧
    (∀ text, ascii text = true → foldAscii text none [] = normalizeUnicode unicode text) ∧
    ∀ normalized, forbiddenName normalized = true ↔
      RunForbidden 1 (tokens normalized) ∨ hasStem (tokens normalized).flatten = true := by
  refine ⟨fun list filled => ⟨window_sound, fun alone => ?_⟩, fun text => foldAscii_normalizes plain,
    fun _ => forbiddenName_iff⟩
  intro ⟨run, within, two, hit⟩
  exact window_complete filled alone within (List.length_pos_iff.mp (by omega)) hit

/-- The tables of ASCII alone. -/
def asciiTables : Unicode where
  nfkc := id
  invisible _ := false
  lower := Char.isLower
  upper := Char.isUpper
  letter := Char.isAlpha
  number := Char.isDigit
  downcase text := text.map Char.toLower

theorem asciiTables_plain : asciiTables.Plain :=
  ⟨fun _ _ => rfl, fun _ _ => rfl, fun _ _ => rfl, fun _ _ => rfl, fun _ _ => rfl, fun _ _ => rfl, fun _ _ => rfl⟩

theorem scans_agree_ascii :
    foldAscii "HTTPGrant--Level ".toList none [] = normalizeUnicode asciiTables "HTTPGrant--Level ".toList :=
  (scans_agree asciiTables_plain).2.1 _ (by decide)

/-- The first of the two tokens is too long to be grown from, and the second one too. -/
theorem window_short : forbiddenWindow (tokens "grantxxxxxxxxxxx_foobarbaz".toList) = false ∧
    RunForbidden 2 (tokens "grantxxxxxxxxxxx_foobarbaz".toList) :=
  ⟨by decide, ["grantxxxxxxxxxxx".toList, "foobarbaz".toList], ⟨[], [], by decide⟩, by decide, by decide⟩

end AshA2A.Semantic.AxisFence
