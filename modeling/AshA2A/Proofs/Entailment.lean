import AshA2A.Outcome
import AshA2A.Proofs.RuleTokens
import AshA2A.Semantic.LogicClosure

/-! What the engine is asked beside the admitted rules: one denial, as long as the witness does not close
the brace that is opened for it. -/

namespace AshA2A.Semantic.LogicClosure
open Scan

namespace RuleDocument

variable {doc more : Bytes} {token : Token} {tokens rest left inner : List Token} {acc after last : Acc} {rule : Rule}
  {depth deeper : Nat}

/-! ## Braces -/

def nest : Nat → Token → Option Nat
  | depth, .lbrace => some (depth + 1)
  | 0, .rbrace => none
  | depth + 1, .rbrace => some depth
  | depth, _ => some depth

/-- How many braces are open behind the tokens; none where one is closed that was open before. -/
def nesting (depth : Nat) : List Token → Option Nat
  | [] => some depth
  | token :: rest => (nest depth token).bind fun depth => nesting depth rest

/-- The tokens up to the brace that closes the outer one. -/
def Closes (depth : Nat) (tokens acc inner rest : List Token) : Prop :=
  ∃ own, inner = acc.reverse ++ own ∧ tokens = own ++ .rbrace :: rest ∧ nesting depth own = some 0

theorem closes_cons {acc : List Token} (nests : nest depth token = some deeper) :
    Closes deeper tokens (token :: acc) inner rest ↔ Closes depth (token :: tokens) acc inner rest := by
  constructor
  · rintro ⟨own, rfl, rfl, closed⟩
    exact ⟨token :: own, by simp, rfl, by rw [nesting, nests]; exact closed⟩
  · rintro ⟨own, rfl, split, closed⟩
    cases own with
    | nil =>
      obtain ⟨rfl, rfl⟩ := List.cons.inj split
      cases closed
      cases nests
    | cons first own =>
      obtain ⟨rfl, rfl⟩ := List.cons.inj split
      rw [nesting, nests] at closed
      exact ⟨own, by simp, rfl, closed⟩

theorem balanced_iff {acc : List Token} :
    balanced tokens (depth + 1) acc = .ok (inner, rest) ↔ Closes depth tokens acc inner rest := by
  induction tokens generalizing depth acc with
  | nil =>
    refine iff_of_false nofun ?_
    rintro ⟨own, -, split, -⟩
    cases own <;> cases split
  | cons token tokens ih =>
    by_cases closing : token = .rbrace
    · subst closing
      cases depth with
      | zero =>
        rw [balanced, if_pos rfl, Except.ok.injEq, Prod.mk.injEq]
        constructor
        · rintro ⟨rfl, rfl⟩
          exact ⟨[], by simp, rfl, rfl⟩
        · rintro ⟨own, rfl, split, closed⟩
          cases own with
          | nil => exact ⟨by simp, (List.cons.inj split).2⟩
          | cons first own =>
            obtain ⟨rfl, -⟩ := List.cons.inj split
            cases closed
      | succ depth =>
        rw [balanced, if_neg (by omega), Nat.add_sub_cancel, ih]
        exact closes_cons rfl
    · by_cases opening : token = .lbrace
      · subst opening
        rw [balanced, ih]
        exact closes_cons rfl
      · have nests : nest depth token = some depth := by
          cases token <;> first | rfl | contradiction
        rw [balanced.eq_4 _ _ _ _ closing opening, ih]
        exact closes_cons nests

theorem balanced_append (closed : balanced tokens 1 [] = .ok (inner, rest)) (more : List Token) :
    balanced (tokens ++ more) 1 [] = .ok (inner, rest ++ more) := by
  obtain ⟨_, rfl, rfl, nested⟩ := balanced_iff.mp closed
  exact balanced_iff.mpr ⟨_, rfl, by simp, nested⟩

theorem balanced_shorter (closed : balanced tokens 1 [] = .ok (inner, rest)) : rest.length < tokens.length := by
  obtain ⟨own, -, rfl, -⟩ := balanced_iff.mp closed
  rw [List.length_append, List.length_cons]
  omega

/-! ## Statements -/

theorem ruleTail_append (read : ruleTail left tokens acc = .ok (rule, rest)) (more : List Token) :
    ruleTail left (tokens ++ more) acc = .ok (rule, rest ++ more) := by
  unfold ruleTail at read
  split at read
  case h_1 rest =>
    obtain ⟨body, given, same⟩ := bind_ok_iff.mp read
    cases same
    rw [List.cons_append, List.cons_append, ruleTail, given]
    rfl
  case h_2 tokens =>
    obtain ⟨⟨right, rest⟩, closed, read⟩ := bind_ok_iff.mp read
    rw [List.cons_append, List.cons_append, ruleTail, balanced_append closed]
    obtain ⟨body, given, read⟩ := bind_ok_iff.mp read
    obtain ⟨head, shown, same⟩ := bind_ok_iff.mp read
    cases same
    exact bind_ok_iff.mpr ⟨_, rfl, bind_ok_iff.mpr ⟨body, given, bind_ok_iff.mpr ⟨head, shown, rfl⟩⟩⟩
  case h_3 tokens =>
    obtain ⟨⟨right, rest⟩, closed, read⟩ := bind_ok_iff.mp read
    rw [List.cons_append, List.cons_append, ruleTail, balanced_append closed]
    obtain ⟨head, shown, read⟩ := bind_ok_iff.mp read
    obtain ⟨body, given, same⟩ := bind_ok_iff.mp read
    cases same
    exact bind_ok_iff.mpr ⟨_, rfl, bind_ok_iff.mpr ⟨head, shown, bind_ok_iff.mpr ⟨body, given, rfl⟩⟩⟩
  case h_4 => cases read

theorem ruleTail_shorter (read : ruleTail left tokens acc = .ok (rule, rest)) : rest.length < tokens.length := by
  unfold ruleTail at read
  split at read
  case h_1 rest =>
    obtain ⟨body, -, same⟩ := bind_ok_iff.mp read
    cases same
    simp only [List.length_cons]
    omega
  case h_2 tokens =>
    obtain ⟨⟨right, rest⟩, closed, read⟩ := bind_ok_iff.mp read
    obtain ⟨body, -, read⟩ := bind_ok_iff.mp read
    obtain ⟨head, -, same⟩ := bind_ok_iff.mp read
    cases same
    exact Nat.lt_succ_of_lt (Nat.lt_succ_of_lt (balanced_shorter closed))
  case h_3 tokens =>
    obtain ⟨⟨right, rest⟩, closed, read⟩ := bind_ok_iff.mp read
    obtain ⟨head, -, read⟩ := bind_ok_iff.mp read
    obtain ⟨body, -, same⟩ := bind_ok_iff.mp read
    cases same
    exact Nat.lt_succ_of_lt (Nat.lt_succ_of_lt (balanced_shorter closed))
  case h_4 => cases read

theorem expectDot_ok (read : expectDot tokens = .ok rest) : tokens = .dot :: rest := by
  unfold expectDot at read
  split at read
  · cases read
    rfl
  · cases read

/-- What a rule is read from: its first formula, its tail and the dot. -/
theorem readRule_iff : readRule tokens acc = .ok (rule, rest) ↔
    ∃ left behind, balanced tokens 1 [] = .ok (left, behind) ∧ ruleTail left behind acc = .ok (rule, .dot :: rest) := by
  constructor
  · intro read
    obtain ⟨⟨left, behind⟩, closed, read⟩ := bind_ok_iff.mp read
    obtain ⟨⟨rule, behind'⟩, tailed, read⟩ := bind_ok_iff.mp read
    obtain ⟨rest, dotted, same⟩ := bind_ok_iff.mp read
    cases same
    exact ⟨left, behind, closed, expectDot_ok dotted ▸ tailed⟩
  · rintro ⟨left, behind, closed, tailed⟩
    exact bind_ok_iff.mpr ⟨_, closed, bind_ok_iff.mpr ⟨_, tailed, rfl⟩⟩

theorem readRule_append (read : readRule tokens acc = .ok (rule, rest)) (more : List Token) :
    readRule (tokens ++ more) acc = .ok (rule, rest ++ more) := by
  obtain ⟨left, behind, closed, tailed⟩ := readRule_iff.mp read
  exact readRule_iff.mpr ⟨left, behind ++ more, balanced_append closed more, ruleTail_append tailed more⟩

theorem readRule_shorter (read : readRule tokens acc = .ok (rule, rest)) : rest.length < tokens.length := by
  obtain ⟨left, behind, closed, tailed⟩ := readRule_iff.mp read
  exact (Nat.lt_succ_self _).trans ((ruleTail_shorter tailed).trans (balanced_shorter closed))

/-- What a statement does: it declares a label that was not declared, or it states a rule. -/
theorem statementTurn_next (taken : statementTurn tokens acc = .next rest after) :
    (∃ label iri, tokens = .directive (utf8 "@prefix") :: .pname label [] :: .iri iri :: .dot :: rest ∧
      acc.labels.lookup label = none ∧ after = { acc with labels := (label, iri) :: acc.labels }) ∨
    ∃ behind rule, tokens = .lbrace :: behind ∧ readRule behind acc = .ok (rule, rest) ∧
      after = { acc with rules := rule :: acc.rules, iris := rule.iris ++ acc.iris } := by
  unfold statementTurn at taken
  split at taken
  case h_1 => cases taken
  case h_2 word behind =>
    unfold labelStatement at taken
    split at taken
    case h_1 label iri rest =>
      split at taken
      case isTrue named =>
        split at taken
        case isTrue => cases taken
        case isFalse new =>
          cases taken
          exact .inl ⟨label, iri, by rw [named], Option.not_isSome_iff_eq_none.mp new, rfl⟩
      case isFalse => cases taken
    case h_2 => cases taken
  case h_3 behind =>
    unfold ruleStatement at taken
    split at taken
    case h_1 rule rest read =>
      cases taken
      exact .inr ⟨behind, rule, rfl, read, rfl⟩
    case h_2 => cases taken
  case h_4 => cases taken

theorem statementTurn_label {label iri : Bytes} (new : acc.labels.lookup label = none) :
    statementTurn (.directive (utf8 "@prefix") :: .pname label [] :: .iri iri :: .dot :: rest) acc =
      .next rest { acc with labels := (label, iri) :: acc.labels } := by
  rw [statementTurn, labelStatement, if_pos rfl, new]
  rfl

theorem statementTurn_rule (read : readRule tokens acc = .ok (rule, rest)) :
    statementTurn (.lbrace :: tokens) acc =
      .next rest { acc with rules := rule :: acc.rules, iris := rule.iris ++ acc.iris } := by
  rw [statementTurn, ruleStatement, read]

theorem statementTurn_consuming : Consuming statementTurn := by
  intro tokens acc rest after taken
  obtain ⟨label, iri, rfl, -, -⟩ | ⟨behind, rule, rfl, read, -⟩ := statementTurn_next taken
  · simp only [List.length_cons]
    omega
  · exact Nat.lt_succ_of_lt (readRule_shorter read)

theorem statementTurn_extends : Extends statementTurn := by
  intro tokens acc rest after taken more
  obtain ⟨label, iri, rfl, new, rfl⟩ | ⟨behind, rule, rfl, read, rfl⟩ := statementTurn_next taken
  · exact statementTurn_label new
  · exact statementTurn_rule (readRule_append read more)

theorem statementTurn_ok {analysis : Analysis} (accepted : statementTurn tokens acc = .stop (.ok analysis)) :
    tokens = [] ∧ analysis = acc.analysis := by
  unfold statementTurn at accepted
  split at accepted
  case h_1 =>
    cases accepted
    exact ⟨rfl, rfl⟩
  case h_2 =>
    unfold labelStatement at accepted
    split at accepted
    · split at accepted
      · split at accepted <;> cases accepted
      · cases accepted
    · cases accepted
  case h_3 =>
    unfold ruleStatement at accepted
    split at accepted <;> cases accepted
  case h_4 => cases accepted

theorem statements_steps {analysis : Analysis} (read : statements tokens acc = some (.ok analysis)) :
    ∃ last, Steps statementTurn tokens acc [] last ∧ analysis = last.analysis := by
  obtain ⟨rest, last, steps, stopped⟩ := run_steps read
  obtain ⟨rfl, same⟩ := statementTurn_ok stopped
  exact ⟨last, steps, same⟩

/-- Statements that follow others are read behind them. -/
theorem statements_append (steps : Steps statementTurn tokens acc [] last) (more : List Token) :
    statements (tokens ++ more) acc = statements more last :=
  Steps.run statementTurn_consuming (steps.append statementTurn_extends more)

/-! ## What is only added to -/

/-- The statements so far stay. -/
structure Grows (acc after : Acc) : Prop where
  rules : acc.rules <:+ after.rules
  labels : ∀ {label iri}, acc.labels.lookup label = some iri → after.labels.lookup label = some iri

/-- There is a rule or a label more. -/
def Grew (acc after : Acc) : Prop :=
  acc.rules.length < after.rules.length ∨ ∃ label, acc.labels.lookup label = none ∧ after.labels.lookup label ≠ none

theorem Grows.refl : Grows acc acc := ⟨List.suffix_rfl, id⟩

theorem Grows.trans (first : Grows acc after) (second : Grows after last) : Grows acc last :=
  ⟨first.rules.trans second.rules, fun known => second.labels (first.labels known)⟩

theorem Grew.trans (grew : Grew acc after) (grows : Grows after last) : Grew acc last := by
  obtain more | ⟨label, new, known⟩ := grew
  · exact .inl (more.trans_le grows.rules.length_le)
  · obtain ⟨iri, known⟩ := Option.ne_none_iff_exists'.mp known
    exact .inr ⟨label, new, fun gone => nomatch (grows.labels known).symm.trans gone⟩

theorem statementTurn_grows (taken : statementTurn tokens acc = .next rest after) : Grows acc after ∧ Grew acc after := by
  obtain ⟨label, iri, -, new, rfl⟩ | ⟨behind, rule, -, -, rfl⟩ := statementTurn_next taken
  · refine ⟨⟨List.suffix_rfl, fun {other space} known => ?_⟩, .inr ⟨label, new, by simp⟩⟩
    have different : other ≠ label := by
      rintro rfl
      cases new.symm.trans known
    rw [List.lookup_cons, beq_eq_false_iff_ne.mpr different]
    exact known
  · exact ⟨⟨List.suffix_cons rule acc.rules, id⟩, .inl (Nat.lt_succ_self _)⟩

theorem steps_grow (steps : Steps statementTurn tokens acc rest last) : Grows acc last ∧ (tokens = rest ∨ Grew acc last) := by
  induction steps with
  | refl => exact ⟨.refl, .inl rfl⟩
  | step taken _ ih =>
    obtain ⟨grows, grew⟩ := statementTurn_grows taken
    exact ⟨grows.trans ih.1, .inr (grew.trans ih.1)⟩

/-! ## The denial -/

/-- The rules and the labels that are left, with one denial behind the rules. -/
structure OnlyDenial (admitted parsed : Analysis) : Prop where
  rules : ∃ denial, denial.kind = .denial ∧ parsed.rules = admitted.rules ++ [denial]
  labels : ∀ label, parsed.labels.lookup label = admitted.labels.lookup label

def closing : List Token := [.rbrace, .implies, .boolean false, .dot]

theorem readRule_closing (nested : nesting 0 inner = some 0) (read : readRule (inner ++ closing) acc = .ok (rule, rest)) :
    rule.kind = .denial ∧ rest = [] := by
  obtain ⟨left, behind, closed, tailed⟩ := readRule_iff.mp read
  have same : balanced (inner ++ closing) 1 [] = .ok (inner, [.implies, .boolean false, .dot]) :=
    balanced_iff.mpr ⟨inner, rfl, rfl, nested⟩
  cases same.symm.trans closed
  obtain ⟨body, -, made⟩ := bind_ok_iff.mp tailed
  cases made
  exact ⟨rfl, rfl⟩

theorem readRule_denial (read : readRule tokens acc = .ok (rule, [])) (denial : rule.kind = .denial) :
    ∃ inner, tokens = inner ++ closing ∧ nesting 0 inner = some 0 := by
  obtain ⟨left, behind, closed, tailed⟩ := readRule_iff.mp read
  obtain ⟨own, -, rfl, nested⟩ := balanced_iff.mp closed
  refine ⟨own, ?_, nested⟩
  unfold ruleTail at tailed
  split at tailed
  case h_1 rest =>
    obtain ⟨body, -, same⟩ := bind_ok_iff.mp tailed
    cases same
    rfl
  case h_2 tokens =>
    obtain ⟨⟨right, rest⟩, -, tailed⟩ := bind_ok_iff.mp tailed
    obtain ⟨body, -, tailed⟩ := bind_ok_iff.mp tailed
    obtain ⟨head, -, same⟩ := bind_ok_iff.mp tailed
    cases same
    cases denial
  case h_3 tokens =>
    obtain ⟨⟨right, rest⟩, -, tailed⟩ := bind_ok_iff.mp tailed
    obtain ⟨head, -, tailed⟩ := bind_ok_iff.mp tailed
    obtain ⟨body, -, same⟩ := bind_ok_iff.mp tailed
    cases same
    cases denial
  case h_4 => cases tailed

/-- The statement behind the rules is the only one, and it is a denial, just where its brace is closed last. -/
theorem onlyDenial_iff {parsed : Analysis} (read : statements (.lbrace :: tokens) acc = some (.ok parsed)) :
    OnlyDenial acc.analysis parsed ↔ ∃ inner, tokens = inner ++ closing ∧ nesting 0 inner = some 0 := by
  obtain ⟨last, steps, rfl⟩ := statements_steps read
  cases steps with
  | step taken steps =>
  obtain ⟨label, iri, same, -, -⟩ | ⟨behind, rule, same, stated, rfl⟩ := statementTurn_next taken
  · cases same
  cases same
  obtain ⟨grows, ended⟩ := steps_grow steps
  constructor
  · rintro ⟨⟨denial, kind, rules⟩, labels⟩
    have whole : last.rules = denial :: acc.rules := by
      rw [← List.reverse_inj, List.reverse_cons]
      exact rules
    have only : rule = denial := by
      have rules := grows.rules
      rw [whole] at rules
      exact (List.cons.inj (rules.eq_of_length rfl)).1
    obtain rfl | grew | ⟨label, new, known⟩ := ended
    · exact readRule_denial stated (only ▸ kind)
    · rw [whole] at grew
      exact absurd grew (lt_irrefl _)
    · exact absurd ((labels label).trans new) known
  · rintro ⟨inner, rfl, nested⟩
    obtain ⟨denial, rfl⟩ := readRule_closing nested stated
    cases steps with
    | refl => exact ⟨⟨rule, denial, List.reverse_cons⟩, fun label => rfl⟩
    | step further _ => cases further

theorem analyze_of_check {document : Bytes} {analysis : Analysis} (checked : check document = some (.ok analysis)) :
    analyze document = some (.ok analysis) := by
  obtain ⟨analyzed, made, passed⟩ := Option.map_eq_some_iff.mp checked
  obtain ⟨found, rfl, checks⟩ := bind_ok_iff.mp passed
  obtain ⟨_, -, checks⟩ := bind_ok_iff.mp checks
  obtain ⟨_, -, checks⟩ := bind_ok_iff.mp checks
  obtain ⟨_, -, same⟩ := bind_ok_iff.mp checks
  cases same
  exact made

theorem analyze_ok {document : Bytes} {analysis : Analysis} (made : analyze document = some (.ok analysis)) :
    ∃ tokens, tokenize document [] = some (.ok tokens) ∧ statements tokens {} = some (.ok analysis) := by
  obtain ⟨reading, read, stated⟩ := Option.bind_eq_some_iff.mp made
  cases reading with
  | error failure => cases stated
  | ok tokens => exact ⟨tokens, read, stated⟩

end RuleDocument

/-! ## The query -/

open RuleDocument

section Query
variable {host : Host} {admittedRules : List String} {program : Program} {witness : Bytes} {call : Call}

namespace Asked
variable {α β : Type} {asked : Asked α} {next : α → Asked β}

theorem mem_bind : call ∈ (asked >>= next).calls ↔
    call ∈ asked.calls ∨ ∃ value, asked.result = some (.ok value) ∧ call ∈ (next value).calls := by
  obtain ⟨calls, result⟩ := asked
  show call ∈ (Asked.bind _ _).calls ↔ _
  rw [Asked.bind]
  dsimp only
  split <;> simp

theorem bind_result {value : β} : (asked >>= next).result = some (.ok value) ↔
    ∃ middle, asked.result = some (.ok middle) ∧ (next middle).result = some (.ok value) := by
  obtain ⟨calls, result⟩ := asked
  show (Asked.bind _ _).result = _ ↔ _
  rw [Asked.bind]
  dsimp only
  split <;> simp

end Asked

/-- The document in which the query is put to the engine. -/
def queryCall (program : Program) (witness : Bytes) : Call :=
  ⟨program.facts ++ utf8 "\n" ++ query program witness, program.facts⟩

theorem close_ok {closure : Closure} (closed : (close host admittedRules program).result = some (.ok closure)) :
    ∃ analysis, check program.rules = some (.ok analysis) := by
  obtain ⟨graph, -, closed⟩ := Asked.bind_result.mp closed
  obtain ⟨_, -, closed⟩ := Asked.bind_result.mp closed
  obtain ⟨analysis, shaped, -⟩ := Asked.bind_result.mp closed
  obtain ⟨checked, made, same⟩ := Option.map_eq_some_iff.mp shaped
  cases checked with
  | error failure => cases same
  | ok analysis => exact ⟨analysis, made⟩

theorem close_calls (asked : call ∈ (close host admittedRules program).calls) :
    call.document = program.facts ++ utf8 "\n" ++ program.rules := by
  obtain none | ⟨graph, -, asked⟩ := Asked.mem_bind.mp asked
  · cases none
  obtain none | ⟨_, -, asked⟩ := Asked.mem_bind.mp asked
  · cases none
  obtain none | ⟨analysis, -, asked⟩ := Asked.mem_bind.mp asked
  · cases none
  obtain here | ⟨run, -, asked⟩ := Asked.mem_bind.mp asked
  · rw [List.mem_singleton.mp here]
  · cases asked

/-- The engine is only given a query that was checked. -/
theorem passed_checked (passed : queryCall program witness ∈ (entails host admittedRules program witness).calls) :
    (∃ admitted, check program.rules = some (.ok admitted)) ∧
      ∃ parsed, check (query program witness) = some (.ok parsed) := by
  obtain own | ⟨closure, closed, passed⟩ := Asked.mem_bind.mp passed
  · -- the document of the closure itself is shorter
    have size := congrArg List.length (close_calls own)
    simp only [queryCall, query, List.length_append] at size
    have one : (utf8 "\n\x7b ").length = 3 := rfl
    omega
  refine ⟨close_ok closed, ?_⟩
  obtain none | ⟨_, shaped, -⟩ := Asked.mem_bind.mp passed
  · cases none
  obtain ⟨checked, made, same⟩ := Option.map_eq_some_iff.mp shaped
  cases checked with
  | error failure => cases same
  | ok parsed => exact ⟨parsed, made⟩

/-- The law of an entailment query: its document parses to the admitted rules and one denial. -/
def AdmittedOnly (program : Program) (witness : Bytes) : Prop :=
  ∃ admitted parsed, analyze program.rules = some (.ok admitted) ∧
    analyze (query program witness) = some (.ok parsed) ∧ OnlyDenial admitted parsed

/-- No token of the witness closes the brace that is opened for it. -/
def Enclosed (witness : Bytes) : Prop :=
  ∃ inner, tokenize (witness ++ utf8 " \x7d => false .\n") [.lbrace] = some (.ok (.lbrace :: inner ++ closing)) ∧
    nesting 0 inner = some 0

/-- The tokens of the query are those of the rules and those of the wrapped witness. -/
theorem query_tokens {own all : List Token} (read : tokenize program.rules [] = some (.ok own))
    (readAll : tokenize (query program witness) [] = some (.ok all)) :
    ∃ tokens, tokenize (witness ++ utf8 " \x7d => false .\n") [.lbrace] = some (.ok (.lbrace :: tokens)) ∧
      all = own ++ .lbrace :: tokens := by
  let wrapped := witness ++ utf8 " \x7d => false .\n"
  have line : query program witness = program.rules ++ 0x0a :: 0x7b :: 0x20 :: wrapped := by
    have opening : utf8 "\n\x7b " = [0x0a, 0x7b, 0x20] := rfl
    simp only [query, wrapped, opening, List.append_assoc, List.cons_append, List.nil_append]
  have behind : tokenize (0x7b :: 0x20 :: wrapped) own.reverse = some (.ok all) := tokenize_line read (line ▸ readAll)
  have opened : tokenize wrapped ([.lbrace] ++ own.reverse) = some (.ok all) :=
    ((run_next tokenTurn_consuming rfl).trans (run_next tokenTurn_consuming rfl)).symm.trans behind
  rw [tokenize_base (List.cons_ne_nil _ _), List.reverse_reverse] at opened
  obtain ⟨reading, alone, mapped⟩ := Option.map_eq_some_iff.mp opened
  cases reading with
  | error failure => cases mapped
  | ok tokens =>
    cases mapped
    obtain ⟨tokens, rfl⟩ := tokenize_start (List.cons_ne_nil _ _) alone
    exact ⟨tokens, alone, rfl⟩

theorem admittedOnly_iff_enclosed (passed : queryCall program witness ∈ (entails host admittedRules program witness).calls) :
    AdmittedOnly program witness ↔ Enclosed witness := by
  obtain ⟨⟨admitted, checked⟩, parsed, queried⟩ := passed_checked passed
  have analyzed := analyze_of_check checked
  have asked := analyze_of_check queried
  obtain ⟨own, read, stated⟩ := analyze_ok analyzed
  obtain ⟨all, readAll, statedAll⟩ := analyze_ok asked
  obtain ⟨acc, steps, rfl⟩ := statements_steps stated
  obtain ⟨tokens, wrapped, rfl⟩ := query_tokens read readAll
  rw [statements_append steps] at statedAll
  have law := onlyDenial_iff statedAll
  constructor
  · rintro ⟨admitted, found, made, madeAll, only⟩
    cases analyzed.symm.trans made
    cases asked.symm.trans madeAll
    obtain ⟨inner, rfl, nested⟩ := law.mp only
    exact ⟨inner, wrapped, nested⟩
  · rintro ⟨inner, read, nested⟩
    cases wrapped.symm.trans read
    exact ⟨_, _, analyzed, asked, law.mpr ⟨inner, rfl, nested⟩⟩

end Query

/-! ## A program of one denial -/

def single : Program where
  facts := utf8 "<a:a> <e:p> <a:c> ."
  rules := utf8 "@prefix e: <e:> .\n\x7b ?x e:q ?x \x7d => false ."

/-- Nothing is derived from its facts, and nothing is denied. -/
def singleHost : Host where
  sha256Hex bytes :=
    if bytes = single.rules then "e408322533a5b861f16699dc7d1de014c212c8ada43810f4fbb1f23106596ef1"
    else "7ce5144ac37d47d519c2a7341b7885f8a87d44a8004d9e5d0589cbfe6a2a2da8"
  turtleGraph _ := .ok [(utf8 "a:a", utf8 "e:p", utf8 "a:c")]
  engine _ _ := .ok ⟨0, false, 0⟩

def asking : Bytes := utf8 "?x e:r ?y"

/-- It closes its brace and adds a rule. -/
def closingWitness : Bytes := utf8 "?x e:r ?y \x7d => \x7b ?y e:r ?x \x7d . \x7b ?x e:r ?y"

theorem single_asks : AdmittedOnly single asking ↔ Enclosed asking :=
  admittedOnly_iff_enclosed (by decide :
    queryCall single asking ∈ (entails singleHost [singleHost.sha256Hex single.rules] single asking).calls)

/-- The witness that is passed on adds a rule to those that were admitted. -/
theorem not_every_query_admittedOnly :
    ¬ ∀ (host : Host) (admittedRules : List String) (program : Program) (witness : Bytes),
      queryCall program witness ∈ (entails host admittedRules program witness).calls → AdmittedOnly program witness := by
  intro law
  obtain ⟨admitted, parsed, made, asked, only⟩ := law singleHost [singleHost.sha256Hex single.rules] single closingWitness
    (by decide)
  obtain ⟨denial, -, rules⟩ := only.rules
  have one : (analyze single.rules).map (·.map (·.rules.length)) = some (.ok 1) := by decide
  have three : (analyze (query single closingWitness)).map (·.map (·.rules.length)) = some (.ok 3) := by decide
  rw [made] at one
  rw [asked] at three
  have one : admitted.rules.length = 1 := Except.ok.inj (Option.some.inj one)
  have three : parsed.rules.length = 3 := Except.ok.inj (Option.some.inj three)
  rw [rules, List.length_append, one] at three
  cases three

end AshA2A.Semantic.LogicClosure
