import AshA2A.Semantic.LogicClosure.Tokenizer
import AshA2A.UniqueBy
import Mathlib.Data.Finset.Basic
import Mathlib.Data.List.Lex

/-! The shape recogniser of the rule documents: it reads their statements and checks each rule, and it
evaluates none. -/

namespace AshA2A.Semantic.LogicClosure.RuleDocument
open Scan UniqueBy

/-! ## Vocabulary -/

def swap : String := "http://www.w3.org/2000/10/swap/"

def builtinNamespaces : List String :=
  [swap, "http://eulersharp.sourceforge.net/2003/03swap/", "https://eyereasoner.github.io/",
    "http://www.w3.org/2007/rif-builtin-function#"]

def hookNamespaces : List String :=
  ["http://seanchatmangpt.github.io/praxis/kh#", "http://seanchatmangpt.github.io/praxis/hook#"]

def rdfType : String := "http://www.w3.org/1999/02/22-rdf-syntax-ns#type"

def owlSameAs : String := "http://www.w3.org/2002/07/owl#sameAs"

def pureBuiltins : List String :=
  let named := fun (family : String) (names : List String) => names.map fun name => swap ++ family ++ "#" ++ name
  named "crypto" ["md5", "sha", "sha256", "sha512"] ++
  named "list" ["append", "first", "firstRest", "in", "iterate", "last", "length", "member", "memberAt", "notMember",
    "remove", "rest", "reverse", "sort", "unique"] ++
  named "log" ["bound", "dtlit", "equalTo", "localName", "n3String", "notEqualTo", "rawType", "uri", "includes",
    "notIncludes", "collectAllIn", "forAllIn", "ifThenElseIn"] ++
  named "math" ["absoluteValue", "acos", "asin", "atan", "atan2", "ceiling", "cos", "difference", "equalTo",
    "exponentiation", "floor", "greaterThan", "lessThan", "logarithm", "max", "memberCount", "min", "negation",
    "notEqualTo", "notLessThan", "notGreaterThan", "product", "quotient", "remainder", "rounded", "sin", "sum", "tan",
    "integerQuotient"] ++
  named "string" ["concat", "contains", "containsIgnoringCase", "endsWith", "equalIgnoringCase", "notEqualIgnoringCase",
    "format", "greaterThan", "length", "lessThan", "matches", "notMatches", "replace", "scrape", "split", "startsWith",
    "substring", "toLowerCase", "toUpperCase"] ++
  named "time" ["day", "dayOfWeek", "hour", "inSeconds", "localTime", "minute", "month", "second", "timeZone", "year"]

/-! ## Statements -/

inductive Kind where
  | forward | backward | denial
  deriving DecidableEq, Repr

structure Rule where
  index : Nat
  kind : Kind
  bodyVars : Finset Bytes
  headVars : Finset Bytes
  headFunctionTerms : List FunctionTerm
  iris : List Bytes
  deriving DecidableEq

/-- The labels that are declared, the last one first. -/
abbrev Labels := List (Bytes × Bytes)

structure Analysis where
  rules : List Rule
  iris : List Bytes
  labels : Labels
  deriving DecidableEq

/-- What the statements so far left, the last rule first. -/
structure Acc where
  labels : Labels := []
  rules : List Rule := []
  iris : List Bytes := []

/-- Texts are sorted by their bytes. -/
def rank (text : Bytes) : List Nat := text.map UInt8.toNat

def Acc.analysis (acc : Acc) : Analysis where
  rules := acc.rules.reverse
  iris := sortBy rank (uniqBy id acc.iris)
  labels := acc.labels

/-- Variables, IRIs and function-creating terms inside one side of a rule. -/
structure Terms where
  vars : Finset Bytes := ∅
  iris : List Bytes := []
  functionTerms : List FunctionTerm := []

def termOf (labels : Labels) (acc : Terms) : Token → Except Failure Terms
  | .var name => .ok { acc with vars := insert name acc.vars }
  | .iri iri => .ok { acc with iris := iri :: acc.iris }
  | .pname label name =>
    match labels.lookup label with
    | some space => .ok { acc with iris := (space ++ name) :: acc.iris }
    | none => unclassifiable (.notDeclared label)
  | .a => .ok { acc with iris := utf8 rdfType :: acc.iris }
  | .sameAs => .ok { acc with iris := utf8 owlSameAs :: acc.iris }
  | .bnode | .lbracket => .ok { acc with functionTerms := .blankNode :: acc.functionTerms }
  | .lparen => .ok { acc with functionTerms := .list :: acc.functionTerms }
  | .lbrace => .ok { acc with functionTerms := .formula :: acc.functionTerms }
  | .implies | .backward => unclassifiable .nestedImplication
  | .directive word => unclassifiable (.directiveInside word)
  | _ => .ok acc

def terms (tokens : List Token) (labels : Labels) : Except Failure Terms := tokens.foldlM (termOf labels) {}

/-- The tokens inside of a formula whose braces are balanced, and what follows it. -/
def balanced : List Token → Nat → List Token → Except Failure (List Token × List Token)
  | [], _, _ => unclassifiable .unbalanced
  | .rbrace :: rest, depth, acc =>
    if depth = 1 then .ok (acc.reverse, rest) else balanced rest (depth - 1) (.rbrace :: acc)
  | .lbrace :: rest, depth, acc => balanced rest (depth + 1) (.lbrace :: acc)
  | token :: rest, depth, acc => balanced rest depth (token :: acc)

/-- `rule/3`, with its number. -/
def rule (index : Nat) (kind : Kind) (body head : Terms) : Rule where
  index
  kind
  bodyVars := body.vars
  headVars := head.vars
  headFunctionTerms := head.functionTerms
  iris := body.iris ++ head.iris

def ruleTail (left : List Token) (tokens : List Token) (acc : Acc) : Except Failure (Rule × List Token) :=
  match tokens with
  | .implies :: .boolean false :: rest => do
    let body ← terms left acc.labels
    pure (rule acc.rules.length .denial body {}, rest)
  | .implies :: .lbrace :: tokens => do
    let (right, rest) ← balanced tokens 1 []
    let body ← terms left acc.labels
    let head ← terms right acc.labels
    pure (rule acc.rules.length .forward body head, rest)
  | .backward :: .lbrace :: tokens => do
    let (right, rest) ← balanced tokens 1 []
    let head ← terms left acc.labels
    let body ← terms right acc.labels
    pure (rule acc.rules.length .backward body head, rest)
  | rest => unclassifiable (.formulaNotFollowed rest.head?)

def expectDot : List Token → Except Failure (List Token)
  | .dot :: rest => .ok rest
  | rest => unclassifiable (.notTerminated rest.head?)

abbrev Statement := Turn Token Acc (Except Failure Analysis)

def labelStatement (word : Bytes) (tokens : List Token) (acc : Acc) : Statement :=
  match tokens with
  | .pname label [] :: .iri iri :: .dot :: rest =>
    if word = utf8 "@prefix" then
      if (acc.labels.lookup label).isSome then .stop (unclassifiable (.declaredTwice label))
      else .next rest { acc with labels := (label, iri) :: acc.labels }
    else .stop (unclassifiable (.directiveNotAdmitted word))
  | _ => .stop (unclassifiable (.directiveNotAdmitted word))

/-- A rule behind its first brace. -/
def readRule (tokens : List Token) (acc : Acc) : Except Failure (Rule × List Token) := do
  let (left, rest) ← balanced tokens 1 []
  let (rule, rest) ← ruleTail left rest acc
  let rest ← expectDot rest
  pure (rule, rest)

def ruleStatement (tokens : List Token) (acc : Acc) : Statement :=
  match readRule tokens acc with
  | .ok (rule, rest) => .next rest { acc with rules := rule :: acc.rules, iris := rule.iris ++ acc.iris }
  | .error failure => .stop (.error failure)

/-- One clause of `statements`. -/
def statementTurn (tokens : List Token) (acc : Acc) : Statement :=
  match tokens with
  | [] => .stop (.ok acc.analysis)
  | .directive word :: rest => labelStatement word rest acc
  | .lbrace :: rest => ruleStatement rest acc
  | token :: _ => .stop (unclassifiable (.notARule token))

def statements (tokens : List Token) (acc : Acc) : Option (Except Failure Analysis) := run statementTurn tokens acc

/-- It has no value where it raises, as every function below. -/
def analyze (document : Bytes) : Option (Except Failure Analysis) :=
  (tokenize document []).bind fun
    | .ok tokens => statements tokens {}
    | .error failure => some (.error failure)

/-! ## Rule-level checks -/

def inside (spaces : List String) (iri : Bytes) : Bool := spaces.any fun space => startsWith space iri

def checkHooks (analysis : Analysis) : Except Failure Unit :=
  match analysis.iris.find? (inside hookNamespaces) with
  | none => .ok ()
  | some iri => fail .hookInRuleDocument (.hookVocabulary iri)

def offends (iri : Bytes) : Bool := inside builtinNamespaces iri && iri ∉ pureBuiltins.map utf8

def checkBuiltins (analysis : Analysis) : Except Failure Unit :=
  match analysis.iris.find? offends with
  | none => .ok ()
  | some iri => fail .unadmittedBuiltin (.builtinNotAdmitted iri)

def checkRule (rule : Rule) : Except Failure Unit :=
  if rule.headVars \ rule.bodyVars ≠ ∅ then
    fail .ruleNotRangeRestricted (.headVariables rule.index (rule.headVars \ rule.bodyVars))
  else if rule.headFunctionTerms ≠ [] then
    fail .ruleNotFunctionFree (.headCreates rule.index (uniqBy id rule.headFunctionTerms))
  else .ok ()

def checkRules (analysis : Analysis) : Except Failure Unit := analysis.rules.forM checkRule

def check (document : Bytes) : Option (Except Failure Analysis) :=
  (analyze document).map fun analyzed => do
    let analysis ← analyzed
    checkHooks analysis
    checkBuiltins analysis
    checkRules analysis
    pure analysis

end AshA2A.Semantic.LogicClosure.RuleDocument
