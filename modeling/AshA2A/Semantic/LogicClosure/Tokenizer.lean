import AshA2A.Passport.Encoding
import AshA2A.Scan
import Mathlib.Data.Finset.Basic
import Mathlib.Data.List.DropRight

/-! The tokens of a rule document, which is read byte by byte. -/

namespace AshA2A.Semantic.LogicClosure.RuleDocument
open Scan

inductive Token where
  | directive (word : Bytes)
  | pname (label name : Bytes)
  | iri (iri : Bytes)
  | var (name : Bytes)
  | boolean (value : Bool)
  | a | sameAs | bnode | literal | datatype
  | implies | backward
  | lbrace | rbrace | lparen | rparen | lbracket | rbracket
  | dot | semicolon | comma
  deriving DecidableEq, Repr

inductive Code where
  | ruleDocumentUnclassifiable | ruleNotRangeRestricted | ruleNotFunctionFree | unadmittedBuiltin
  | hookInRuleDocument
  deriving DecidableEq, Repr

inductive FunctionTerm where
  | blankNode | list | formula
  deriving DecidableEq, Repr

/-- What the text of a failure names. -/
inductive Reason where
  | relativeIri (iri : Bytes)
  | unrecognisedIri (near : Bytes)
  | strayAt | malformedVariable | malformedBlankNodeLabel | malformedNumber
  | escapedLocalName
  | unrecognisedToken (word : Bytes)
  | unrecognisedInput (near : Bytes)
  | directiveNotAdmitted (word : Bytes)
  | unterminatedString | unterminatedLongString
  | declaredTwice (label : Bytes)
  | notARule (token : Token)
  | formulaNotFollowed (got : Option Token)
  | notTerminated (got : Option Token)
  | unbalanced
  | notDeclared (label : Bytes)
  | nestedImplication
  | directiveInside (word : Bytes)
  | hookVocabulary (iri : Bytes)
  | builtinNotAdmitted (iri : Bytes)
  | headVariables (index : Nat) (unbound : Finset Bytes)
  | headCreates (index : Nat) (terms : List FunctionTerm)
  deriving DecidableEq

structure Failure where
  code : Code
  reason : Reason
  deriving DecidableEq

def fail {α : Type} (code : Code) (reason : Reason) : Except Failure α := .error ⟨code, reason⟩

/-- Everything the tokenizer refuses is unclassifiable. -/
def unclassifiable {α : Type} (reason : Reason) : Except Failure α := fail .ruleDocumentUnclassifiable reason

/-! ## Characters -/

def isSpace (byte : UInt8) : Bool := byte = 0x20 ∨ byte = 0x09 ∨ byte = 0x0d ∨ byte = 0x0a

def isLetter (byte : UInt8) : Bool := (0x41 ≤ byte ∧ byte ≤ 0x5a) ∨ (0x61 ≤ byte ∧ byte ≤ 0x7a)

def isDigit (byte : UInt8) : Bool := 0x30 ≤ byte ∧ byte ≤ 0x39

def isOneOf (chars : String) (byte : UInt8) : Bool := byte ∈ utf8 chars

/-- `[A-Za-z0-9_]` -/
def isWordStart (byte : UInt8) : Bool := isLetter byte || isDigit byte || isOneOf "_" byte

/-- `[A-Za-z0-9_\-]` -/
def isWord (byte : UInt8) : Bool := isWordStart byte || isOneOf "-" byte

/-- `[^<>"\x7b\x7d|^` and backtick, backslash, controls and blanks `]` -/
def isIri (byte : UInt8) : Bool :=
  0x20 < byte && !isOneOf "<>\"\x7b|\x7d^\\" byte && byte != 0x60

/-! ## UTF-8

A subject of a regular expression in the Unicode mode must be valid, or it raises. -/

namespace Utf8

def continues (byte : UInt8) : Bool := 0x80 ≤ byte ∧ byte ≤ 0xbf

/-- How many bytes a character has by its first byte. -/
def width (byte : UInt8) : Nat :=
  if byte < 0x80 then 1
  else if byte < 0xc2 then 0
  else if byte < 0xe0 then 2
  else if byte < 0xf0 then 3
  else if byte < 0xf5 then 4
  else 0

/-- The second byte keeps a character from being written too long, a surrogate or too large. -/
def second (byte next : UInt8) : Bool :=
  continues next ∧ (byte = 0xe0 → 0xa0 ≤ next) ∧ (byte = 0xed → next ≤ 0x9f) ∧
    (byte = 0xf0 → 0x90 ≤ next) ∧ (byte = 0xf4 → next ≤ 0x8f)

def following : Nat → Bytes → Option Bytes
  | 0, rest => some rest
  | _ + 1, [] => none
  | count + 1, byte :: rest => if continues byte then following count rest else none

/-- What follows the first character. -/
def char : Bytes → Option Bytes
  | [] => none
  | byte :: rest =>
    match width byte, rest with
    | 1, rest => some rest
    | count + 2, next :: rest => if second byte next then following count rest else none
    | _, _ => none

def turn (doc : Bytes) (_ : Unit) : Turn UInt8 Unit Bool :=
  if doc = [] then .stop true
  else
    match char doc with
    | some rest => .next rest ()
    | none => .stop false

def valid (doc : Bytes) : Bool := run turn doc () = some true

end Utf8

/-! ## Regular expressions

Each gives what its groups hold of the start of the document. -/

def startsWith (text : String) (doc : Bytes) : Bool := (utf8 text).isPrefixOf doc

def firstIs (keep : UInt8 → Bool) (doc : Bytes) : Bool := doc.head?.any keep

/-- `[...][...]*`, whose first character may be of another class. -/
def nameRe (start keep : UInt8 → Bool) (doc : Bytes) : Option Bytes :=
  if firstIs start doc then some (doc.takeWhile keep) else none

/-- A name that holds dots and does not end with one. -/
def dottedRe (start keep : UInt8 → Bool) (doc : Bytes) : Option Bytes :=
  (nameRe start (fun byte => keep byte || isOneOf "." byte) doc).map (·.rdropWhile (isOneOf "."))

/-- `@iri_re` -/
def iriRe (doc : Bytes) : Option Bytes :=
  let iri := doc.tail.takeWhile isIri
  if startsWith ">" (doc.tail.drop iri.length) then some iri else none

/-- `@pname_re` -/
def pnameRe (doc : Bytes) : Option (Bytes × Bytes) :=
  let label := (dottedRe isLetter isWord doc).getD []
  let rest := doc.drop label.length
  if startsWith ":" rest then
    let name := fun byte => isWord byte || isOneOf ":%" byte
    some (label, (dottedRe (fun byte => isWordStart byte || isOneOf ":%" byte) name rest.tail).getD [])
  else none

/-- `@var_re` -/
def varRe (doc : Bytes) : Option Bytes := nameRe isWordStart isWord doc.tail

/-- `@bnode_re` -/
def bnodeRe (doc : Bytes) : Option Bytes := dottedRe isWordStart isWord (doc.drop 2)

/-- `@word_re` -/
def wordRe (doc : Bytes) : Option Bytes := nameRe isLetter isWord doc

def signRe (doc : Bytes) : Bytes := if firstIs (isOneOf "+-") doc then doc.take 1 else []

/-- `(?:\.\d+)?` -/
def fractionRe (doc : Bytes) : Bytes :=
  if startsWith "." doc && firstIs isDigit doc.tail then doc.take 1 ++ doc.tail.takeWhile isDigit else []

/-- `(?:[eE][+-]?\d+)?` -/
def exponentRe (doc : Bytes) : Bytes :=
  if firstIs (isOneOf "eE") doc then
    let sign := signRe doc.tail
    let digits := (doc.tail.drop sign.length).takeWhile isDigit
    if digits = [] then [] else doc.take 1 ++ sign ++ digits
  else []

/-- `@number_re` -/
def numberRe (doc : Bytes) : Option Bytes :=
  let sign := signRe doc
  let rest := doc.drop sign.length
  let digits := rest.takeWhile isDigit
  let fraction := fractionRe (rest.drop digits.length)
  let exponent := exponentRe ((rest.drop digits.length).drop fraction.length)
  if digits = [] ∧ fraction = [] then none else some (sign ++ digits ++ fraction ++ exponent)

/-- `[A-Za-z][A-Za-z0-9+.\-]*:` -/
def absoluteIri (iri : Bytes) : Bool :=
  match nameRe isLetter (fun byte => isLetter byte || isDigit byte || isOneOf "+.-" byte) iri with
  | some scheme => startsWith ":" (iri.drop scheme.length)
  | none => false

/-! ## The tokenizer -/

abbrev Reading := Turn UInt8 (List Token) (Except Failure (List Token))

def skip (doc : Bytes) (whole : Nat) (token : Token) (acc : List Token) : Reading :=
  .next (doc.drop whole) (token :: acc)

/-- `Regex.run/2` in the Unicode mode. -/
def unicode (doc : Bytes) (reading : Reading) : Reading := if Utf8.valid doc then reading else .raise

def commentTurn (rest : Bytes) (acc : List Token) : Reading := .next ((behind (utf8 "\n") rest).getD []) acc

def longString (rest : Bytes) (delimiter : String) (acc : List Token) : Reading :=
  match behind (utf8 delimiter) rest with
  | some rest => .next rest (.literal :: acc)
  | none => .stop (unclassifiable .unterminatedLongString)

/-- One clause of `scan_string`. -/
def stringTurn (quote : UInt8) (doc : Bytes) (_ : Unit) : Turn UInt8 Unit (Option Bytes) :=
  match (if startsWith "\\" doc then Utf8.char doc.tail else none) with
  | some rest => .next rest ()
  | none =>
    if firstIs (· = quote) doc then .stop (some doc.tail)
    else if startsWith "\n" doc then .stop none
    else
      match Utf8.char doc with
      | some rest => .next rest ()
      | none => .stop none

def scanString (quote : UInt8) (doc : Bytes) : Option Bytes := (run (stringTurn quote) doc ()).join

def shortString (quote : UInt8) (rest : Bytes) (acc : List Token) : Reading :=
  match scanString quote rest with
  | some rest => .next rest (.literal :: acc)
  | none => .stop (unclassifiable .unterminatedString)

def iriTurn (doc : Bytes) (acc : List Token) : Reading :=
  unicode doc <|
    match iriRe doc with
    | some iri =>
      if absoluteIri iri then skip doc (iri.length + 2) (.iri iri) acc
      else .stop (unclassifiable (.relativeIri iri))
    | none => .stop (unclassifiable (.unrecognisedIri doc))

/-- `directive/3`; a language tag after a literal leaves no token. -/
def directive (word : Bytes) (rest : Bytes) (acc : List Token) : Reading :=
  if word = utf8 "@prefix" then .next rest (.directive word :: acc)
  else if acc.head? = some .literal then .next rest acc
  else .stop (unclassifiable (.directiveNotAdmitted word))

def atTurn (doc : Bytes) (acc : List Token) : Reading :=
  unicode doc.tail <|
    match wordRe doc.tail with
    | some word => directive (utf8 "@" ++ word) (doc.drop (word.length + 1)) acc
    | none => .stop (unclassifiable .strayAt)

def varTurn (doc : Bytes) (acc : List Token) : Reading :=
  unicode doc <|
    match varRe doc with
    | some name => skip doc (name.length + 1) (.var name) acc
    | none => .stop (unclassifiable .malformedVariable)

def bnodeTurn (doc : Bytes) (acc : List Token) : Reading :=
  unicode doc <|
    match bnodeRe doc with
    | some label => skip doc (label.length + 2) .bnode acc
    | none => .stop (unclassifiable .malformedBlankNodeLabel)

def dotTurn (doc : Bytes) (acc : List Token) : Reading :=
  match numberRe doc with
  | some whole => skip doc whole.length .literal acc
  | none => skip doc 1 .dot acc

def numberTurn (doc : Bytes) (acc : List Token) : Reading :=
  match numberRe doc with
  | some whole => skip doc whole.length .literal acc
  | none => .stop (unclassifiable .malformedNumber)

def wordTurn (doc : Bytes) (acc : List Token) : Reading :=
  match wordRe doc with
  | some word =>
    if word = utf8 "a" then skip doc word.length .a acc
    else if word = utf8 "true" then skip doc word.length (.boolean true) acc
    else if word = utf8 "false" then skip doc word.length (.boolean false) acc
    else .stop (unclassifiable (.unrecognisedToken word))
  | none => .stop (unclassifiable (.unrecognisedInput doc))

def nameTurn (doc : Bytes) (acc : List Token) : Reading :=
  unicode doc <|
    match pnameRe doc with
    | some (label, name) =>
      let whole := label.length + 1 + name.length
      if startsWith "\\" (doc.drop whole) then .stop (unclassifiable .escapedLocalName)
      else skip doc whole (.pname label name) acc
    | none => wordTurn doc acc

/-- The tokens that are one character. -/
def punctuation : List (String × Token) :=
  [("\x7b", .lbrace), ("\x7d", .rbrace), ("(", .lparen), (")", .rparen), ("[", .lbracket), ("]", .rbracket),
    (";", .semicolon), (",", .comma), ("=", .sameAs)]

/-- One clause of `tokenize`. -/
def tokenTurn (doc : Bytes) (acc : List Token) : Reading :=
  if doc = [] then .stop (.ok acc.reverse)
  else if firstIs isSpace doc then .next doc.tail acc
  else if startsWith "#" doc then commentTurn doc.tail acc
  else if startsWith "\"\"\"" doc then longString (doc.drop 3) "\"\"\"" acc
  else if startsWith "'''" doc then longString (doc.drop 3) "'''" acc
  else if startsWith "\"" doc then shortString 0x22 doc.tail acc
  else if startsWith "'" doc then shortString 0x27 doc.tail acc
  else if startsWith "=>" doc then skip doc 2 .implies acc
  else if startsWith "<=" doc && firstIs (fun byte => isSpace byte || isOneOf "\x7b" byte) (doc.drop 2) then
    skip doc 2 .backward acc
  else if startsWith "<" doc then iriTurn doc acc
  else if startsWith "^^" doc then skip doc 2 .datatype acc
  else
    match punctuation.find? fun entry => startsWith entry.1 doc with
    | some (_, token) => skip doc 1 token acc
    | none =>
      if startsWith "@" doc then atTurn doc acc
      else if startsWith "?" doc then varTurn doc acc
      else if startsWith "_:" doc then bnodeTurn doc acc
      else if startsWith "." doc then dotTurn doc acc
      else if firstIs (fun byte => isDigit byte || isOneOf "+-" byte) doc then numberTurn doc acc
      else nameTurn doc acc

/-- It has no value where it raises. -/
def tokenize (doc : Bytes) (acc : List Token) : Option (Except Failure (List Token)) := run tokenTurn doc acc

end AshA2A.Semantic.LogicClosure.RuleDocument
