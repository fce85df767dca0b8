import AshA2A.Outcome
import AshA2A.Semantic.BnodeLabel
import AshA2A.Value
import Mathlib.Data.List.Dedup

/-! Triples as N-Triples and as Turtle: every term is classified at its place and then escaped. -/

namespace AshA2A.Semantic.Serialize

open BnodeLabel (within hexDigits encodeBnodeLabel)

inductive Position where
  | subject | predicate | object
  deriving Repr, DecidableEq

inductive Site where
  | term (position : Position)
  | datatype
  deriving Repr, DecidableEq

inductive Reason where
  | notUtf8 | notAbsolute | irirefForbiddenCharacter
  deriving Repr, DecidableEq

inductive Refusal where
  | malformedTriple (detail : Value)
  | invalidIri (reason : Reason) (position : Site) (detail : Bytes)
  | bnodeInPredicate (detail : Bytes)
  | invalidBnodeLabel (reason : Reason) (position : Position) (detail : Bytes)
  | literalOutOfObjectPosition (position : Position) (detail : Bytes)
  | invalidLanguageTag (detail : Value)
  | invalidDatatype (detail : Value)
  | unsupportedTerm (position : Position) (detail : Value)
  deriving Repr

inductive Fault where
  | refused (refusal : Refusal)
  | raised
  deriving Repr

def refuse {α : Type} (refusal : Refusal) : Except Fault α := .error (.refused refusal)

/-! ## Characters -/

/-- `String.to_charlist/1`: none where it raises. -/
def charlist (bytes : Bytes) : Option (List Char) := (String.fromUTF8? ⟨bytes.toArray⟩).map String.toList

def encoded (chars : List Char) : Bytes := chars.flatMap String.utf8EncodeChar

def isLetter (byte : UInt8) : Bool := 0x41 ≤ byte && byte ≤ 0x5A || 0x61 ≤ byte && byte ≤ 0x7A

def isDigit (byte : UInt8) : Bool := 0x30 ≤ byte && byte ≤ 0x39

def isAlphanumeric (byte : UInt8) : Bool := isLetter byte || isDigit byte

def isSchemeByte (byte : UInt8) : Bool := isAlphanumeric byte || byte = 0x2B || byte = 0x2E || byte = 0x2D

def isLocalByte (byte : UInt8) : Bool := isAlphanumeric byte || byte = 0x5F || byte = 0x2D

/-- White space that is not ASCII. -/
def wideSpace (char : Char) : Bool :=
  char.toNat = 0x85 || char.toNat = 0xA0 || char.toNat = 0x1680 || char.toNat = 0x180E || within 0x2000 0x200A char ||
    within 0x2028 0x2029 char || char.toNat = 0x202F || char.toNat = 0x205F || char.toNat = 0x3000

/-- The class `\s`, read as Unicode. -/
def space (char : Char) : Bool := within 0x09 0x0D char || char.toNat = 0x20 || wideSpace char

def iriForbidden : List Char := ['<', '>', '"', '\x7b', '\x7d', '|', '^', '\x60', '\\']

/-! ## Patterns -/

/-- `^[A-Za-z][A-Za-z0-9+.\-]*:`. -/
def schemeRe : Bytes → Bool
  | [] => false
  | first :: rest => isLetter first && (rest.dropWhile isSchemeByte).head? = some 0x3A

/-- At the end of a pattern `$` also stands before a last line feed. -/
def untilEnd (pattern : Bytes → Bool) (bytes : Bytes) : Bool :=
  pattern bytes || bytes.getLast? = some 0x0A && pattern bytes.dropLast

def subtag (fits : UInt8 → Bool) (part : Bytes) : Bool := part ≠ [] && part.length ≤ 8 && part.all fits

/-- `[a-zA-Z]{1,8}(-[a-zA-Z0-9]{1,8})*`. -/
def subtags (bytes : Bytes) : Bool :=
  match bytes.splitOn 0x2D with
  | [] => false
  | primary :: others => subtag isLetter primary && others.all (subtag isAlphanumeric)

def langtagRe : Bytes → Bool := untilEnd subtags

/-- `[A-Za-z_][A-Za-z0-9_\-]*`. -/
def localName : Bytes → Bool
  | [] => false
  | first :: rest => (isLetter first || first = 0x5F) && rest.all isLocalByte

def safePnLocalRe : Bytes → Bool := untilEnd localName

def classifyIri (value : Bytes) : Option Reason :=
  match charlist value with
  | none => some .notUtf8
  | some chars =>
    if ! schemeRe value then some .notAbsolute
    else if chars.any fun char => space char || iriForbidden.contains char then some .irirefForbiddenCharacter
    else none

/-! ## Terms -/

inductive Decoration where
  | language (tag : Bytes)
  | datatype (iri : Bytes)
  deriving Repr, DecidableEq

inductive Canonical where
  | iri (iri : Bytes)
  | bnode (label : Bytes)
  | literal (value : Bytes) (decoration : Option Decoration)
  deriving Repr, DecidableEq

def isList : Value → Bool
  | .list _ | .improper _ _ => true
  | _ => false

def keyed (name : String) : Value → Bool
  | .tuple (.atom own :: _) => own = name
  | _ => false

/-- `Keyword.get/2`: an entry that is no pair raises, and so does the end of a list that is none. -/
def keywordGet (options : Value) (name : String) : Except Fault Value :=
  match options with
  | .list items =>
    match items.find? (keyed name) with
    | none => .ok .nil
    | some (.tuple [_, value]) => .ok value
    | some _ => .error .raised
  | .improper items _ =>
    match items.find? (keyed name) with
    | some (.tuple [_, value]) => .ok value
    | _ => .error .raised
  | _ => .error .raised

def iriAt (iri : Bytes) (position : Position) : Except Fault Canonical :=
  match classifyIri iri with
  | none => .ok (.iri iri)
  | some reason => refuse (.invalidIri reason (.term position) iri)

def bnodeAt (label : Bytes) (position : Position) : Except Fault Canonical :=
  if position = .predicate then refuse (.bnodeInPredicate label)
  else if (charlist label).isNone then refuse (.invalidBnodeLabel .notUtf8 position label)
  else .ok (.bnode label)

def datatypeOf (options : Value) : Except Fault (Option Decoration) := do
  let datatype ← keywordGet options "datatype"
  if datatype.falsy then return none
  match datatype with
  | .binary iri =>
    match classifyIri iri with
    | none => return some (.datatype iri)
    | some reason => refuse (.invalidIri reason .datatype iri)
  | other => refuse (.invalidDatatype other)

def decorationOf (options : Value) : Except Fault (Option Decoration) := do
  let language ← keywordGet options "language"
  if language.falsy then datatypeOf options
  else match language with
    | .binary tag => if langtagRe tag then return some (.language tag) else refuse (.invalidLanguageTag language)
    | _ => refuse (.invalidLanguageTag language)

def literalAt (value : Bytes) (options : Value) (position : Position) : Except Fault Canonical :=
  if position = .object then (decorationOf options).map (.literal value)
  else refuse (.literalOutOfObjectPosition position value)

def term (value : Value) (position : Position) : Except Fault Canonical :=
  match value with
  | .tuple [.atom kind, .binary text] =>
    if kind = "iri" then iriAt text position
    else if kind = "bnode" then bnodeAt text position
    else if kind = "literal" then literalAt text (.list []) position
    else refuse (.unsupportedTerm position value)
  | .tuple [.atom kind, .binary text, options] =>
    if kind = "literal" ∧ isList options then literalAt text options position
    else refuse (.unsupportedTerm position value)
  | .binary text =>
    if position ≠ .object then iriAt text position
    else if (classifyIri text).isNone then .ok (.iri text)
    else .ok (.literal text none)
  | _ => refuse (.unsupportedTerm position value)

/-! ## Escaping -/

def uchar (char : Char) : List Char :=
  if char.toNat ≤ 0xFFFF then '\\' :: 'u' :: hexDigits 4 char.toNat else '\\' :: 'U' :: hexDigits 8 char.toNat

def iriChar (char : Char) : List Char :=
  if char.toNat ≤ 0x20 ∨ iriForbidden.contains char then uchar char else [char]

def literalChar (char : Char) : List Char :=
  if char = '\\' then ['\\', '\\']
  else if char = '"' then ['\\', '"']
  else if char.toNat = 0x0A then ['\\', 'n']
  else if char.toNat = 0x0D then ['\\', 'r']
  else if char.toNat = 0x09 then ['\\', 't']
  else if char.toNat = 0x08 then ['\\', 'b']
  else if char.toNat = 0x0C then ['\\', 'f']
  else if char.toNat ≤ 0x1F ∨ char.toNat = 0x7F ∨ within 0x80 0x9F char then uchar char
  else [char]

def escape (escaped : Char → List Char) (value : Bytes) : Except Fault Bytes :=
  match charlist value with
  | none => .error .raised
  | some chars => .ok (encoded (chars.flatMap escaped))

def escapeIri : Bytes → Except Fault Bytes := escape iriChar

def escapeLiteral : Bytes → Except Fault Bytes := escape literalChar

def bnodeText (label : Bytes) : Except Fault Bytes :=
  match charlist label with
  | none => .error .raised
  | some chars => .ok (utf8 "_:" ++ encoded (encodeBnodeLabel chars))

def angled (iri : Bytes) : Except Fault Bytes := (escapeIri iri).map fun text => utf8 "<" ++ text ++ utf8 ">"

def quoted (value : Bytes) : Except Fault Bytes := (escapeLiteral value).map fun text => utf8 "\"" ++ text ++ utf8 "\""

/-! ## N-Triples -/

def encodeTerm : Canonical → Except Fault Bytes
  | .iri iri => angled iri
  | .bnode label => bnodeText label
  | .literal value decoration => do
    let text ← quoted value
    match decoration with
    | some (.language tag) => return text ++ utf8 "@" ++ tag
    | some (.datatype iri) => return text ++ utf8 "^^" ++ (← angled iri)
    | none => return text

/-- A triple with all of its terms classified, and then written. -/
def tripleOf {α : Type} (encode : Canonical → Except Fault α) (triple : Value) : Except Fault (α × α × α) :=
  match triple.member "subject", triple.member "predicate", triple.member "object" with
  | some subject, some predicate, some object => do
    let subject ← term subject .subject
    let predicate ← term predicate .predicate
    let object ← term object .object
    let first ← encode subject
    let second ← encode predicate
    let third ← encode object
    return (first, second, third)
  | _, _, _ => refuse (.malformedTriple triple)

def lineOf (subject predicate object : Bytes) : Bytes :=
  subject ++ utf8 " " ++ predicate ++ utf8 " " ++ object ++ utf8 " .\n"

def encodeTriple (triple : Value) : Except Fault Bytes :=
  (tripleOf encodeTerm triple).map fun (subject, predicate, object) => lineOf subject predicate object

def toNtriples (triples : List Value) : Except Fault Bytes := (triples.mapM encodeTriple).map List.flatten

/-! ## Turtle -/

/-- A map from the names to the namespaces, in the order in which the runtime keeps it. -/
structure Prefixes where
  entries : List (Bytes × Bytes)
  keys : (entries.map Prod.fst).Nodup

/-- The vocabulary's namespaces and `xsd`. -/
def namespaces : List (String × String) :=
  [("a2a", "https://a2a-protocol.org/ontology#"), ("oa", "http://www.w3.org/ns/oa#"),
    ("odrl", "http://www.w3.org/ns/odrl/2/"), ("owl", "http://www.w3.org/2002/07/owl#"),
    ("prov", "http://www.w3.org/ns/prov#"), ("qudt", "http://qudt.org/schema/qudt/"),
    ("rdf", "http://www.w3.org/1999/02/22-rdf-syntax-ns#"), ("rdfs", "http://www.w3.org/2000/01/rdf-schema#"),
    ("sa2a-bp", "https://spec.seanchatmangpt.dev/sa2a/ontology/BP/"),
    ("sa2a-cap", "https://spec.seanchatmangpt.dev/sa2a/ontology/CAP/"),
    ("sa2a-evi", "https://spec.seanchatmangpt.dev/sa2a/ontology/EVI/"),
    ("sa2a-fnd", "https://spec.seanchatmangpt.dev/sa2a/ontology/FND/"), ("saref", "https://saref.etsi.org/core/"),
    ("schema", "https://schema.org/"), ("skos", "http://www.w3.org/2004/02/skos/core#"),
    ("sosa", "http://www.w3.org/ns/sosa/"), ("ssn", "http://www.w3.org/ns/ssn/"),
    ("time", "http://www.w3.org/2006/time#"), ("xsd", "http://www.w3.org/2001/XMLSchema#")]

def defaultPrefixes : Prefixes where
  entries := namespaces.map fun (name, namespace_) => (utf8 name, utf8 namespace_)
  keys := by decide

structure Options where
  prefixes : Prefixes := defaultPrefixes
  compact : Bool := true

/-- The longest namespace that leaves a plain name. -/
def compact (iri : Bytes) (prefixes : Prefixes) : Option (Bytes × Bytes) :=
  (prefixes.entries.mergeSort fun left right => right.2.length ≤ left.2.length).findSome? fun (name, namespace_) =>
    match iri.dropPrefix? namespace_ with
    | some rest => if rest ≠ [] ∧ safePnLocalRe rest then some (name, rest) else none
    | none => none

def turtleIri (options : Options) (iri : Bytes) : Except Fault (Bytes × List Bytes) :=
  match (if options.compact then compact iri options.prefixes else none) with
  | some (name, rest) => .ok (name ++ utf8 ":" ++ rest, [name])
  | none => (angled iri).map fun text => (text, [])

def turtleTerm (options : Options) : Canonical → Except Fault (Bytes × List Bytes)
  | .iri iri => turtleIri options iri
  | .bnode label => (bnodeText label).map fun text => (text, [])
  | .literal value decoration => do
    let text ← quoted value
    match decoration with
    | some (.language tag) => return (text ++ utf8 "@" ++ tag, [])
    | some (.datatype iri) =>
      let (datatype, used) ← turtleIri options iri
      return (text ++ utf8 "^^" ++ datatype, used)
    | none => return (text, [])

def turtleTriple (options : Options) (triple : Value) : Except Fault (Bytes × List Bytes) :=
  (tripleOf (turtleTerm options) triple).map fun (subject, predicate, object) =>
    (lineOf subject.1 predicate.1 object.1, subject.2 ++ (predicate.2 ++ object.2))

def prefixLine (prefixes : Prefixes) (name : Bytes) : Except Fault Bytes :=
  match prefixes.entries.lookup name with
  | none => .error .raised
  | some namespace_ => (angled namespace_).map fun text => utf8 "@prefix " ++ name ++ utf8 ": " ++ text ++ utf8 " .\n"

def toTurtle (triples : List Value) (options : Options) : Except Fault Bytes := do
  let lines ← triples.mapM (turtleTriple options)
  let used := (lines.flatMap Prod.snd).dedup
  let header ← (used.mergeSort fun left right => left ≤ right).mapM (prefixLine options.prefixes)
  let body := (lines.map Prod.fst).flatten
  return if header.flatten = [] then body else header.flatten ++ utf8 "\n" ++ body

end AshA2A.Semantic.Serialize
