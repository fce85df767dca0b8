import AshA2A.MarkedRuns
import AshA2A.UniqueBy
import AshA2A.Value

/-! The DLP filter: it finds the sensitive runs of a text, window by window, and puts a pseudonym in the place of
each. -/

namespace AshA2A.Security.DLPFilter
open UniqueBy Sa2aCrypto

/-! ## Configuration -/

structure Regex where
  source : String
  options : String := ""
  deriving DecidableEq, Repr

/-- Where a match or one of its groups stands; a group that took no part stands at -1. -/
structure Span where
  start : Int
  length : Int
  deriving DecidableEq, Repr

def Span.stop (span : Span) : Int := span.start + span.length

structure PhiPattern where
  id : Value
  pattern : Regex

def defaultPhiPatterns : List PhiPattern :=
  [⟨.atom "mrn", ⟨"(?i)\\bMRN[:#\\s]*[A-Z0-9][A-Z0-9-]\x7b5,\x7d", ""⟩⟩,
    ⟨.atom "patient_id",
      ⟨"(?i)\\b(?:patient|member)[\\s_-]*(?:id|no|number)[:#\\s]*[A-Z0-9][A-Z0-9-]\x7b5,\x7d", ""⟩⟩]

/-- A key that is shorter raises before a text is read. -/
structure Config where
  enabled : Bool := true
  key : Bytes
  long : 16 ≤ key.length
  entropyFloor : Rat := 7 / 2
  phiPatterns : List PhiPattern := defaultPhiPatterns

/-- What the filter takes from outside of it: the engine of the regular expressions with the groups of each match,
whether the entropy of a text meets a floor, HMAC-SHA256, and AES-256-GCM under a key, a nonce and further data. -/
structure Host where
  scan : Regex → Bytes → Option (List (List Span))
  dense : Bytes → Rat → Bool
  hmac : Bytes → Bytes → Bytes
  encrypt : Bytes → Bytes → Bytes → Bytes → Bytes × Bytes
  decrypt : Bytes → Bytes → Bytes → Bytes → Bytes → Option Bytes

inductive Kind where
  | pan | ssn | phi | apiKey
  deriving DecidableEq, Repr

structure Finding where
  kind : Kind
  span : Span
  pattern : Option Value := none

/-- `binary_part/3`, whose length may be negative. -/
def binaryPart (binary : Bytes) (start length : Int) : Option Bytes :=
  let first := min start (start + length)
  let last := max start (start + length)
  if 0 ≤ first ∧ last ≤ binary.length then some ((binary.drop first.toNat).take (last - first).toNat) else none

/-! ## Pseudonyms -/

namespace Pseudonym

def lead : Bytes := utf8 "dlt1_"

def typeCode : Kind → UInt8
  | .pan => 1
  | .ssn => 2
  | .apiKey => 3
  | .phi => 4

def codeType (code : UInt8) : Option Kind :=
  if code = 1 then some .pan
  else if code = 2 then some .ssn
  else if code = 3 then some .apiKey
  else if code = 4 then some .phi
  else none

def aad (code : UInt8) (name : Bytes) : Bytes :=
  if name = [] then utf8 "ASH_A2A_DLP" ++ [code] else utf8 "ASH_A2A_DLP" ++ code :: 0 :: name

/-- The name of a pattern is an atom or a binary. -/
def nameOf : Value → Option Bytes
  | .atom name => some (utf8 name)
  | .binary bytes => some bytes
  | _ => none

variable (host : Host)

def aesKey (key : Bytes) : Bytes := host.hmac key (utf8 "ash_a2a/dlp/aes-256-gcm")

def nonce (plaintext : Bytes) (code : UInt8) (key name : Bytes) : Bytes :=
  (host.hmac key (code :: name ++ 0 :: plaintext)).take 12

/-- What a token encodes. -/
def envelope (plaintext : Bytes) (code : UInt8) (key name : Bytes) : Bytes :=
  let nonce := nonce host plaintext code key name
  let (ciphertext, tag) := host.encrypt (aesKey host key) nonce plaintext (aad code name)
  code :: UInt8.ofNat name.length :: name ++ nonce ++ tag ++ ciphertext

def mint (plaintext : Bytes) (kind : Kind) (key name : Bytes) : Bytes :=
  lead ++ utf8 (Base64.encode (envelope host plaintext (typeCode kind) key name))

/-- It raises for a name of another type. -/
def token (plaintext : Bytes) (kind : Kind) (key : Bytes) (name : Value) : Option Bytes :=
  (nameOf name).map (mint host plaintext kind key)

def decode (token : Bytes) : Option Bytes :=
  if token.take lead.length = lead then
    Base64Url.decode (.ofList ((token.drop lead.length).map fun byte => Char.ofNat byte.toNat))
  else none

/-- What is sealed in the bytes of a token: a nonce has 12 of them and a tag has 16. -/
def opened (key : Bytes) : Bytes → Option (Bytes × Kind)
  | code :: length :: rest =>
    let name := rest.take length.toNat
    let body := rest.drop length.toNat
    if name.length = length.toNat ∧ 28 ≤ body.length then do
      let kind ← codeType code
      let plain ← host.decrypt (aesKey host key) (body.take 12) (body.drop 28) (aad code name) ((body.drop 12).take 16)
      pure (plain, kind)
    else none
  | _ => none

def reveal (token key : Bytes) : Option (Bytes × Kind) := (decode token).bind (opened host key)

end Pseudonym

/-! ## Detection -/

def isDigit (byte : UInt8) : Bool := 0x30 ≤ byte ∧ byte ≤ 0x39

/-- `~r/^\d+$/`, whose end may stand before a last line feed. -/
def onlyDigits (text : Bytes) : Bool :=
  let body := if text.getLast? = some 0x0a then text.dropLast else text
  body ≠ [] && body.all isDigit

namespace Luhn

def reverseSum : List Int → Int → Bool → Int
  | [], sum, _ => sum
  | char :: rest, sum, double =>
    let digit := char - 0x30
    let doubled := digit * 2
    reverseSum rest (sum + if double then (if doubled > 9 then doubled - 9 else doubled) else digit) !double

def valid (digits : Bytes) : Bool :=
  onlyDigits digits && (reverseSum (digits.map fun byte => (byte.toNat : Int)) 0 (digits.length % 2 = 0)).tmod 10 = 0

end Luhn

def pan : Regex := ⟨"(?<!\\d)(?:\\d[ -]?)\x7b12,18\x7d\\d(?!\\d)", ""⟩

def ssn : Regex := ⟨"(?<![\\d-])(?!000|666|9\\d\\d)\\d\x7b3\x7d-\\d\x7b2\x7d-\\d\x7b4\x7d(?![\\d-])", ""⟩

def entropyCandidate : Regex := ⟨"[A-Za-z][A-Za-z0-9_\\-+=\\/]\x7b19,\x7d", ""⟩

section Detection

variable (host : Host)

def scanned (regex : Regex) (text : Bytes) : Option (List Span) := (host.scan regex text).map List.flatten

/-- `Entropy.secret?/2` -/
def secret (candidate : Bytes) (entropyFloor : Rat) : Bool :=
  !Pseudonym.lead.isPrefixOf candidate && !onlyDigits candidate && host.dense candidate entropyFloor

/-- The spans whose text passes. -/
def passing (text : Bytes) (passes : Bytes → Bool) (spans : List Span) : Option (List Span) :=
  (spans.mapM fun span => (binaryPart text span.start span.length).map fun matched =>
    if passes matched then [span] else []).map List.flatten

def isPan (matched : Bytes) : Bool :=
  let digits := matched.filter fun byte => byte ∉ utf8 " -"
  13 ≤ digits.length && digits.length ≤ 19 && Luhn.valid digits

def panSpans (text : Bytes) : Option (List Finding) := do
  let spans ← passing text isPan (← scanned host pan text)
  pure (spans.map fun span => ⟨.pan, span, none⟩)

def ssnSpans (text : Bytes) : Option (List Finding) := do
  let spans ← scanned host ssn text
  pure (spans.map fun span => ⟨.ssn, span, none⟩)

def phiSpans (patterns : List PhiPattern) (text : Bytes) : Option (List Finding) :=
  (patterns.mapM fun pattern => (scanned host pattern.pattern text).map fun spans =>
    spans.map fun span => ⟨.phi, span, some pattern.id⟩).map List.flatten

def apiKeySpans (entropyFloor : Rat) (text : Bytes) : Option (List Finding) := do
  let spans ← passing text (secret host · entropyFloor) (← scanned host entropyCandidate text)
  pure (spans.map fun span => ⟨.apiKey, span, none⟩)

def overlaps (span claimed : Span) : Bool := span.start < claimed.stop ∧ claimed.start < span.stop

/-- Of the later lists only what touches nothing of the earlier ones. -/
def claimNonOverlapping : List (List Finding) → List Finding
  | [] => []
  | first :: rest =>
    (rest.foldl (fun (kept, claimed) findings =>
      let new := findings.filter fun finding => !claimed.any (overlaps finding.span)
      (kept ++ new, new.map Finding.span ++ claimed)) (first, first.map Finding.span)).1

def chunkSize : Nat := 4096

def chunkOverlap : Nat := 1024

def chunkRanges (size : Nat) : List (Nat × Nat) :=
  if size ≤ chunkSize then [(0, size)]
  else
    (List.range ((size - 1) / chunkSize + 1)).map fun chunk =>
      let start := chunk * chunkSize
      let ownedEnd := min (start + chunkSize) size
      (start, min (ownedEnd + chunkOverlap) size - start)

/-- What the detectors find in one text, by their priority. -/
def detect (cfg : Config) (text : Bytes) : Option (List (List Finding)) := do
  let pans ← panSpans host text
  let ssns ← ssnSpans host text
  let phis ← phiSpans host cfg.phiPatterns text
  let keys ← apiKeySpans host cfg.entropyFloor text
  pure [pans, ssns, phis, keys]

def Finding.shift (finding : Finding) (offset : Nat) : Finding :=
  { finding with span := ⟨offset + finding.span.start, finding.span.length⟩ }

def scanChunk (cfg : Config) (binary : Bytes) (range : Nat × Nat) : Option (List Finding) := do
  let (offset, scanLen) := range
  let text ← binaryPart binary offset scanLen
  let found ← detect host cfg text
  let ownedEnd : Int := min (offset + chunkSize) binary.length
  pure (((claimNonOverlapping found).filter fun finding => offset + finding.span.start < ownedEnd).map (·.shift offset))

def kinds : List Kind := [.pan, .ssn, .phi, .apiKey]

def spans (cfg : Config) (binary : Bytes) : Option (List Finding) := do
  let results ← (chunkRanges binary.length).mapM (scanChunk host cfg binary)
  let merged := kinds.map fun kind => results.flatMap fun kept => kept.filter fun finding => finding.kind = kind
  pure (sortBy (fun finding => finding.span.start) (claimNonOverlapping merged))

/-! ## Redaction -/

structure Redaction where
  text : Bytes
  /-- What was found, each with its token. -/
  findings : List (Finding × Bytes)

/-- What is written so far, and how far the text is read. -/
structure Splice where
  redaction : Redaction := ⟨[], []⟩
  offset : Int := 0

/-- What stands between two places. -/
def between (binary : Bytes) (offset start : Int) : Option Bytes :=
  if start = offset then some [] else binaryPart binary offset (start - offset)

def splice (cfg : Config) (binary : Bytes) (done : Splice) (finding : Finding) : Option Splice := do
  let plain ← binaryPart binary finding.span.start finding.span.length
  let token ← Pseudonym.token host plain finding.kind cfg.key (finding.pattern.getD (.binary []))
  let chunk ← between binary done.offset finding.span.start
  pure ⟨⟨done.redaction.text ++ chunk ++ token, done.redaction.findings ++ [(finding, token)]⟩, finding.span.stop⟩

def redactBinary (cfg : Config) (binary : Bytes) : Option Redaction := do
  match ← spans host cfg binary with
  | [] => pure ⟨binary, []⟩
  | found =>
    let done ← (sortBy (fun finding => finding.span.start) found).foldlM (splice host cfg binary) {}
    let tail ← binaryPart binary done.offset (binary.length - done.offset)
    pure ⟨done.redaction.text ++ tail, done.redaction.findings⟩

/-- `redact_string/2`; none where it raises. -/
def redactString (cfg : Config) (binary : Bytes) : Option Redaction :=
  if cfg.enabled then redactBinary host cfg binary else some ⟨binary, []⟩

/-! ## Restoration -/

def inToken (byte : UInt8) : Bool :=
  isDigit byte || (0x41 ≤ byte && byte ≤ 0x5a) || (0x61 ≤ byte && byte ≤ 0x7a) || byte = 0x5f || byte = 0x2d

/-- `~r/dlt1_[A-Za-z0-9_\-]+/` -/
def tokenScan (text : Bytes) : List Span :=
  (MarkedRuns.scan Pseudonym.lead inToken 0 0 text).map fun (start, length) => ⟨start, length⟩

/-- A token that cannot be revealed is left where it is. -/
def unsplice (cfg : Config) (binary : Bytes) (done : Bytes × Int) (span : Span) : Option (Bytes × Int) := do
  let token ← binaryPart binary span.start span.length
  match Pseudonym.reveal host token cfg.key with
  | some (plain, _) =>
    let chunk ← between binary done.2 span.start
    pure (done.1 ++ chunk ++ plain, span.stop)
  | none => pure done

def restoreBinary (cfg : Config) (binary : Bytes) : Option Bytes := do
  let done ← (sortBy Span.start (tokenScan binary)).foldlM (unsplice host cfg binary) ([], 0)
  if done.2 = 0 then pure binary
  else do
    let tail ← binaryPart binary done.2 (binary.length - done.2)
    pure (done.1 ++ tail)

/-- `restore_string/2` -/
def restoreString (cfg : Config) (binary : Bytes) : Option Bytes :=
  if cfg.enabled then restoreBinary host cfg binary else some binary

end Detection

/-! ## Terms -/

/-- A term as the filter walks through it. A struct is known by what it enumerates, where it does, and each of its
elements by the pair that it is. -/
inductive Term (κ : Type) where
  | binary (bytes : Bytes)
  | map (entries : List (κ × Term κ))
  | list (items : List (Term κ))
  | improper (items : List (Term κ)) (tail : Term κ)
  | tuple (elements : List (Term κ))
  | struct (elements : Option (List (Option (κ × Term κ))))
  | other (value : Value)

section Walk

variable {κ : Type} [DecidableEq κ] (host : Host) (cfg : Config)

/-- The term with the findings that come before those that are known. -/
abbrev Walked (α : Type) := α × List (List (Finding × Bytes))

mutual

def walkRedact : Term κ → List (List (Finding × Bytes)) → Option (Walked (Term κ))
  | .binary bytes, findings => do
    let redaction ← redactBinary host cfg bytes
    pure (.binary redaction.text, redaction.findings :: findings)
  | .map entries, findings => do
    let (entries, findings) ← walkEntries entries findings
    pure (.map entries, findings)
  | .list items, findings => do
    let (items, findings) ← walkItems items findings
    pure (.list items, findings)
  | .improper _ _, _ => none
  | .tuple elements, findings => do
    let (elements, findings) ← walkItems elements findings
    pure (.tuple elements, findings)
  | .struct none, _ => none
  | .struct (some elements), findings => do
    let (entries, findings) ← walkElements elements findings
    pure (.map (uniqBy Prod.fst entries), findings)
  | .other value, findings => some (.other value, findings)
termination_by structural term => term

/-- From the last item on. -/
def walkItems : List (Term κ) → List (List (Finding × Bytes)) → Option (Walked (List (Term κ)))
  | [], findings => some ([], findings)
  | item :: items, findings => do
    let (items, findings) ← walkItems items findings
    let (item, findings) ← walkRedact item findings
    pure (item :: items, findings)
termination_by structural items => items

def walkEntries : List (κ × Term κ) → List (List (Finding × Bytes)) → Option (Walked (List (κ × Term κ)))
  | [], findings => some ([], findings)
  | (key, value) :: entries, findings => do
    let (value, findings) ← walkRedact value findings
    let (entries, findings) ← walkEntries entries findings
    pure ((key, value) :: entries, findings)
termination_by structural entries => entries

def walkElements : List (Option (κ × Term κ)) → List (List (Finding × Bytes)) →
    Option (Walked (List (κ × Term κ)))
  | [], findings => some ([], findings)
  | none :: _, _ => none
  | some (key, value) :: elements, findings => do
    let (value, findings) ← walkRedact value findings
    let (entries, findings) ← walkElements elements findings
    pure ((key, value) :: entries, findings)
termination_by structural elements => elements

end

/-- `redact/2`; none where it raises. -/
def redact (term : Term κ) : Option (Term κ × List (Finding × Bytes)) :=
  if cfg.enabled then (walkRedact host cfg term []).map fun (term, nested) => (term, nested.flatten)
  else some (term, [])

end Walk

end AshA2A.Security.DLPFilter
