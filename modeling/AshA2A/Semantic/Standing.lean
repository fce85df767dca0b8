import AshA2A.Calendar
import AshA2A.Passport.Encoding
import AshA2A.Semantic.Evidence
import Mathlib.Data.List.Sort

/-! The standing of an envelope: a position in a chain of states, carried by a sealed history of the
steps that led there. -/

namespace AshA2A.Semantic

/-- `class`, `code` and `stage` are atoms where the code builds a refusal itself. -/
structure Refusal where
  category : Evidence
  code : Evidence
  stage : Evidence
  detail : Evidence := .nil
  deriving Repr

namespace Refusal

def refusedClasses : List String :=
  ["refused_identity", "refused_namespace", "refused_structure", "refused_shacl", "refused_rule", "refused_falsifier",
    "refused_provenance", "refused_profile", "refused_plan", "refused_capability", "refused_authority",
    "refused_consequence", "refused_receipt", "refused_bounds", "refused_meta_rigor"]

def blockedClasses : List String := ["blocked_unknown", "blocked_resource"]

def unsupportedClasses : List String := ["unsupported_profile"]

/-- The fields of a term that is a refusal. -/
def ofEvidence : Evidence → Option Refusal
  | .struct "AshA2A.Semantic.Refusal" fields =>
    some ⟨(fields.lookup "class").getD .nil, (fields.lookup "code").getD .nil, (fields.lookup "stage").getD .nil,
      (fields.lookup "detail").getD .nil⟩
  | _ => none

end Refusal

namespace Standing

/-- Any atom is accepted as the name of a state. -/
abbrev State := String

def chain : List State :=
  ["candidate", "received", "parsed", "identified", "structurally_valid", "semantically_valid", "closed",
    "falsifier_clean", "admitted", "plannable", "selected", "constructed", "authorized", "prepared", "executed",
    "receipted", "attested"]

def terminal : List State := ["refused", "blocked", "unknown", "unsupported", "failed"]

def rank (state : State) : Option Nat := chain.findIdx? (· = state)

/-- `nil` where there is none. -/
def predecessor (state : State) : State :=
  match rank state with
  | none | some 0 => "nil"
  | some (index + 1) => chain.getD index "nil"

def legalEdge (origin next : State) : Bool := (origin ∈ chain ∧ next ∈ terminal) ∨ predecessor next = origin

def evidenceClass (state : State) : String :=
  (List.lookup state
    [("received", "refused_structure"), ("parsed", "refused_structure"), ("identified", "refused_identity"),
      ("structurally_valid", "refused_structure"), ("semantically_valid", "refused_shacl"), ("closed", "refused_rule"),
      ("falsifier_clean", "refused_falsifier"), ("admitted", "refused_receipt"), ("plannable", "refused_plan"),
      ("selected", "refused_plan"), ("constructed", "refused_capability"), ("authorized", "refused_authority"),
      ("prepared", "refused_receipt"), ("executed", "refused_consequence"), ("receipted", "refused_receipt"),
      ("attested", "refused_provenance")]).getD "refused_meta_rigor"

end Standing

namespace Envelope

/-- The map of a step. What is joined and digested are binaries; whoever builds an entry by hand may
put other terms among the keys. -/
structure HistoryEntry where
  origin : Standing.State
  next : Standing.State
  stamp : Bytes
  evidenceKeys : List Evidence
  evidenceDigest : Bytes
  deriving Repr

/-- What the envelope says apart from its standing. -/
structure Subject where
  envelopeId : Evidence
  kind : Evidence
  graph : Evidence := .nil
  profile : Evidence := .text "urn:sa2a:profile:core:v26.9.16"
  subjects : Evidence := .list []
  semanticBasis : Evidence := .list []
  provenance : Evidence := .map []
  consequenceClass : Evidence := .text "none"
  authorityRequirement : Evidence := .text "none"
  bounds : Evidence := .map []
  receipts : Evidence := .list []
  deriving Repr

/-- Entries of the right shape, or else a term that is no list, or a list with another entry. -/
inductive History where
  | noList
  | misshapen
  | entries (steps : List HistoryEntry)
  deriving Repr

def History.steps : History → List HistoryEntry
  | .entries steps => steps
  | _ => []

end Envelope

structure Envelope where
  subject : Envelope.Subject
  standing : Standing.State := "candidate"
  standingHistory : Envelope.History := .entries []
  standingSeal : Option Bytes := none
  deriving Repr

/-- The keyed hash under the runtime's ledger key, the plain hash and the printing of terms. -/
structure Runtime where
  mac : Bytes → Bytes
  sha256 : Bytes → Bytes
  printing : Printing

namespace Standing

/-- `raised` stands for every exception. -/
inductive Fault where
  | raised
  | refused (refusal : Refusal)
  deriving Repr

/-- The constructor of a refusal raises where the stage is no atom. -/
def refuse (category code : String) (stage detail : Evidence) : Fault :=
  match stage with
  | .atom _ => .refused ⟨.atom category, .atom code, stage, detail⟩
  | _ => .raised

def atoms (states : List State) : Evidence := .list (states.map .atom)

variable (runtime : Runtime)

/-! ## The ledger of an envelope -/

/-- `to_string/1`: a binary, where there is one. -/
def toBinary : Evidence → Option Evidence
  | .atom name => some (.text (if name = "nil" then "" else name))
  | .integer value => some (.text (toString value))
  | .text value => some (.text value)
  | .bytes value => some (.bytes value)
  | term => (runtime.printing.toText term).map .text

def bytesOf : Evidence → Bytes
  | .text value => utf8 value
  | .bytes value => value
  | _ => []

def join (separator : Bytes) : List Bytes → Bytes
  | [] => []
  | [part] => part
  | part :: parts => part ++ separator ++ join separator parts

/-- Joining raises on a key that has no text. -/
def entryPayload (entry : Envelope.HistoryEntry) : Option Bytes := do
  let keys ← entry.evidenceKeys.mapM (toBinary runtime)
  return join (utf8 "|")
    [utf8 entry.origin, utf8 entry.next, entry.stamp, join (utf8 ",") (keys.map bytesOf), entry.evidenceDigest]

def ledgerGenesis : Bytes := utf8 "sa2a:standing:ledger:genesis:v1"

def sealStep (seen payload : Bytes) : Bytes := utf8 (Base16.encode (runtime.mac (seen ++ utf8 "\n" ++ payload)))

def sealChain (history : List Envelope.HistoryEntry) : Option Bytes := do
  let payloads ← history.mapM (entryPayload runtime)
  return utf8 "hmac-sha256:" ++ payloads.foldl (sealStep runtime) ledgerGenesis

def malformed (next : State) (reason : String) : Fault :=
  refuse "refused_meta_rigor" "standing_ledger_malformed" (.atom next)
    (.record [("to", .atom next), ("reason", .text reason)])

def verifyChainContiguous (history : List Envelope.HistoryEntry) (next : State) : Except Fault Unit :=
  let expected := ("candidate" :: history.map fun entry => entry.next).dropLast
  let actual := history.map fun entry => entry.origin
  if expected = actual then .ok ()
  else .error (refuse "refused_meta_rigor" "standing_ledger_discontinuous" (.atom next)
    (.record [("to", .atom next), ("expected_from_chain", atoms expected), ("actual_from_chain", atoms actual)]))

def verifyStandingMatchesLedger (standing : State) (last : Envelope.HistoryEntry) (next : State) :
    Except Fault Unit :=
  if standing = last.next then .ok ()
  else .error (refuse "refused_meta_rigor" "standing_ledger_inconsistent" (.atom next)
    (.record [("to", .atom next), ("claimed_standing", .atom standing), ("evidenced_standing", .atom last.next)]))

def verifySeal (claimed : Option Bytes) (history : List Envelope.HistoryEntry) (next : State) : Except Fault Unit :=
  let unsealed := refuse "refused_meta_rigor" "standing_ledger_unsealed" (.atom next)
    (.record [("to", .atom next), ("reason", .text ("the presented standing history is not sealed by this runtime's " ++
      "ledger key; standing is evidence this runtime holds, never a field a caller fills in"))])
  match claimed with
  | none => .error unsealed
  | some claimed =>
    match sealChain runtime history with
    | none => .error .raised
    | some computed => if claimed = computed then .ok () else .error unsealed

def verifyLedger (envelope : Envelope) (next : State) : Except Fault Unit :=
  match envelope.standingHistory with
  | .noList => .error (malformed next "standing_history must be a list")
  | .entries [] =>
    if envelope.standing = "candidate" ∧ envelope.standingSeal = none then .ok ()
    else .error (refuse "refused_meta_rigor" "standing_ledger_absent" (.atom next)
      (.record [("to", .atom next), ("claimed_standing", .atom envelope.standing),
        ("reason", .text ("an empty ledger evidences :candidate and nothing else; standing above :candidate " ++
          "requires a sealed evidence chain"))]))
  | .misshapen => .error (malformed next "every ledger entry must carry from/to/at/evidence_keys/evidence_digest")
  | .entries (first :: rest) => do
    verifyChainContiguous (first :: rest) next
    verifyStandingMatchesLedger envelope.standing (rest.getLastD first) next
    verifySeal runtime envelope.standingSeal (first :: rest) next

/-! ## A step of the chain -/

def keysOf : Evidence → List Evidence
  | .map entries => entries.map Prod.fst
  | .struct _ fields => .atom "__struct__" :: fields.map fun field => .atom field.1
  | _ => []

/-- `Map.keys/1`, `to_string/1` of each, sorted. -/
def sortedKeys (evidence : Evidence) : Option (List Evidence) :=
  ((keysOf evidence).mapM (toBinary runtime)).map
    fun keys => keys.insertionSort fun left right => bytesOf left ≤ bytesOf right

/-- The entries of a map; a struct is not enumerated. -/
def entriesOf : Evidence → Option (List (Evidence × Evidence))
  | .map entries => some entries
  | _ => none

def evidenceDigest (evidence : Evidence) : Option Bytes := do
  let entries ← entriesOf evidence
  let lines ← entries.mapM fun (key, value) => do
    return bytesOf (← toBinary runtime key) ++ utf8 ("=" ++ runtime.printing.inspectAll value)
  let payload := join (utf8 "\n") (lines.insertionSort (· ≤ ·))
  return utf8 ("sha256:" ++ Base16.encode (runtime.sha256 payload))

def historyEntry (origin next : State) (evidence : Evidence) (now : Calendar.Moment) :
    Option Envelope.HistoryEntry := do
  return ⟨origin, next, utf8 (Calendar.toIso8601 now), ← sortedKeys runtime evidence,
    ← evidenceDigest runtime evidence⟩

/-- The only place where a seal is made. -/
def extendSeal (envelope : Envelope) (origin next : State) (evidence : Evidence) (now : Calendar.Moment) :
    Except Fault Envelope :=
  let extended := do
    let history := envelope.standingHistory.steps ++ [← historyEntry runtime origin next evidence now]
    return { envelope with
      standing := next, standingHistory := .entries history, standingSeal := some (← sealChain runtime history) }
  (extended.map Except.ok).getD (.error .raised)

def evidenceInvalid (step : State) (detail : List (String × Evidence)) : Fault :=
  refuse (evidenceClass step) "standing_evidence_invalid" (.atom step) (.record (detail ++ [("to", .atom step)]))

/-- Neither absent nor `nil` nor an empty text. -/
def present (evidence : Evidence) (key : String) : Bool :=
  match evidence.get key with
  | .atom "nil" | .text "" => false
  | _ => true

def requireKeys (step : State) (evidence : Evidence) (keys : List String) : Except Fault Unit :=
  let missing := keys.filter fun key => ! present evidence key
  if missing = [] then .ok ()
  else .error (refuse (evidenceClass step) "standing_evidence_missing" (.atom step)
    (.record [("to", .atom step), ("missing", atoms missing), ("required", atoms keys)]))

def requireNonNegInteger (step : State) (evidence : Evidence) (key : String) : Except Fault Unit :=
  let bad := evidenceInvalid step [("reason", .text (key ++ " must be a non-negative integer")), ("value", evidence.get key)]
  match evidence.get key with
  | .integer value => if 0 ≤ value then .ok () else .error bad
  | _ => .error bad

def requirePositiveInteger (step : State) (evidence : Evidence) (key : String) : Except Fault Unit :=
  let bad := evidenceInvalid step [("reason", .text (key ++ " must be a positive integer")), ("value", evidence.get key)]
  match evidence.get key with
  | .integer value => if 0 < value then .ok () else .error bad
  | _ => .error bad

def requireFlag (step : State) (evidence : Evidence) (resultKey flagKey : String) : Except Fault Unit :=
  let result := evidence.get resultKey
  if result.isMap then
    match result.get flagKey with
    | .atom "true" => .ok ()
    | other => .error (evidenceInvalid step
      [("reason", .text (resultKey ++ "." ++ flagKey ++ " must be true")), ("value", other)])
  else .error (evidenceInvalid step [("reason", .text (resultKey ++ " must be a map")), ("value", result)])

/-- `get(bounds, :maxTriples) || get(bounds, :max_triples)`. -/
def maxTriples (bounds : Evidence) : Evidence :=
  match bounds.get "maxTriples" with
  | .atom "nil" | .atom "false" => bounds.get "max_triples"
  | other => other

def checkTripleBounds (bounds evidence : Evidence) : Except Fault Unit :=
  match maxTriples bounds, evidence.get "triple_count" with
  | .integer limit, .integer count =>
    if limit < count then .error (refuse "refused_bounds" "standing_bounds_exceeded" (.atom "parsed")
      (.record [("bound", .atom "maxTriples"), ("limit", .integer limit), ("observed", .integer count)]))
    else .ok ()
  | _, _ => .ok ()

def checkClosure (evidence : Evidence) : Except Fault Unit :=
  let closure := evidence.get "closure"
  if closure.isMap then
    match closure.get "entailed_triple_count" with
    | .integer _ => .ok ()
    | _ => .error (evidenceInvalid "closed"
      [("reason", .text "closure must carry an integer :entailed_triple_count"), ("closure", closure)])
  else .error (evidenceInvalid "closed" [("reason", .text "closure must be a map"), ("closure", closure)])

/-- `is_list/1` of a list that is not empty. -/
def isFilledList : Evidence → Bool
  | .list (_ :: _) | .improper _ _ => true
  | _ => false

def checkFalsifiers (evidence : Evidence) : Except Fault Unit :=
  if isFilledList (evidence.get "falsifiers") then
    match evidence.get "violations" with
    | .list [] => .ok ()
    | violations => .error (refuse "refused_falsifier" "standing_evidence_invalid" (.atom "falsifier_clean")
      (.record [("reason", .text "declared falsifiers fired"), ("violations", violations)]))
  else .error (evidenceInvalid "falsifier_clean"
    [("reason", .text "a falsifier-clean claim requires at least one declared falsifier"),
      ("falsifiers", evidence.get "falsifiers")])

/-- There is no clause for the first state of the chain. -/
def checkEvidence (envelope : Envelope) (next : State) (evidence : Evidence) : Except Fault Unit :=
  match next with
  | "received" => requireKeys next evidence ["transport", "received_at"]
  | "parsed" => do
    requireKeys next evidence ["media_type", "triple_count"]
    requireNonNegInteger next evidence "triple_count"
    checkTripleBounds envelope.subject.bounds evidence
  | "identified" => requireKeys next evidence ["graph_digest", "digest_algorithm"]
  | "structurally_valid" => do
    requireKeys next evidence ["shex_result"]
    requireFlag next evidence "shex_result" "conformant"
  | "semantically_valid" => do
    requireKeys next evidence ["shacl_report"]
    requireFlag next evidence "shacl_report" "conforms"
  | "closed" => do
    requireKeys next evidence ["closure"]
    checkClosure evidence
  | "falsifier_clean" => do
    requireKeys next evidence ["falsifiers", "violations"]
    checkFalsifiers evidence
  | "admitted" => requireKeys next evidence ["admission_receipt_id"]
  | "plannable" => do
    requireKeys next evidence ["planning_fingerprint", "goal_count"]
    requirePositiveInteger next evidence "goal_count"
  | "selected" => do
    requireKeys next evidence ["plan_id", "step_count"]
    requirePositiveInteger next evidence "step_count"
  | "constructed" => requireKeys next evidence ["command_id", "capability_id"]
  | "authorized" => requireKeys next evidence ["authority_id", "scope"]
  | "prepared" => requireKeys next evidence ["receipt_anchor_id"]
  | "executed" => requireKeys next evidence ["execution_id", "consequence"]
  | "receipted" => requireKeys next evidence ["receipt_id", "status"]
  | "attested" => requireKeys next evidence ["receipt_id", "attestation"]
  | _ => .error .raised

def requirePredecessor (current next : State) : Except Fault Unit :=
  if predecessor next = current then .ok ()
  else .error (refuse "refused_meta_rigor" "standing_predecessor_skipped" (.atom next)
    (.record [("from", .atom current), ("to", .atom next), ("required", .atom (predecessor next))]))

def markTerm : Mark → Evidence
  | .name name => .text name
  | .index index => .integer index

/-- The key that a name was found for. -/
def canonicalInferenceKey (name : String) : String :=
  (forbiddenInferenceKeys.find? fun key => normalizedName key = normalizedName name).getD name

def lastName (path : List Mark) : String :=
  match path.getLast? with
  | some (.name name) => name
  | _ => ""

def inferenceSources (paths : List (List Mark)) : Evidence :=
  atoms (paths.map fun path => canonicalInferenceKey (lastName path)).eraseDups

def rejectInference (next : State) (evidence : Evidence) : Except Fault Unit :=
  match scan runtime.printing [] 0 evidence with
  | .error .raised => .error .raised
  | .error .tooDeep => .error (refuse "refused_meta_rigor" "standing_evidence_too_deep" (.atom next)
    (.record [("to", .atom next), ("max_depth", .integer maxEvidenceDepth),
      ("reason", .text "evidence nested past the scan depth cannot be cleared of inference sources")]))
  | .ok [] => .ok ()
  | .ok paths => .error (refuse "refused_meta_rigor" "standing_inferred" (.atom next)
    (.record [("to", .atom next), ("forbidden_inference_sources", inferenceSources paths),
      ("forbidden_inference_paths", .list (paths.map fun path => .list (path.map markTerm)))]))

def chainTransition (envelope : Envelope) (next : State) (evidence : Evidence) (now : Calendar.Moment) :
    Except Fault Envelope := do
  requirePredecessor envelope.standing next
  rejectInference runtime next evidence
  checkEvidence envelope next evidence
  extendSeal runtime envelope envelope.standing next evidence now

/-! ## Terminal states -/

def terminalRefusal (next : State) (evidence : Evidence) : Except Fault Refusal :=
  match (evidence.member "refusal").bind Refusal.ofEvidence, (evidence.textMember "refusal").bind Refusal.ofEvidence,
    sortedKeys runtime evidence with
  | some refusal, _, _ => .ok refusal
  | _, some refusal, _ => .ok refusal
  | _, _, some keys => .error (refuse "refused_meta_rigor" "standing_terminal_evidence_invalid" (.atom next)
    (.record [("to", .atom next),
      ("reason", .text "terminal standing requires evidence %\x7brefusal: %AshA2A.Semantic.Refusal\x7b\x7d\x7d"),
      ("evidence_keys", .list keys)]))
  | _, _, none => .error .raised

def admissibleClasses (next : State) : List String :=
  if next = "refused" then Refusal.refusedClasses
  else if next = "blocked" then Refusal.blockedClasses
  else if next = "unknown" then ["blocked_unknown"]
  else Refusal.unsupportedClasses

def terminalClassAdmissible (next : State) (refusal : Refusal) : Except Fault Unit :=
  if next = "failed" ∨ (admissibleClasses next).any refusal.category.isAtom then .ok ()
  else .error (refuse "refused_meta_rigor" "standing_terminal_evidence_invalid" (.atom next)
    (.record [("to", .atom next), ("refusal_class", refusal.category),
      ("admissible_classes", atoms (admissibleClasses next)), ("refusal_code", refusal.code)]))

def terminalTransition (envelope : Envelope) (next : State) (evidence : Evidence) (now : Calendar.Moment) :
    Except Fault Envelope := do
  let refusal ← terminalRefusal runtime next evidence
  terminalClassAdmissible next refusal
  extendSeal runtime envelope envelope.standing next (.record
    [("refusal_class", refusal.category), ("refusal_code", refusal.code), ("refusal_stage", refusal.stage)]) now

/-! ## A transition -/

/-- `transition/3`. An envelope that is refused a step is what it was. -/
def transition (envelope : Envelope) (next evidence : Evidence) (now : Calendar.Moment) : Except Fault Envelope :=
  match next with
  | .atom state =>
    if evidence.isMap then do
      verifyLedger runtime envelope state
      if envelope.standing ∈ terminal then
        .error (refuse "refused_meta_rigor" "standing_terminal" next
          (.record [("from", .atom envelope.standing), ("to", next),
            ("reason", .text "terminal standing is absorbing")]))
      else if state ∈ terminal then terminalTransition runtime envelope state evidence now
      else if state ∈ chain then chainTransition runtime envelope state evidence now
      else .error (refuse "refused_structure" "standing_state_unknown" next next)
    else .error (refuse "refused_structure" "standing_evidence_invalid" next
      (.record [("to", next), ("evidence", evidence)]))
  | _ => .error (refuse "refused_structure" "standing_evidence_invalid" next
    (.record [("to", next), ("evidence", evidence)]))

end Standing

end AshA2A.Semantic

/-! The standing transitions that one peer has performed, in one list. -/

namespace AshA2A.Semantic.Standing.Ledger

structure Entry where
  envelopeId : String
  origin : State
  next : State
  reason : Evidence := .nil
  time : Int
  deriving Repr

/-- An arrival is followed by the genesis of an envelope or by its end, and an admission verdict may
be one step. -/
def legalLedgerEdge (origin next : State) : Bool :=
  if origin = "received" then next = "candidate" ∨ next ∈ terminal
  else if origin = "candidate" ∧ next = "admitted" then true
  else legalEdge origin next

inductive Reply where
  | ok (next : State)
  | illegalStandingTransition
  deriving Repr, DecidableEq

/-- `record/4`: the edge is checked by the caller, and the list is extended by its owner. -/
def record (ledger : List Entry) (entry : Entry) : Reply × List Entry :=
  if legalLedgerEdge entry.origin entry.next then (.ok entry.next, ledger ++ [entry])
  else (.illegalStandingTransition, ledger)

def run (calls : List Entry) : List Entry := calls.foldl (fun ledger entry => (record ledger entry).2) []

def entries (ledger : List Entry) (envelopeId : String) : List Entry :=
  ledger.filter fun entry => entry.envelopeId = envelopeId

/-- The standings of a list of transitions: where the first one starts, and where each one ends. -/
def pathOf : List Entry → List State
  | [] => []
  | first :: rest => first.origin :: (first :: rest).map Entry.next

def path (ledger : List Entry) (envelopeId : String) : List State := pathOf (entries ledger envelopeId)

def current (ledger : List Entry) (envelopeId : String) : Option State := (path ledger envelopeId).getLast?

end AshA2A.Semantic.Standing.Ledger
