import AshA2A.AppendLog
import AshA2A.Sa2aCrypto
import Mathlib.Data.Finset.Basic
import Mathlib.Data.Finset.Dedup

/-! The issuance journal: one chained line for each certificate, written before the
certificate is signed. -/

namespace AshA2A.AuthorityService

open Sa2aCrypto AppendLog

structure Body where
  certKid : String
  nonce : String
  effectDigest : String
  generation : Nat
  audience : String
  expires : Int
  approvals : List (String × String)
  deriving Repr, DecidableEq

structure Entry where
  seq : Nat
  prev : String
  body : Body
  hash : String
  deriving Repr, DecidableEq

structure Anchor where
  seq : Nat
  head : String
  deriving Repr, DecidableEq

def Body.json (body : Body) : Json :=
  .object [("cert_kid", .string body.certKid), ("nonce", .string body.nonce),
    ("effect_digest", .string body.effectDigest), ("generation", .int body.generation),
    ("audience", .string body.audience), ("expires", .int body.expires),
    ("approvals", .array (body.approvals.map fun (kid, nonce) => .array [.string kid, .string nonce]))]

def genesis : String := String.ofList (List.replicate 64 '0')

/-- The journal in memory. The descriptor of the open file is left out. -/
structure Journal where
  seq : Nat := 0
  head : String := genesis
  /-- Kept while a file is replayed. -/
  heads : List (Nat × String) := []
  nonces : Finset String := ∅
  approvals : Finset (String × String) := ∅
  issued : Finset (String × Nat) := ∅
  deriving DecidableEq

namespace Journal

/-- The hash of a line, unless its content cannot be encoded. -/
def link (host : Host) (prev : String) (seq : Nat) (body : Body) : Option String :=
  (host.library.encode (.object [("seq", .int seq), ("body", body.json)])).map fun text =>
    host.sha256 (prev.toUTF8.toList ++ text)

def applyEntry (journal : Journal) (body : Body) : Journal :=
  { journal with
    nonces := insert body.nonce journal.nonces
    approvals := journal.approvals ∪ body.approvals.toFinset
    issued := insert (body.effectDigest, body.generation) journal.issued }

def nonceSeen (journal : Journal) (nonce : String) : Bool := nonce ∈ journal.nonces

def approvalSeen (journal : Journal) (kid nonce : String) : Bool := (kid, nonce) ∈ journal.approvals

def isIssued (journal : Journal) (digest : String) (generation : Nat) : Bool :=
  (digest, generation) ∈ journal.issued

/-- What remains of the journal for the server when the file is open. -/
def opened (journal : Journal) : Journal := { journal with heads := [] }

variable (host : Host)

def entry (journal : Journal) : Option Entry → Except String Journal
  | none => .error "malformed_line"
  | some line =>
    if line.seq ≠ journal.seq + 1 then .error "bad_seq"
    else if line.prev ≠ journal.head then .error "bad_chain"
    else if link host line.prev line.seq line.body ≠ some line.hash then .error "bad_hash"
    else .ok (applyEntry { journal with
      seq := line.seq
      head := line.hash
      heads := (line.seq, line.hash) :: journal.heads } line.body)

def replayLines (journal : Journal) : List (Option Entry) → Except String Journal
  | [] => .ok journal
  | line :: lines =>
    match entry host journal line with
    | .ok journal => replayLines journal lines
    | .error reason => .error reason

def replay (file : File Entry) : Except String Journal :=
  if file.torn then .error "torn_line" else replayLines host {} file.lines

/-- The line that comes after the journal, and the journal after it. -/
def next (journal : Journal) (body : Body) (hash : String) : Entry × Journal :=
  (⟨journal.seq + 1, journal.head, body, hash⟩,
    { journal with seq := journal.seq + 1, head := hash })

/-- What is read where the head anchor stands. -/
inductive AnchorFile where
  | missing | corrupt
  | found (anchor : Anchor)
  deriving Repr, DecidableEq

def checkAnchor (journal : Journal) : AnchorFile → Except String Unit
  | .missing => if journal.seq = 0 then .ok () else .error "anchor_missing"
  | .corrupt => .error "anchor_corrupt"
  | .found anchor =>
    if journal.seq < anchor.seq then .error "journal_truncated"
    else if anchor.seq = 0 ∧ anchor.head = genesis then .ok ()
    else if journal.heads.lookup anchor.seq = some anchor.head then .ok ()
    else .error "anchor_mismatch"

end Journal

end AshA2A.AuthorityService
