import AshA2A.Json
import AshA2A.Passport.Encoding
import Mathlib.Data.List.Sort
import Mathlib.Data.List.Lex
import Mathlib.Data.Prod.Lex

/-! The durable replay store: what was seen of each key, in a map and in a log of JSON lines
that is replayed when the store starts. -/

namespace AshA2A.Sa2aCrypto.NonceStore

abbrev Key := String × String

/-- A map: each key stands in it once. -/
abbrev Entries := List (Key × Int)

def Entries.put (entries : Entries) (key : Key) (expires : Int) : Entries :=
  (key, expires) :: entries.filter fun entry => entry.1 ≠ key

def newline : UInt8 := 0x0a

/-! ## The log -/

def triple (key : Key) (expires : Int) : Json := .array [.string key.1, .string key.2, .int expires]

def codes (text : String) : List Nat := (utf8 text).map UInt8.toNat

/-- The order of the entries as terms. -/
def rank (entry : Key × Int) : List Nat ×ₗ List Nat ×ₗ Int :=
  toLex (codes entry.1.1, toLex (codes entry.1.2, entry.2))

def feed (read : List Bytes × Bytes) (byte : UInt8) : List Bytes × Bytes :=
  if byte = newline then (read.1 ++ [read.2], []) else (read.1, read.2 ++ [byte])

/-- The lines that are ended, and what stands after the last of them. -/
def lines (bin : Bytes) : List Bytes × Bytes := bin.foldl feed ([], [])

section Log

variable (library : Json.Library)

/-- The encoder may raise. -/
def line (key : Key) (expires : Int) : Option Bytes := (library.encode (triple key expires)).map (· ++ [newline])

def decodeLine (line : Bytes) : Option (Key × Int) :=
  match library.decode line with
  | some (.array [.string kid, .string nonce, .int expires]) => some ((kid, nonce), expires)
  | _ => none

def replay (entries : Entries) : List Bytes → Option Entries
  | [] => some entries
  | line :: lines => (decodeLine library line).bind fun entry => replay (entries.put entry.1 entry.2) lines

/-- The entries, and whether the log ends with a torn line. Nothing where a line is corrupt. -/
def parse (bin : Bytes) : Option (Entries × Bool) :=
  (replay library [] (lines bin).1).map fun entries => (entries, (lines bin).2 ≠ [])

def load (log : Option Bytes) : Option (Entries × Bool) :=
  match log with
  | none => some ([], false)
  | some bin => parse library bin

/-- What a rewritten log consists of. -/
def data (entries : Entries) : Option Bytes :=
  ((entries.insertionSort fun first second => rank first ≤ rank second).mapM fun entry => line library entry.1 entry.2).map
    List.flatten

end Log

/-! ## The server -/

structure Server where
  entries : Entries
  skew : Int

/-- The file, and the process that owns it while it runs. -/
structure State where
  log : Option Bytes := none
  server : Option Server := none

/-- The line is written and synced; or a step fails, or the process stops, when so many of its
bytes are written. -/
inductive Append where
  | done
  | failed (count : Nat)
  | stopped (count : Nat)

/-- A new log takes the place of the old one; or it does not, or it does and nothing after it
is done. -/
inductive Rewrite where
  | done
  | undone
  | renamed

inductive Event where
  | checkAndSet (kid nonce : String) (expires : Int) (append : Append)
  /-- A key that is not UTF-8: the encoder raises in the server. -/
  | unencodable
  | prune (now : Int) (rewrite : Rewrite)
  /-- The process is gone, if it still runs, and another one starts on the file. -/
  | restart (skew : Int) (rewrite : Rewrite)

inductive Reply where
  | ok
  | replayed
  | notDurable
  | pruned (count : Nat)
  | nothing
  deriving Repr, DecidableEq

section Server

variable (library : Json.Library)

def checkAndSet (state : State) (server : Server) (key : Key) (expires : Int) (append : Append) : Reply × State :=
  if (server.entries.lookup key).isSome then (.replayed, state)
  else
    match line library key expires with
    | none => (.nothing, { state with server := none })
    | some line =>
      let log := state.log.getD []
      match append with
      | .done => (.ok, ⟨some (log ++ line), some { server with entries := server.entries.put key expires }⟩)
      | .failed count => (.notDurable, { state with log := some (log ++ line.take count) })
      | .stopped count => (.nothing, ⟨some (log ++ line.take count), none⟩)

/-- The entries whose time is over, by more than the skew. -/
def Server.overdue (server : Server) (now : Int) (entry : Key × Int) : Bool := entry.2 + server.skew < now

def prune (state : State) (server : Server) (now : Int) (rewrite : Rewrite) : Reply × State :=
  let dropped := server.entries.filter (server.overdue now)
  let kept := server.entries.filter fun entry => !server.overdue now entry
  if dropped = [] then (.pruned 0, state)
  else
    match data library kept, rewrite with
    | none, _ | _, .undone => (.nothing, { state with server := none })
    | some data, .done => (.pruned dropped.length, ⟨some data, some { server with entries := kept }⟩)
    | some data, .renamed => (.nothing, ⟨some data, none⟩)

/-- A log with a torn line is rewritten without it. -/
def start (log : Option Bytes) (skew : Int) (rewrite : Rewrite) : State :=
  match load library log with
  | none => ⟨log, none⟩
  | some (entries, false) =>
    match rewrite with
    | .done => ⟨some (log.getD []), some ⟨entries, skew⟩⟩
    | _ => ⟨log, none⟩
  | some (entries, true) =>
    match data library entries, rewrite with
    | none, _ | _, .undone => ⟨log, none⟩
    | some data, .done => ⟨some data, some ⟨entries, skew⟩⟩
    | some data, .renamed => ⟨some data, none⟩

def step (state : State) : Event → Reply × State
  | .restart skew rewrite => (.nothing, start library state.log skew rewrite)
  | .checkAndSet kid nonce expires append =>
    match state.server with
    | none => (.nothing, state)
    | some server => checkAndSet library state server (kid, nonce) expires append
  | .unencodable => (.nothing, { state with server := none })
  | .prune now rewrite =>
    match state.server with
    | none => (.nothing, state)
    | some server => prune library state server now rewrite

/-- The state after the events. -/
def run (events : List Event) : State := events.foldl (fun state event => (step library state event).2) {}

end Server

end AshA2A.Sa2aCrypto.NonceStore
