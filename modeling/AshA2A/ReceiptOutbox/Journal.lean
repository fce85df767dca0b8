import AshA2A.Receipt

/-! The journal directory: names, contents, and what one file operation does. -/

namespace AshA2A.ReceiptOutbox

/-- Names as the outbox tells them apart. -/
inductive Name where
  /-- `<command key>--<receipt id>.receipt` -/
  | entry (commandKey rest : String)
  /-- The same name with `.tmp.<n>`, being written. -/
  | temp (commandKey rest : String) (unique : Nat)
  /-- Any other name with the suffix of an entry. -/
  | legacy (rest : String)
  | other (name : String)
  deriving Repr, DecidableEq

def suffix : String := ".receipt"

def Name.text : Name → String
  | .entry commandKey rest => commandKey ++ "--" ++ rest ++ suffix
  | .temp commandKey rest unique => commandKey ++ "--" ++ rest ++ suffix ++ ".tmp." ++ toString unique
  | .legacy rest => rest ++ suffix
  | .other name => name

/-- `String.ends_with?/2` with the suffix of an entry. -/
def Name.isEntry : Name → Bool
  | .entry _ _ | .legacy _ => true
  | _ => false

def Name.isLegacy : Name → Bool
  | .legacy _ => true
  | _ => false

/-- The name starts with the key of a command. -/
def Name.keyed (commandKey : String) : Name → Bool
  | .entry given _ | .temp given _ _ => given = commandKey
  | _ => false

/-- Bytes in a file: tagged under a key, marked as untagged, or without any mark. -/
inductive Content where
  | tagged (key : Key) (receipt : Receipt)
  | marked (receipt : Receipt)
  | raw (receipt : Option Receipt)
  deriving Repr, DecidableEq

inductive FileError where
  | enoent | other
  deriving Repr, DecidableEq

inductive DecodeError where
  | outboxKeyUnavailable | outboxBadTag | outboxUntaggedEntry | foreignFormat
  | file (error : FileError)
  deriving Repr, DecidableEq

def commandKey (host : Host) (commandId : Identity .command) : String :=
  String.ofList ((host.crypto.sha256 (.text commandId.external)).toList.take 32)

def entryPath (host : Host) (receipt : Receipt) : Name :=
  .entry (commandKey host receipt.commandId) receipt.receiptId.external

def legacyPath (receipt : Receipt) : Name := .legacy receipt.receiptId.external

/-- The journal's own key, or else the one receipts are bound with. -/
def integrityKey (host : Host) : Option Key := host.outboxKey <|> host.key

def sealEntry (host : Host) (receipt : Receipt) : Content :=
  match integrityKey host with
  | none => .marked receipt
  | some key => .tagged key receipt

def unsealEntry (host : Host) : Content → Except DecodeError Receipt
  | .tagged key receipt =>
    match integrityKey host with
    | none => .error .outboxKeyUnavailable
    | some given => if given = key then .ok receipt else .error .outboxBadTag
  | .marked receipt =>
    match integrityKey host with
    | none => .ok receipt
    | some _ => .error .outboxUntaggedEntry
  | .raw receipt =>
    match integrityKey host with
    | none => (receipt.map .ok).getD (.error .foreignFormat)
    | some _ => .error .outboxUntaggedEntry

@[simp] theorem unsealEntry_sealEntry (host : Host) (receipt : Receipt) : unsealEntry host (sealEntry host receipt) = .ok receipt := by
  unfold sealEntry
  split <;> simp_all [unsealEntry]

/-- The files of the directory. A directory that does not exist has none. -/
abbrev Directory := List (Name × Content)

namespace Directory

def names (directory : Directory) : List Name := directory.map Prod.fst

def read (directory : Directory) (name : Name) : Option Content := directory.lookup name

def remove (directory : Directory) (name : Name) : Directory :=
  directory.filter fun file => file.1 ≠ name

def write (directory : Directory) (name : Name) (content : Content) : Directory :=
  (name, content) :: directory.remove name

/-- The target of a rename is replaced in one step. -/
def rename (directory : Directory) (source target : Name) : Option Directory :=
  (directory.read source).map fun content => (directory.remove source).write target content

end Directory

/-- One file operation. -/
inductive FileCall where
  | list
  | read (name : Name)
  | write (name : Name) (content : Content)
  | rename (source target : Name)
  | remove (name : Name)
  deriving Repr, DecidableEq

abbrev FileCall.Reply : FileCall → Type
  | .list => Except FileError (List Name)
  | .read _ => Except FileError Content
  | .write _ _ | .rename _ _ | .remove _ => Except FileError Unit

/-- What an operation does that does not fault. -/
def Directory.serve (directory : Directory) : (call : FileCall) → call.Reply × Directory
  | .list => (.ok directory.names, directory)
  | .read name => ((directory.read name).map .ok |>.getD (.error .enoent), directory)
  | .write name content => (.ok (), directory.write name content)
  | .rename source target =>
    match directory.rename source target with
    | some directory => (.ok (), directory)
    | none => (.error .enoent, directory)
  | .remove name =>
    if name ∈ directory.names then (.ok (), directory.remove name) else (.error .enoent, directory)

/-- A faulting operation changes nothing. -/
def FileCall.fault : (call : FileCall) → call.Reply
  | .list | .read _ | .write _ _ | .rename _ _ | .remove _ => .error .other

namespace Directory

variable {directory : Directory} {file : Name × Content} {name other source target : Name}
  {content : Content}

@[simp] theorem mem_names : name ∈ directory.names ↔ ∃ content, (name, content) ∈ directory := by
  simp [names]

@[simp] theorem mem_remove : file ∈ directory.remove name ↔ file ∈ directory ∧ file.1 ≠ name := by
  simp [remove]

@[simp] theorem mem_write : file ∈ directory.write name content ↔
    file = (name, content) ∨ file ∈ directory ∧ file.1 ≠ name := by
  simp [write]

theorem mem_of_read (found : directory.read name = some content) : (name, content) ∈ directory := by
  obtain ⟨before, after, rfl, _⟩ := List.lookup_eq_some_iff.mp found
  simp

theorem read_isSome_iff : (directory.read name).isSome ↔ name ∈ directory.names := by
  unfold read names
  induction directory with
  | nil => simp
  | cons file rest ih =>
    by_cases same : name = file.1
    · simp [same]
    · simp [same]

/-- Where the files of a directory after one operation come from. -/
theorem serve_files (directory : Directory) (call : FileCall)
    (member : file ∈ (directory.serve call).2) :
    file ∈ directory ∨ (∃ name content, call = .write name content ∧ file = (name, content)) ∨
      ∃ source target content, call = .rename source target ∧ (source, content) ∈ directory ∧
        file = (target, content) := by
  cases call with
  | list | read _ => exact .inl member
  | write name content =>
    rcases mem_write.mp member with rfl | ⟨kept, _⟩
    · exact .inr (.inl ⟨name, content, rfl, rfl⟩)
    · exact .inl kept
  | rename source target =>
    simp only [serve, rename] at member
    cases found : directory.read source with
    | none => exact .inl (by simpa [found] using member)
    | some content =>
      simp only [found, Option.map_some, mem_write, mem_remove] at member
      rcases member with rfl | ⟨⟨kept, _⟩, _⟩
      · exact .inr (.inr ⟨source, target, content, rfl, mem_of_read found, rfl⟩)
      · exact .inl kept
  | remove name =>
    simp only [serve] at member
    split at member
    · exact .inl (mem_remove.mp member).1
    · exact .inl member

/-- A name is lost only to its removal, or to a rename away from it. -/
theorem serve_names (directory : Directory) (call : FileCall) (present : name ∈ directory.names) :
    name ∈ (directory.serve call).2.names ∨ call = .remove name ∨
      ∃ target, call = .rename name target := by
  obtain ⟨content, member⟩ := mem_names.mp present
  cases call with
  | list | read _ => exact .inl present
  | write other written =>
    refine .inl (mem_names.mpr ?_)
    by_cases same : name = other
    · exact ⟨written, mem_write.mpr (.inl (by rw [same]))⟩
    · exact ⟨content, mem_write.mpr (.inr ⟨member, same⟩)⟩
  | rename source target =>
    by_cases moved : name = source
    · exact .inr (.inr ⟨target, by rw [moved]⟩)
    · refine .inl ?_
      simp only [serve, rename]
      cases directory.read source with
      | none => exact present
      | some found =>
        refine mem_names.mpr ?_
        by_cases same : name = target
        · exact ⟨found, mem_write.mpr (.inl (by rw [same]))⟩
        · exact ⟨content, mem_write.mpr (.inr ⟨mem_remove.mpr ⟨member, moved⟩, same⟩)⟩
  | remove other =>
    by_cases same : name = other
    · exact .inr (.inl (by rw [same]))
    · refine .inl ?_
      simp only [serve]
      split
      · exact mem_names.mpr ⟨content, mem_remove.mpr ⟨member, same⟩⟩
      · exact present

theorem serve_rename_ok (moved : (directory.serve (.rename source target)).1 = .ok ()) :
    target ∈ (directory.serve (.rename source target)).2.names := by
  simp only [serve, rename] at moved ⊢
  cases found : directory.read source with
  | none => simp [found] at moved
  | some content => simp

end Directory

/-- The receipt that a reader of this file may come to hold. -/
def Content.Carries : Content → Receipt → Prop
  | .tagged _ given, receipt | .marked given, receipt => given = receipt
  | .raw given, receipt => given = some receipt

theorem carries_of_unsealEntry {host : Host} {content : Content} {receipt : Receipt}
    (read : unsealEntry host content = .ok receipt) : content.Carries receipt := by
  unfold unsealEntry at read
  cases content with
  | tagged key given =>
    simp only at read
    split at read
    · cases read
    · split at read
      · cases read; rfl
      · cases read
  | marked given =>
    simp only at read
    split at read
    · cases read; rfl
    · cases read
  | raw given =>
    simp only at read
    split at read
    · cases given with
      | none => cases read
      | some given => cases read; rfl
    · cases read

theorem carries_sealEntry {host : Host} {receipt given : Receipt} :
    (sealEntry host receipt).Carries given ↔ given = receipt := by
  unfold sealEntry
  split <;> exact eq_comm

end AshA2A.ReceiptOutbox
