import AshA2A.Runtime
import Mathlib.Data.List.Sort

/-! The journal of receipts that are not in the primary store yet. -/

namespace AshA2A.ReceiptOutbox

open Concurrency

/-- Written under a temporary name first, so that an entry is replaced in one step. -/
def append (host : Host) (receipt : Receipt) : Bus (Except FileError Unit) := do
  let stamp ← Bus.stamp
  let temp := Name.temp (commandKey host receipt.commandId) receipt.receiptId.external stamp.clock
  match ← Bus.file (.write temp (sealEntry host receipt)) with
  | .error error => do
    let _ ← Bus.file (.remove temp)
    pure (.error error)
  | .ok () => do
    match ← Bus.file (.rename temp (entryPath host receipt)) with
    | .error error => do
      let _ ← Bus.file (.remove temp)
      pure (.error error)
    | .ok () => pure (.ok ())

def decodeEntry (host : Host) (name : Name) : Bus (Except DecodeError Receipt) := do
  match ← Bus.file (.read name) with
  | .error error => pure (.error (.file error))
  | .ok content => pure (unsealEntry host content)

/-- `File.regular?/1` of the entry, or of its old name. -/
def anchored (host : Host) (receipt : Receipt) : Bus Bool := do
  match ← Bus.file (.read (entryPath host receipt)) with
  | .ok _ => pure true
  | .error _ => do
    match ← Bus.file (.read (legacyPath receipt)) with
    | .ok _ => pure true
    | .error _ => pure false

def legacyAnchored (host : Host) (commandId : Identity .command) : List Name → Bus Bool
  | [] => pure false
  | name :: names => do
    match ← decodeEntry host name with
    | .ok receipt => if receipt.commandId = commandId then pure true else legacyAnchored host commandId names
    | .error _ => pure true

/-- Any file of the command counts, also one that is still being written. What cannot be
listed or read counts as well. -/
def anchoredCommand (host : Host) (commandId : Identity .command) : Bus Bool := do
  match ← Bus.file .list with
  | .error _ => pure true
  | .ok names =>
    if names.any (Name.keyed (commandKey host commandId)) then pure true
    else legacyAnchored host commandId (names.filter Name.isLegacy)

/-- A directory that cannot be listed has no entries. -/
def entryNames : Bus (List Name) := do
  match ← Bus.file .list with
  | .error _ => pure []
  | .ok names => pure ((names.filter Name.isEntry).insertionSort fun first second => first.text ≤ second.text)

def count : Bus Nat := do
  let names ← entryNames
  pure names.length

def decodeAll (host : Host) : List Name → Bus (List Receipt)
  | [] => pure []
  | name :: names => do
    let decoded ← decodeEntry host name
    let receipts ← decodeAll host names
    match decoded with
    | .ok receipt => pure (receipt :: receipts)
    | .error _ => pure receipts

/-- The entries that decode. -/
def entries (host : Host) : Bus (List Receipt) := do
  let names ← entryNames
  decodeAll host names

def remove (host : Host) (receipt : Receipt) : Bus Unit := do
  let _ ← Bus.file (.remove (legacyPath receipt))
  let _ ← Bus.file (.remove (entryPath host receipt))
  pure ()

/-! The journal asks for files and for names, nothing else. -/

theorem uses_stamp : Bus.stamp.Uses Op.ofStore := Program.uses_ask trivial

theorem uses_file (call : FileCall) : (Bus.file call).Uses Op.ofStore := Program.uses_ask trivial

theorem append_uses (host : Host) (receipt : Receipt) : (append host receipt).Uses Op.ofStore := by
  apply uses_stamp.bind
  intro stamp
  apply (uses_file _).bind
  rintro (error | _)
  · exact (uses_file _).bind fun _ => Program.uses_pure _
  · apply (uses_file _).bind
    rintro (error | _)
    · exact (uses_file _).bind fun _ => Program.uses_pure _
    · exact Program.uses_pure _

theorem decodeEntry_uses (host : Host) (name : Name) : (decodeEntry host name).Uses Op.ofStore := by
  apply (uses_file _).bind
  rintro (error | content) <;> exact Program.uses_pure _

theorem anchored_uses (host : Host) (receipt : Receipt) : (anchored host receipt).Uses Op.ofStore := by
  apply (uses_file _).bind
  rintro (error | content)
  · apply (uses_file _).bind
    rintro (error | content) <;> exact Program.uses_pure _
  · exact Program.uses_pure _

theorem legacyAnchored_uses (host : Host) (commandId : Identity .command) (names : List Name) :
    (legacyAnchored host commandId names).Uses Op.ofStore := by
  induction names with
  | nil => exact Program.uses_pure _
  | cons name names ih =>
    apply (decodeEntry_uses host name).bind
    rintro (error | receipt)
    · exact Program.uses_pure _
    · dsimp only
      split
      · exact Program.uses_pure _
      · exact ih

theorem anchoredCommand_uses (host : Host) (commandId : Identity .command) :
    (anchoredCommand host commandId).Uses Op.ofStore := by
  apply (uses_file _).bind
  rintro (error | names)
  · exact Program.uses_pure _
  · dsimp only
    split
    · exact Program.uses_pure _
    · exact legacyAnchored_uses host commandId _

theorem entryNames_uses : entryNames.Uses Op.ofStore := by
  apply (uses_file _).bind
  rintro (error | names) <;> exact Program.uses_pure _

theorem remove_uses (host : Host) (receipt : Receipt) : (remove host receipt).Uses Op.ofStore :=
  (uses_file _).bind fun _ => (uses_file _).bind fun _ => Program.uses_pure _

end AshA2A.ReceiptOutbox
