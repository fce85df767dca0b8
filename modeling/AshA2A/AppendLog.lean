import Mathlib.Data.List.Basic

/-! A file of lines that is only ever appended to: what a write can leave in it that fails
half-way, and what a stop can take away again that was not synced. Nothing here names a
particular system. -/

namespace AppendLog

structure File (Line : Type) where
  /-- `none` is text that no line can be read from. -/
  lines : List (Option Line) := []
  /-- Text stands after the last line break. -/
  torn : Bool := false
  deriving Repr, DecidableEq

/-- How much of a line reaches the file: nothing, some of it and not its line break, all of it. -/
inductive Landed where
  | nothing | part | whole
  deriving Repr, DecidableEq

variable {Line : Type}

namespace File

/-- What is written behind a torn line runs into it. -/
def write (file : File Line) (line : Line) : Landed → File Line
  | .nothing => file
  | .part => { file with torn := true }
  | .whole => ⟨file.lines ++ [if file.torn then none else some line], false⟩

/-- Cut off what stands after the last line break. -/
def trim (file : File Line) : File Line := { file with torn := false }

/-- The second file continues the first one. -/
def Begins (first second : File Line) : Prop :=
  first.lines <+: second.lines ∧ (first.lines = second.lines → first.torn = true → second.torn = true)

@[simp] theorem write_whole (file : File Line) (line : Line) (whole : file.torn = false) :
    file.write line .whole = ⟨file.lines ++ [some line], false⟩ := by simp [write, whole]

@[simp] theorem trim_lines (file : File Line) : file.trim.lines = file.lines := rfl

@[simp] theorem trim_torn (file : File Line) : file.trim.torn = false := rfl

theorem Begins.refl (file : File Line) : file.Begins file := ⟨List.prefix_rfl, fun _ torn => torn⟩

theorem Begins.trans {first second third : File Line} (left : first.Begins second)
    (right : second.Begins third) : first.Begins third := by
  refine ⟨left.1.trans right.1, fun same torn => ?_⟩
  have short : first.lines = second.lines := by
    refine left.1.eq_of_length_le ?_
    rw [same]
    exact right.1.length_le
  exact right.2 (short.symm.trans same) (left.2 short torn)

theorem begins_write (file : File Line) (line : Line) (landed : Landed) :
    file.Begins (file.write line landed) := by
  cases landed with
  | nothing => exact .refl file
  | part => exact ⟨List.prefix_rfl, fun _ _ => rfl⟩
  | whole => exact ⟨List.prefix_append _ _, fun same => by simp [write] at same⟩

end File

/-- The file as its readers see it, and as much of it as is on the disk for certain. -/
structure Log (Line : Type) where
  file : File Line := {}
  synced : File Line := {}
  deriving Repr, DecidableEq

namespace Log

def write (log : Log Line) (line : Line) (landed : Landed) : Log Line :=
  { log with file := log.file.write line landed }

def sync (log : Log Line) : Log Line := ⟨log.file, log.file⟩

/-- A stop can lose any end of what was not synced. -/
def Survives (log left : Log Line) : Prop :=
  log.synced.Begins left.file ∧ left.file.Begins log.file ∧ left.synced = left.file

/-- Nothing of the file waits to be synced. -/
def Settled (log : Log Line) : Prop := log.synced = log.file

@[simp] theorem write_file (log : Log Line) (line : Line) (landed : Landed) :
    (log.write line landed).file = log.file.write line landed := rfl

@[simp] theorem write_synced (log : Log Line) (line : Line) (landed : Landed) :
    (log.write line landed).synced = log.synced := rfl

@[simp] theorem sync_file (log : Log Line) : log.sync.file = log.file := rfl

@[simp] theorem sync_synced (log : Log Line) : log.sync.synced = log.file := rfl

end Log

end AppendLog
