import AshA2A.Fleet
import AshA2A.Proofs.Memory

/-! What one request changes in the world. -/

namespace AshA2A

open Concurrency ReceiptStore ReceiptOutbox

variable {pid : Pid} {op : Op} {choice : Choice} {world after : World} {reply : op.Reply}

/-- The store changes only when it serves somebody; everything else leaves the server where
it is. -/
theorem exec_memory (served : exec pid op choice world = some (reply, after)) :
    (after.memory = world.memory ∧ after.checking = world.checking) ∨
      ∃ call, op = .memory call ∧ world.accepts pid call = true ∧
        after = (world.serveMemory pid call).2 := by
  unfold exec at served
  split at served
  case h_1 call =>
    split at served
    next accepts => cases served; exact .inr ⟨call, rfl, accepts, rfl⟩
    next => cases served
  case h_2 call =>
    split at served
    next accepts =>
      dsimp only at served
      split at served
      · cases served
      · cases served; exact .inr ⟨call, rfl, accepts, rfl⟩
    next => cases served
  case h_3 => split at served <;> cases served; exact .inl ⟨rfl, rfl⟩
  all_goals cases served <;> exact .inl ⟨rfl, rfl⟩

theorem exec_answered {call : MemoryCall} {answer : call.Reply}
    (served : exec pid (.memory call) choice world = some (some answer, after)) :
    world.accepts pid call = true ∧ answer = (world.serveMemory pid call).1 ∧
      after = (world.serveMemory pid call).2 := by
  cases choice <;> simp only [exec] at served
  case served =>
    split at served
    next accepts => cases served; exact ⟨accepts, rfl, rfl⟩
    next => cases served
  case lost =>
    split at served
    next => split at served <;> cases served
    next => cases served
  case unavailable => split at served <;> cases served
  all_goals cases served

/-- What a request does to the claims of commands. -/
theorem exec_claims (served : exec pid op choice world = some (reply, after)) :
    after.memory.claims = world.memory.claims ∨
    (∃ command entry, (world.memory.claims command.commandId = none ∨
        ∃ opts, op = .memory (.claimChecked command opts false)) ∧ entry.receipt = none ∧
      after.memory.claims = Function.update world.memory.claims command.commandId (some entry)) ∨
    (∃ receipt entry, op = .memory (.commit receipt) ∧
      world.memory.claims receipt.commandId = some entry ∧
      entry.executionId = receipt.executionId ∧
      after.memory.claims = Function.update world.memory.claims receipt.commandId
        (some { entry with receipt := some receipt })) := by
  rcases exec_memory served with ⟨same, _⟩ | ⟨call, rfl, _, rfl⟩
  · exact .inl (by rw [same])
  · rcases Memory.serve_claims world.memory ⟨freshId world.serial⟩ world.clock call with
      same | ⟨command, entry, free, unstored, made⟩ | ⟨receipt, entry, rfl, found, execution, made⟩
    · exact .inl same
    · refine .inr (.inl ⟨command, entry, ?_, unstored, made⟩)
      exact free.imp_right fun ⟨opts, checked⟩ => ⟨opts, by rw [checked]⟩
    · exact .inr (.inr ⟨receipt, entry, rfl, found, execution, made⟩)

theorem exec_directory (served : exec pid op choice world = some (reply, after)) :
    after.directory = world.directory ∨
      ∃ call, op = .file call ∧ after.directory = (world.directory.serve call).2 := by
  unfold exec at served
  split at served
  case h_5 call => cases served; exact .inr ⟨call, rfl, rfl⟩
  case h_1 => split at served <;> cases served; exact .inl rfl
  case h_2 =>
    split at served
    · dsimp only at served; split at served <;> cases served; exact .inl rfl
    · cases served
  case h_3 => split at served <;> cases served; exact .inl rfl
  all_goals cases served <;> exact .inl rfl

theorem exec_listed {names : List Name}
    (served : exec pid (.file .list) choice world = some (.ok names, after)) :
    names = world.directory.names ∧ after = world := by
  cases choice <;> simp [exec, Directory.serve, FileCall.fault] at served
  exact ⟨served.1.symm, served.2.symm⟩

theorem exec_read {name : Name} {content : Content}
    (served : exec pid (.file (.read name)) choice world = some (.ok content, after)) :
    (name, content) ∈ world.directory ∧ after = world := by
  cases choice <;> simp only [exec, Directory.serve, FileCall.fault] at served
  case served =>
    cases found : world.directory.read name with
    | none => simp [found] at served
    | some stored =>
      simp only [found, Option.map_some, Option.getD_some] at served
      cases served
      exact ⟨Directory.mem_of_read found, rfl⟩
  all_goals cases served

theorem exec_renamed {source target : Name}
    (served : exec pid (.file (.rename source target)) choice world = some (.ok (), after)) :
    target ∈ after.directory.names := by
  cases choice <;> simp only [exec, FileCall.fault] at served
  case served =>
    cases answered : world.directory.serve (.rename source target) with
    | mk answer directory =>
      simp only [answered] at served
      cases served
      have moved : target ∈ (world.directory.serve (.rename source target)).2.names :=
        Directory.serve_rename_ok (by rw [answered])
      rwa [answered] at moved
  all_goals cases served

theorem exec_serial (served : exec pid op choice world = some (reply, after)) :
    world.serial ≤ after.serial := by
  unfold exec at served
  split at served
  case h_1 => split at served <;> cases served; exact Nat.le_succ _
  case h_2 =>
    split at served
    · dsimp only at served; split at served <;> cases served; exact Nat.le_succ _
    · cases served
  case h_3 => split at served <;> cases served; exact le_rfl
  case h_7 => cases served; exact Nat.le_succ _
  all_goals cases served <;> exact le_rfl

theorem exec_stamp {stamp : Stamp} (served : exec pid .stamp choice world = some (stamp, after)) :
    stamp = world.stamp ∧ after = { world with serial := world.serial + 1 } := by
  cases choice <;> simp only [exec] at served
  case served => cases served; exact ⟨rfl, rfl⟩
  all_goals cases served

/-- Once the server looks at the journal, the others can do nothing to the store. -/
theorem exec_checking {other : Pid} (served : exec pid op choice world = some (reply, after))
    (checking : world.checking = some other) (different : pid ≠ other) :
    after.checking = some other ∧ after.memory = world.memory := by
  rcases exec_memory served with ⟨memory, same⟩ | ⟨call, rfl, accepts, _⟩
  · exact ⟨same ▸ checking, memory⟩
  · have idle : call.resumes = false ∨ world.checking = some pid := by
      unfold World.accepts at accepts
      split at accepts <;> simp_all
    rcases idle with resumes | own
    · simp [World.accepts, resumes, checking] at accepts
    · exact absurd (Option.some.inj (own.symm.trans checking)) different

end AshA2A
