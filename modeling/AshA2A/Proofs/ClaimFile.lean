import AshA2A.ConsequenceKernel.EffectClaimStore.File
import AshA2A.Crypto

/-! An acknowledged claim outlives every stop of the file store, wherever it cuts off a write, as long
as each load reads what the last rename left. A load that reads anything else goes on from empty
tables, and the effect is granted again. -/

namespace AshA2A.ConsequenceKernel.EffectClaimStore.File

variable {host : Host} {tables : Tables} {world : World} {call : Call} {event : Event}

/-- The effect is claimed by this claim, whose state may have moved on. -/
def Tables.Holds (tables : Tables) (claim : EffectClaim) : Prop :=
  tables.effects.lookup claim.effectId = some claim.claimId ∧
    ∃ state, tables.claims.lookup claim.claimId = some { claim with state := state }

/-! ## One call -/

theorem Tables.put_ok {claim : EffectClaim} (accepted : (tables.put claim).1 = .ok) :
    claim.claimId ∉ tables.claims ∧ claim.effectId ∉ tables.effects ∧
      (tables.put claim).2.claims = tables.claims.insert claim.claimId claim ∧
      (tables.put claim).2.effects = tables.effects.insert claim.effectId claim.claimId := by
  unfold Tables.put at accepted ⊢
  split at accepted
  case isTrue => cases accepted
  case isFalse unknown =>
    split at accepted
    case isTrue => cases accepted
    case isFalse free =>
      rw [if_neg unknown, if_neg free]
      exact ⟨unknown, free, rfl, rfl⟩

theorem Tables.put_refused {claim : EffectClaim} (refused : (tables.put claim).1 ≠ .ok) :
    (tables.put claim).2 = tables := by
  unfold Tables.put at refused ⊢
  split
  · rfl
  · rename_i unknown
    rw [if_neg unknown] at refused
    split
    · rfl
    · rename_i free
      rw [if_neg free] at refused
      exact absurd rfl refused

theorem Tables.Holds.put {claim : EffectClaim} (held : tables.Holds claim) (other : EffectClaim) :
    (tables.put other).2.Holds claim := by
  by_cases accepted : (tables.put other).1 = .ok
  · obtain ⟨unknown, free, claims, effects⟩ := Tables.put_ok accepted
    obtain ⟨owned, state, stored⟩ := held
    have apart : claim.effectId ≠ other.effectId := by
      rintro same
      exact free (same ▸ AList.lookup_isSome.mp (by rw [owned]; rfl))
    have distinct : claim.claimId ≠ other.claimId := by
      rintro same
      exact unknown (same ▸ AList.lookup_isSome.mp (by rw [stored]; rfl))
    refine ⟨?_, state, ?_⟩
    · rw [effects, AList.lookup_insert_ne apart, owned]
    · rw [claims, AList.lookup_insert_ne distinct, stored]
  · rw [Tables.put_refused accepted]
    exact held

theorem Tables.Holds.transition {claim : EffectClaim} (held : tables.Holds claim) (id : String)
    (source target : ClaimState) : (tables.transition id source target).2.Holds claim := by
  unfold Tables.transition
  cases found : tables.claims.lookup id with
  | none => exact held
  | some stored =>
    dsimp only
    split
    · obtain ⟨owned, state, kept⟩ := held
      refine ⟨owned, ?_⟩
      by_cases same : claim.claimId = id
      · subst same
        rw [kept, Option.some.injEq] at found
        exact ⟨target, by rw [AList.lookup_insert, ← found]⟩
      · exact ⟨state, by rw [AList.lookup_insert_ne same, kept]⟩
    · exact held

theorem Tables.Holds.appendReceipt {claim : EffectClaim} (held : tables.Holds claim) (id : String)
    (receipt : ClaimReceipt) : (tables.appendReceipt id receipt).2.Holds claim := by
  unfold Tables.appendReceipt
  split <;> exact held

/-- No call lets go of a claim. -/
theorem Tables.Holds.handle {claim : EffectClaim} (held : tables.Holds claim) (call : Call) :
    (tables.handle call).2.Holds claim := by
  cases call with
  | put other => exact held.put other
  | transition id source target => exact held.transition id source target
  | appendReceipt id receipt => exact held.appendReceipt id receipt
  | fetch id | fetchEffect id | receipts id => exact held

/-- A claim that is acknowledged was free, and is held then. -/
theorem acknowledge_new {claim : EffectClaim} (granted : claim ∈ acknowledge call (tables.handle call).1) :
    acknowledge call (tables.handle call).1 = [claim] ∧ claim.effectId ∉ tables.effects ∧
      (tables.handle call).2.Holds claim := by
  cases call with
  | put other =>
    cases answer : (tables.put other).1 with
    | ok =>
      obtain ⟨-, free, claims, effects⟩ := Tables.put_ok answer
      simp only [Tables.handle, answer, acknowledge, List.mem_singleton] at granted ⊢
      subst granted
      refine ⟨rfl, free, ?_, claim.state, ?_⟩
      · rw [effects, AList.lookup_insert]
      · rw [claims, AList.lookup_insert]
    | found claim | receipts receipts | notFound | error code => simp [Tables.handle, answer, acknowledge] at granted
  | transition id source target | appendReceipt id receipt | fetch id | fetchEffect id | receipts id =>
    simp [acknowledge] at granted

/-! ## Runs -/

/-- What the store promises: whenever it runs, it goes on from what was persisted, it holds every
claim it has acknowledged, and it has granted no effect twice. -/
structure Restored (host : Host) (world : World) : Prop where
  resumed : ∀ server bytes, world.server = some server → world.persisted = some bytes →
    ∃ tables, server = .tables tables ∧ bytes = host.encode tables
  held : ∀ server, world.server = some server → ∀ claim ∈ world.acknowledged,
    ∃ tables, server = .tables tables ∧ tables.Holds claim
  once : (world.acknowledged.map EffectClaim.effectId).Nodup

/-- The store comes up over any file, and takes steps that are allowed. -/
inductive Reached (host : Host) (allowed : World → Event → Prop) : World → Prop where
  | initial (disk : Disk) : Reached host allowed { disk := disk }
  | step {world : World} (before : Reached host allowed world) (event : Event) (may : allowed world event) :
      Reached host allowed (world.step host event)

/-- A load reads the bytes that the last rename left. -/
def LoadsPersisted (world : World) : Event → Prop
  | .start reading => ∀ bytes, world.persisted = some bytes →
      reading.readable = true ∧ reading.atomsKnown = true ∧ world.disk.file = some bytes
  | _ => True

/-- What a run keeps: the invariant of the file and of the server. -/
structure Sound (host : Host) (world : World) : Prop where
  served : ∀ tables, world.server = some (.tables tables) → ∀ claim ∈ world.acknowledged, tables.Holds claim
  current : ∀ server bytes, world.server = some server → world.persisted = some bytes →
    ∃ tables, server = .tables tables ∧ bytes = host.encode tables
  kept : ∀ bytes, world.persisted = some bytes →
    ∃ tables, bytes = host.encode tables ∧ ∀ claim ∈ world.acknowledged, tables.Holds claim
  unwritten : world.persisted = none → world.acknowledged = []
  once : (world.acknowledged.map EffectClaim.effectId).Nodup

theorem Sound.restored (sound : Sound host world) : Restored host world where
  resumed := sound.current
  once := sound.once
  held := by
    intro server running claim granted
    cases persisted : world.persisted with
    | none => rw [sound.unwritten persisted] at granted; cases granted
    | some bytes =>
      obtain ⟨tables, rfl, -⟩ := sound.current server bytes running persisted
      exact ⟨tables, rfl, sound.served tables running claim granted⟩

/-- A server that is not there has nothing to be said of it. -/
theorem Sound.down (sound : Sound host world) : Sound host { world with server := none } :=
  { sound with
    served := by intro tables running; cases running
    current := by intro server bytes running; cases running }

theorem Sound.call_tables (sound : Sound host world) (running : world.server = some (.tables tables)) (call : Call) :
    Sound host (world.step host (.call call)) := by
  simp only [World.step, running]
  split
  case isFalse => exact sound
  case isTrue =>
    have held : ∀ claim ∈ world.acknowledged ++ acknowledge call (tables.handle call).1,
        (tables.handle call).2.Holds claim := by
      intro claim granted
      rcases List.mem_append.mp granted with old | new
      · exact (sound.served tables running claim old).handle call
      · exact (acknowledge_new new).2.2
    refine ⟨?_, ?_, ?_, ?_, ?_⟩
    · rintro _ ⟨⟩
      exact held
    · rintro _ _ ⟨⟩ ⟨⟩
      exact ⟨_, rfl, rfl⟩
    · rintro _ ⟨⟩
      exact ⟨_, rfl, held⟩
    · rintro ⟨⟩
    · rw [List.map_append, List.nodup_append]
      refine ⟨sound.once, ?_, ?_⟩
      · cases new : acknowledge call (tables.handle call).1 with
        | nil => exact List.nodup_nil
        | cons claim rest =>
          have single := (acknowledge_new (by rw [new]; exact List.mem_cons_self)).1
          rw [← new, single]
          exact List.nodup_singleton _
      · rintro effectId old _ new rfl
        obtain ⟨first, granted, rfl⟩ := List.mem_map.mp old
        obtain ⟨second, added, same⟩ := List.mem_map.mp new
        have owned := (sound.served tables running first granted).1
        refine (acknowledge_new added).2.1 ?_
        rw [same]
        exact AList.lookup_isSome.mp (by rw [owned]; rfl)

theorem Sound.cut_tables (sound : Sound host world) (running : world.server = some (.tables tables)) (call : Call)
    (point : Cut) : Sound host (world.step host (.cut call point)) := by
  simp only [World.step, running]
  split
  case isFalse => exact sound.down
  case isTrue =>
    refine ⟨by rintro _ ⟨⟩, by rintro _ _ ⟨⟩, ?_, ?_, sound.once⟩
    · intro bytes persisted
      dsimp only at persisted ⊢
      split at persisted
      · cases persisted
        exact ⟨_, rfl, fun claim granted => (sound.served tables running claim granted).handle call⟩
      · exact sound.kept bytes persisted
    · intro persisted
      dsimp only at persisted ⊢
      split at persisted
      · cases persisted
      · exact sound.unwritten persisted

theorem load_persisted {bytes : Bytes} {reading : Reading} (readable : reading.readable = true)
    (known : reading.atomsKnown = true) (saved : bytes = host.encode tables) :
    load host (some bytes) reading = .tables tables := by
  simp [load, readable, known, saved, host.decode_encode]

theorem Sound.start (sound : Sound host world) (stopped : world.server = none) (reading : Reading)
    (may : LoadsPersisted world (.start reading)) : Sound host (world.step host (.start reading)) := by
  simp only [World.step, stopped]
  rcases Option.eq_none_or_eq_some world.persisted with unwritten | ⟨bytes, persisted⟩
  · refine ⟨?_, ?_, sound.kept, sound.unwritten, sound.once⟩
    · intro tables _ claim granted
      dsimp only at granted
      rw [sound.unwritten unwritten] at granted
      cases granted
    · intro server bytes _ other
      dsimp only at other
      rw [unwritten] at other
      cases other
  · obtain ⟨readable, known, file⟩ := may bytes persisted
    obtain ⟨tables, saved, held⟩ := sound.kept bytes persisted
    have loaded : load host world.disk.file reading = .tables tables := by
      rw [file]
      exact load_persisted readable known saved
    refine ⟨?_, ?_, sound.kept, sound.unwritten, sound.once⟩
    · intro other running
      dsimp only at running
      rw [loaded] at running
      cases running
      exact held
    · intro server other running same
      dsimp only at running same
      rw [loaded] at running
      rw [persisted] at same
      cases running
      cases same
      exact ⟨tables, rfl, saved⟩

theorem Sound.step (sound : Sound host world) (event : Event) (may : LoadsPersisted world event) :
    Sound host (world.step host event) := by
  cases event with
  | call call =>
    cases running : world.server with
    | none => simpa only [World.step, running] using sound
    | some server =>
      cases server with
      | tables tables => exact sound.call_tables running call
      | misshapen => simpa only [World.step, running] using sound.down
  | cut call point =>
    cases running : world.server with
    | none => simpa only [World.step, running] using sound
    | some server =>
      cases server with
      | tables tables => exact sound.cut_tables running call point
      | misshapen => simpa only [World.step, running] using sound.down
  | stop => exact sound.down
  | start reading =>
    cases running : world.server with
    | none => exact sound.start running reading may
    | some server => simpa only [World.step, running] using sound
  | outside file => exact { sound with }

theorem Sound.of_reached (reached : Reached host LoadsPersisted world) : Sound host world := by
  induction reached with
  | initial disk =>
    refine ⟨by rintro _ ⟨⟩, by rintro _ _ ⟨⟩, by rintro _ ⟨⟩, fun _ => rfl, List.nodup_nil⟩
  | step before event may sound => exact sound.step event may

/-- In every run whose loads read what the last rename left, with a stop at any point of any write. -/
theorem acknowledged_restored (host : Host) {world : World} (reached : Reached host LoadsPersisted world) :
    Restored host world := (Sound.of_reached reached).restored

/-! ## A file that was cut short -/

deriving instance Encodable for ClaimState
deriving instance Encodable for EffectClaim
deriving instance Encodable for ClaimReceipt

theorem entries_injective : Function.Injective fun tables : Tables =>
    (tables.claims.entries, tables.effects.entries, tables.receipts.entries) := by
  rintro ⟨claims, effects, receipts⟩ ⟨claims', effects', receipts'⟩ same
  simp only [Prod.mk.injEq] at same
  rw [AList.ext same.1, AList.ext same.2.1, AList.ext same.2.2]

theorem exists_number : ∃ number : Tables → Nat, Function.Injective number :=
  ⟨_, Encodable.encode_injective.comp entries_injective⟩

noncomputable def spell (tables : Tables) : Bytes := List.replicate (exists_number.choose tables) 0

theorem spell_injective : Function.Injective spell := by
  intro first second same
  have length := congrArg List.length same
  simp only [spell, List.length_replicate] at length
  exact exists_number.choose_spec length

open Classical in
/-- A host whose tables are spelled in zeros. -/
noncomputable def spelledHost : Host where
  encode := spell
  decode bytes := if written : ∃ tables, spell tables = bytes then some (.tables written.choose) else none
  decode_encode tables := by
    have written : ∃ other, spell other = spell tables := ⟨tables, rfl⟩
    rw [dif_pos written, spell_injective written.choose_spec]

def sent : EffectClaim := ⟨"claim", "req", "eff", "sha256:prep", "sha256:sub", "owner", .claimed, 1, "mac"⟩

def grantedTables : Tables := (({} : Tables).put sent).2

/-- The store has started over no file and has granted one claim. -/
noncomputable def grantedWorld : World :=
  (World.step spelledHost {} (.start ⟨true, true⟩)).step spelledHost (.call (.put sent))

theorem grantedWorld_reached {allowed : World → Event → Prop} (may : ∀ world event, world.persisted = none → allowed world event) :
    Reached spelledHost allowed grantedWorld := by
  refine .step (.step (.initial {}) _ (may _ _ rfl)) _ (may _ _ rfl)

theorem grantedWorld_eq : grantedWorld =
    ⟨⟨some (spell grantedTables), none⟩, some (.tables grantedTables), [sent], some (spell grantedTables)⟩ := rfl

/-- Stopped and started again over its own file. -/
theorem restarted_restored : Restored spelledHost
    ((grantedWorld.step spelledHost .stop).step spelledHost (.start ⟨true, true⟩)) := by
  refine acknowledged_restored spelledHost (.step (.step (grantedWorld_reached ?_) _ trivial) _ ?_)
  · intro world event unwritten
    cases event with
    | start reading =>
      intro bytes persisted
      rw [unwritten] at persisted
      cases persisted
    | _ => trivial
  · intro bytes persisted
    rw [grantedWorld_eq] at persisted ⊢
    exact ⟨rfl, rfl, persisted⟩

/-- The file is left with a byte that no tables are written as: the next load goes on from empty
tables, and the effect is granted to a second claim. -/
theorem truncated_forgotten : ¬ ∀ host world, Reached host (fun _ _ => True) world → Restored host world := by
  intro restored
  have reached : Reached spelledHost (fun _ _ => True) _ :=
    .step (.step (.step (.step (grantedWorld_reached fun _ _ _ => trivial) .stop trivial) (.outside (some [1])) trivial)
      (.start ⟨true, true⟩) trivial) (.call (.put { sent with claimId := "other" })) trivial
  have unreadable : spelledHost.decode [1] = none := by
    refine dif_neg ?_
    rintro ⟨tables, spelled⟩
    have one : (1 : UInt8) ∈ spell tables := by rw [spelled]; exact List.mem_singleton_self _
    exact absurd (List.eq_of_mem_replicate one) (by decide)
  have once := (restored spelledHost _ reached).once
  rw [grantedWorld_eq] at once
  simp [World.step, load, unreadable, Tables.handle, Tables.put, writes, acknowledge, sent] at once

end AshA2A.ConsequenceKernel.EffectClaimStore.File
