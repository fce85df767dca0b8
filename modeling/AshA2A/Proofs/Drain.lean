import AshA2A.Cluster.DrainManager
import AshA2A.Concurrency.Paths
import AshA2A.Term
import Mathlib.Data.List.Nodup

/-! What a drain leaves of the tasks that were tracked at the cordon. -/

namespace AshA2A.Cluster
open DrainManager Concurrency

namespace Node

/-- A report of the monitor of a tracked task is taken for that task. The manager looks the
process up instead, and a process may have several tasks. -/
def Matched (order : Order) (node : Node) : Event → Prop
  | .down ref pid _ => ∀ task ∈ node.manager.tracked, task.2.monitorRef = ref →
      ((order.list node.manager.tracked).find? fun task => task.2.pid = pid) = some task
  | _ => True

/-- After the drain, a task tracked at the cordon has concluded or was checkpointed, and that once. -/
def Accounted (node : Node) (taskId : String) : Prop :=
  (taskId ∈ node.concluded ∧ node.landed.count taskId = 0) ∨
    (taskId ∉ node.concluded ∧ node.landed.count taskId = 1)

/-- What holds of the manager and of the history at every step. -/
structure Sound (node : Node) : Prop where
  ids : (taskIds node.manager.tracked).Nodup
  refs : (node.manager.tracked.map fun task => task.2.monitorRef).Nodup
  fresh : ∀ task ∈ node.manager.tracked, task.2.monitorRef < node.nextRef
  running : ∀ taskId ∈ taskIds node.manager.tracked, taskId ∉ node.concluded
  ticking : node.ticking = true → node.manager.phase = .cordoned
  serving : node.manager.phase = .serving → node.atCordon = []
  cordoned : node.manager.phase ≠ .serving → taskIds node.manager.tracked ⊆ node.atCordon
  unlanded : node.stopped = none → node.manager.phase ≠ .exiting → node.landed = []
  once : node.landed.Nodup
  landed : ∀ taskId ∈ node.landed, taskId ∈ node.atCordon ∧ taskId ∉ node.concluded
  kept : node.manager.phase ≠ .exiting → ∀ taskId ∈ node.atCordon,
    taskId ∈ taskIds node.manager.tracked ∨ taskId ∈ node.concluded
  exited : node.manager.phase = .exiting → node.manager.tracked = [] ∧
    (node.manager.taskStore = true → ∀ taskId ∈ node.atCordon, taskId ∈ node.concluded ∨ taskId ∈ node.landed)
  storeless : node.manager.taskStore = false → node.landed = []

end Node

/-! ### The tracked tasks -/

section
variable {tracked : Tracked} {taskId : String} {entry : Entry}

open Node

theorem mem_delete {task : String × Entry} : task ∈ delete tracked taskId ↔ task ∈ tracked ∧ task.1 ≠ taskId := by
  simp [delete, List.mem_filter]

theorem mem_taskIds_delete {other : String} :
    other ∈ taskIds (delete tracked taskId) ↔ other ∈ taskIds tracked ∧ other ≠ taskId := by
  simp only [taskIds, List.mem_map, mem_delete]
  constructor
  · rintro ⟨task, ⟨member, different⟩, rfl⟩
    exact ⟨⟨task, member, rfl⟩, different⟩
  · rintro ⟨⟨task, member, rfl⟩, different⟩
    exact ⟨task, ⟨member, different⟩, rfl⟩

theorem mem_taskIds_cons {task : String × Entry} {other : String} :
    other ∈ taskIds (task :: tracked) ↔ other = task.1 ∨ other ∈ taskIds tracked := List.mem_cons

theorem delete_sublist : (delete tracked taskId).Sublist tracked := List.filter_sublist

theorem mem_taskIds_put {other : String} :
    other ∈ taskIds (put tracked taskId entry) ↔ other = taskId ∨ other ∈ taskIds tracked := by
  unfold put
  rw [taskIds, List.map_cons, List.mem_cons, ← taskIds, mem_taskIds_delete]
  by_cases same : other = taskId
  · simp [same]
  · simp [same]

theorem nodup_put (ids : (taskIds tracked).Nodup) : (taskIds (put tracked taskId entry)).Nodup := by
  unfold put
  rw [taskIds, List.map_cons, List.nodup_cons, ← taskIds]
  exact ⟨fun member => (mem_taskIds_delete.mp member).2 rfl, ids.sublist (delete_sublist.map Prod.fst)⟩

theorem lookup_none (found : tracked.lookup taskId = none) : taskId ∉ taskIds tracked := by
  intro member
  obtain ⟨task, among, rfl⟩ := List.mem_map.mp member
  have known := List.lookup_eq_none_iff.mp found task among
  simp at known

/-- A report releases one task of the process, if it has any. -/
theorem down_cases (order : Order) {manager : DrainManager} (ids : (taskIds manager.tracked).Nodup) (pid : Nat)
    (reason : Term) :
    (((order.list manager.tracked).find? fun task => task.2.pid = pid) = none ∧
      manager.down order pid reason = (none, manager)) ∨
    ∃ taskId entry, ((order.list manager.tracked).find? fun task => task.2.pid = pid) = some (taskId, entry) ∧
      (taskId, entry) ∈ manager.tracked ∧
      manager.down order pid reason = (some entry.monitorRef,
        { manager with
          tracked := delete manager.tracked taskId
          finished := (taskId, reason) :: manager.finished.filter fun done => done.1 ≠ taskId }) := by
  unfold DrainManager.down
  cases found : (order.list manager.tracked).find? fun task => task.2.pid = pid with
  | none => exact .inl ⟨rfl, rfl⟩
  | some task =>
    obtain ⟨taskId, entry⟩ := task
    have member : (taskId, entry) ∈ manager.tracked := (order.perm _).mem_iff.mp (List.mem_of_find?_eq_some found)
    refine .inr ⟨taskId, entry, rfl, member, ?_⟩
    simp only [releaseTask, lookup_of_mem ids member]

/-! ### The sweep -/

/-- A sweep takes the tasks in their order until a landing fails. -/
theorem sweep_cases (taskStore : Bool) (lands : String → Bool) (tasks : Tracked) (swept : Sweep) :
    ∃ done rest, tasks = done ++ rest ∧
      (sweep taskStore lands tasks swept).1.landed =
        (if taskStore then (taskIds done).reverse ++ swept.landed else swept.landed) ∧
      ((sweep taskStore lands tasks swept).2 = true → rest = []) ∧
      ∀ task, task ∈ (sweep taskStore lands tasks swept).1.tracked ↔
        task ∈ swept.tracked ∧ task.1 ∉ taskIds done := by
  induction tasks generalizing swept with
  | nil => exact ⟨[], [], rfl, by simp [sweep, taskIds], fun _ => rfl, by simp [sweep, taskIds]⟩
  | cons task rest hypothesis =>
    cases taskStore with
    | true =>
      by_cases stored : lands task.1 = true
      · obtain ⟨done, left, split, landed, whole, kept⟩ :=
          hypothesis ⟨task.1 :: swept.checkpointed, delete swept.tracked task.1, task.1 :: swept.landed⟩
        simp only [sweep, stored, if_true] at landed whole kept ⊢
        refine ⟨task :: done, left, by rw [split, List.cons_append], ?_, whole, fun other => ?_⟩
        · simp [landed, taskIds]
        · rw [kept, mem_delete, mem_taskIds_cons, not_or, and_assoc]
      · refine ⟨[], task :: rest, rfl, ?_, ?_, ?_⟩ <;> simp [sweep, stored, taskIds]
    | false =>
      obtain ⟨done, left, split, landed, whole, kept⟩ :=
        hypothesis { swept with tracked := delete swept.tracked task.1 }
      simp only [sweep, Bool.false_eq_true, if_false] at landed whole kept ⊢
      refine ⟨task :: done, left, by rw [split, List.cons_append], landed, whole, fun other => ?_⟩
      rw [kept, mem_delete, mem_taskIds_cons, not_or, and_assoc]

end

/-! ### Every event -/

namespace Node.Sound
variable {node : Node}

theorem track (sound : Sound node) (running : node.stopped = none) (serving : node.manager.phase = .serving)
    {taskId : String} {pid : Nat} {frame : Term} {monitors : List (Nat × Nat)} :
    Sound { node with
      manager := { node.manager with tracked := put node.manager.tracked taskId ⟨node.nextRef, pid, frame⟩ }
      monitors
      nextRef := node.nextRef + 1
      concluded := node.concluded.filter (· ≠ taskId) } where
  ids := nodup_put sound.ids
  refs := by
    unfold put
    rw [List.map_cons, List.nodup_cons]
    refine ⟨fun member => ?_, sound.refs.sublist (delete_sublist.map _)⟩
    obtain ⟨task, member, same⟩ := List.mem_map.mp member
    have older := sound.fresh task (mem_delete.mp member).1
    exact Nat.ne_of_lt older same
  fresh := by
    intro task member
    rcases List.mem_cons.mp member with rfl | member
    · exact Nat.lt_succ_self _
    · exact Nat.lt_succ_of_lt (sound.fresh task (mem_delete.mp member).1)
  running := by
    intro other member concluded
    obtain ⟨concluded, different⟩ := List.mem_filter.mp concluded
    rcases mem_taskIds_put.mp member with rfl | member
    · simp at different
    · exact sound.running other member concluded
  ticking := sound.ticking
  serving := sound.serving
  cordoned cordoned := absurd serving cordoned
  unlanded := sound.unlanded
  once := sound.once
  landed taskId member := by
    rw [sound.unlanded running (by simp [serving])] at member
    cases member
  kept _ other member := by
    rw [sound.serving serving] at member
    cases member
  exited exiting := by cases serving.symm.trans exiting
  storeless := sound.storeless

theorem updateFrame (sound : Sound node) (taskId : String) (frame : Term) :
    Sound { node with manager := node.manager.updateFrame taskId frame } := by
  unfold DrainManager.updateFrame
  cases found : node.manager.tracked.lookup taskId with
  | none => exact sound
  | some entry =>
    have member := mem_of_lookup found
    have known : taskId ∈ taskIds node.manager.tracked := List.mem_map.mpr ⟨_, member, rfl⟩
    have same : ∀ other, other ∈ taskIds (put node.manager.tracked taskId { entry with frame }) ↔
        other ∈ taskIds node.manager.tracked := by
      intro other
      rw [mem_taskIds_put, or_iff_right_iff_imp]
      rintro rfl
      exact known
    exact {
      ids := nodup_put sound.ids
      refs := by
        unfold put
        rw [List.map_cons, List.nodup_cons]
        refine ⟨fun among => ?_, sound.refs.sublist (delete_sublist.map _)⟩
        obtain ⟨task, among, equal⟩ := List.mem_map.mp among
        obtain ⟨among, different⟩ := mem_delete.mp among
        have identical := List.inj_on_of_nodup_map sound.refs among member equal
        exact different (congrArg Prod.fst identical)
      fresh := by
        intro task among
        rcases List.mem_cons.mp among with rfl | among
        · exact (sound.fresh _ member : entry.monitorRef < node.nextRef)
        · exact sound.fresh task (mem_delete.mp among).1
      running := fun other among => sound.running other ((same other).mp among)
      ticking := sound.ticking
      serving := sound.serving
      cordoned := fun cordoned other among => sound.cordoned cordoned ((same other).mp among)
      unlanded := sound.unlanded
      once := sound.once
      landed := sound.landed
      kept := fun phase other among => (sound.kept phase other among).imp_left (same other).mpr
      exited := fun exiting => by
        rw [(sound.exited exiting).1] at member
        cases member
      storeless := sound.storeless }

/-- A tracked task concludes and is tracked no more. -/
theorem conclude (sound : Sound node) (running : node.stopped = none) {taskId : String}
    (tracked : taskId ∈ taskIds node.manager.tracked) {finished : List (String × Term)}
    {monitors : List (Nat × Nat)} {concluded : List String}
    (joins : ∀ other, other ∈ concluded ↔ other = taskId ∨ other ∈ node.concluded) :
    Sound { node with
      manager := { node.manager with tracked := delete node.manager.tracked taskId, finished }
      monitors
      concluded } where
  ids := sound.ids.sublist (delete_sublist.map _)
  refs := sound.refs.sublist (delete_sublist.map _)
  fresh task member := sound.fresh task (mem_delete.mp member).1
  running := by
    intro other member among
    obtain ⟨member, different⟩ := mem_taskIds_delete.mp member
    rcases (joins other).mp among with same | earlier
    · exact different same
    · exact sound.running other member earlier
  ticking := sound.ticking
  serving := sound.serving
  cordoned cordoned other member := sound.cordoned cordoned (mem_taskIds_delete.mp member).1
  unlanded := sound.unlanded
  once := sound.once
  landed := by
    intro other member
    by_cases exiting : node.manager.phase = .exiting
    · rw [(sound.exited exiting).1] at tracked
      cases tracked
    · rw [sound.unlanded running exiting] at member
      cases member
  kept := by
    intro phase other member
    by_cases same : other = taskId
    · exact .inr ((joins other).mpr (.inl same))
    · rcases sound.kept phase other member with kept | earlier
      · exact .inl (mem_taskIds_delete.mpr ⟨kept, same⟩)
      · exact .inr ((joins other).mpr (.inr earlier))
  exited exiting := by
    rw [(sound.exited exiting).1] at tracked
    cases tracked
  storeless := sound.storeless

/-- Nothing is concluded. -/
theorem rest (sound : Sound node) {monitors : List (Nat × Nat)} : Sound { node with monitors } where
  ids := sound.ids
  refs := sound.refs
  fresh := sound.fresh
  running := sound.running
  ticking := sound.ticking
  serving := sound.serving
  cordoned := sound.cordoned
  unlanded := sound.unlanded
  once := sound.once
  landed := sound.landed
  kept := sound.kept
  exited := sound.exited
  storeless := sound.storeless

theorem cordon (sound : Sound node) (running : node.stopped = none) (serving : node.manager.phase = .serving)
    (halt : Bool) (now : Int) : Sound (node.cordon (node.manager.beginDrain halt now)) where
  ids := sound.ids
  refs := sound.refs
  fresh := sound.fresh
  running := sound.running
  ticking _ := rfl
  serving cordoned := by cases cordoned
  cordoned _ _ member := member
  unlanded _ _ := sound.unlanded running (by simp [serving])
  once := sound.once
  landed other member := by
    change other ∈ node.landed at member
    rw [sound.unlanded running (by simp [serving])] at member
    cases member
  kept _ _ member := .inl member
  exited exiting := by cases exiting
  storeless := sound.storeless

theorem finishDrain (sound : Sound node) (running : node.stopped = none) (cordoned : node.manager.phase = .cordoned)
    (order : Order) (now : Int) (lands : String → Bool) : Sound (node.finishDrain order now lands) := by
  have notExiting : node.manager.phase ≠ .exiting := by simp [cordoned]
  have notServing : node.manager.phase ≠ .serving := by simp [cordoned]
  have landed := sound.unlanded running notExiting
  obtain ⟨done, rest, split, taken, whole, left⟩ := sweep_cases node.manager.taskStore lands
    (order.list node.manager.tracked) { tracked := node.manager.tracked, landed := node.landed }
  have enumerated := order.perm node.manager.tracked
  have doneIds : (taskIds done).Nodup := by
    have all : (taskIds (order.list node.manager.tracked)).Nodup := (enumerated.map Prod.fst).nodup_iff.mpr sound.ids
    rw [split, taskIds, List.map_append] at all
    exact (List.nodup_append.mp all).1
  have doneTracked : ∀ other ∈ taskIds done, other ∈ taskIds node.manager.tracked := by
    intro other member
    obtain ⟨task, among, rfl⟩ := List.mem_map.mp member
    have listed : task ∈ order.list node.manager.tracked := split ▸ List.mem_append_left rest among
    exact List.mem_map.mpr ⟨task, enumerated.mem_iff.mp listed, rfl⟩
  have once : ((if node.manager.taskStore then (taskIds done).reverse else []) : List String).Nodup := by
    split
    · exact List.nodup_reverse.mpr doneIds
    · exact List.nodup_nil
  have tookTracked : ∀ other ∈ (if node.manager.taskStore then (taskIds done).reverse else [] : List String),
      other ∈ taskIds node.manager.tracked := by
    intro other member
    split at member
    · exact doneTracked other (List.mem_reverse.mp member)
    · cases member
  have took : ∀ other ∈ (if node.manager.taskStore then (taskIds done).reverse else [] : List String),
      other ∈ node.atCordon ∧ other ∉ node.concluded := fun other member =>
    ⟨sound.cordoned notServing (tookTracked other member), sound.running other (tookTracked other member)⟩
  unfold Node.finishDrain
  cases outcome : sweep node.manager.taskStore lands (order.list node.manager.tracked)
      { tracked := node.manager.tracked, landed := node.landed } with
  | mk swept completed =>
    rw [outcome] at taken whole left
    simp only [landed, List.append_nil] at taken whole left
    cases completed with
    | false =>
      simp only [outcome]
      rw [taken]
      exact {
        ids := sound.ids
        refs := sound.refs
        fresh := sound.fresh
        running := sound.running
        ticking := nofun
        serving := sound.serving
        cordoned := sound.cordoned
        unlanded := nofun
        once := once
        landed := took
        kept := sound.kept
        exited := fun exiting => absurd exiting notExiting
        storeless := fun storeless => by
          change node.manager.taskStore = false at storeless
          rw [storeless]
          rfl }
    | true =>
      have all : done = order.list node.manager.tracked := by rw [split, whole rfl, List.append_nil]
      have none : swept.tracked = [] := by
        rw [List.eq_nil_iff_forall_not_mem]
        intro task member
        obtain ⟨tracked, undone⟩ := (left task).mp member
        apply undone
        rw [all]
        exact List.mem_map.mpr ⟨task, enumerated.mem_iff.mpr tracked, rfl⟩
      simp only [outcome]
      rw [taken, none]
      exact {
        ids := List.nodup_nil
        refs := List.nodup_nil
        fresh := nofun
        running := nofun
        ticking := nofun
        serving := nofun
        cordoned := fun _ => nofun
        unlanded := fun _ exiting => absurd rfl exiting
        once := once
        landed := took
        kept := fun exiting => absurd rfl exiting
        exited := fun _ => by
          refine ⟨rfl, fun stored other member => ?_⟩
          simp only at stored
          rcases sound.kept notExiting other member with tracked | concluded
          · rw [stored, if_pos rfl, List.mem_reverse, all]
            obtain ⟨task, among, rfl⟩ := List.mem_map.mp tracked
            exact .inr (List.mem_map.mpr ⟨task, enumerated.mem_iff.mpr among, rfl⟩)
          · exact .inl concluded
        storeless := fun storeless => by
          change node.manager.taskStore = false at storeless
          rw [storeless]
          rfl }

theorem apply (sound : Sound node) (order : Order) (event : Event) (possible : Possible node event)
    (matched : Matched order node event) : Sound (node.apply order event) := by
  unfold Node.apply
  split
  case isFalse => exact sound
  case isTrue running =>
    cases event with
    | track taskId pid frame =>
      simp only [Node.handle, DrainManager.track]
      by_cases serving : node.manager.phase = .serving
      · rw [if_pos serving]
        exact sound.track running serving
      · rw [if_neg serving]
        exact sound
    | updateFrame taskId frame => exact sound.updateFrame taskId frame
    | release taskId =>
      simp only [Node.handle, releaseTask]
      cases found : node.manager.tracked.lookup taskId with
      | none =>
        have untracked := lookup_none found
        have none : (taskIds node.manager.tracked).filter (· = taskId) = [] := by
          rw [List.filter_eq_nil_iff]
          rintro other member same
          exact untracked (of_decide_eq_true same ▸ member)
        simp only [none, List.nil_append]
        exact sound.rest
      | some entry =>
        have known : taskId ∈ taskIds node.manager.tracked := List.mem_map.mpr ⟨_, mem_of_lookup found, rfl⟩
        refine sound.conclude running known fun other => ?_
        rw [List.mem_append, List.mem_filter, decide_eq_true_iff]
        apply or_congr_left
        exact ⟨fun selected => selected.2, fun same => ⟨same ▸ known, same⟩⟩
    | drain halt now =>
      simp only [Node.handle, DrainManager.drain]
      by_cases serving : node.manager.phase = .serving
      · rw [if_pos serving]
        exact sound.cordon running serving halt now
      · rw [if_neg serving]
        exact sound
    | sigterm now =>
      simp only [Node.handle, DrainManager.sigterm]
      by_cases serving : node.manager.phase = .serving
      · rw [if_pos serving, if_pos serving]
        exact sound.cordon running serving false now
      · rw [if_neg serving, if_neg serving]
        exact sound
    | drainTick now lands =>
      simp only [Node.handle]
      split
      · exact sound.finishDrain running (sound.ticking possible) order now lands
      · exact sound
    | down ref pid reason =>
      rcases down_cases order sound.ids pid reason with
        ⟨found, reply⟩ | ⟨taskId, entry, found, member, reply⟩
      · have none : (node.manager.tracked.filter fun task =>
            task.2.monitorRef = ref ∨ some task.2.monitorRef = none) = [] := by
          rw [List.filter_eq_nil_iff]
          intro task member own
          have same := matched task member (by simpa using own)
          cases found.symm.trans same
        simp only [Node.handle, reply, none, List.map_nil, List.nil_append]
        exact sound.rest
      · have known : taskId ∈ taskIds node.manager.tracked := List.mem_map.mpr ⟨_, member, rfl⟩
        simp only [Node.handle, reply]
        refine sound.conclude running known fun other => ?_
        rw [List.mem_append]
        apply or_congr_left
        simp only [List.mem_map, List.mem_filter, decide_eq_true_eq, Option.some.injEq]
        constructor
        · rintro ⟨task, ⟨among, own | flushed⟩, rfl⟩
          · have same := found.symm.trans (matched task among own)
            rw [← Option.some.inj same]
          · rw [List.inj_on_of_nodup_map sound.refs among member flushed]
        · rintro rfl
          exact ⟨(other, entry), ⟨member, .inr rfl⟩, rfl⟩

end Node.Sound

/-! ### Every run -/

/-- A manager that has just started. -/
def Node.start (taskStore : Bool) (drainTimeoutMs : Nat) (haltAfterDrain : Bool) : Node where
  manager := { taskStore, drainTimeoutMs, haltAfterDrain }

theorem Node.sound_start (taskStore : Bool) (drainTimeoutMs : Nat) (haltAfterDrain : Bool) :
    Sound (start taskStore drainTimeoutMs haltAfterDrain) where
  ids := List.nodup_nil
  refs := List.nodup_nil
  fresh := nofun
  running := nofun
  ticking := nofun
  serving _ := rfl
  cordoned _ := nofun
  unlanded _ _ := rfl
  once := List.nodup_nil
  landed := nofun
  kept _ := nofun
  exited := nofun
  storeless _ := rfl

theorem Node.Sound.accounted {node : Node} (sound : Sound node) (exiting : node.manager.phase = .exiting)
    (stored : node.manager.taskStore = true) {taskId : String} (member : taskId ∈ node.atCordon) :
    Accounted node taskId := by
  by_cases concluded : taskId ∈ node.concluded
  · refine .inl ⟨concluded, List.count_eq_zero.mpr fun landed => ?_⟩
    exact (sound.landed taskId landed).2 concluded
  · refine .inr ⟨concluded, ?_⟩
    rcases (sound.exited exiting).2 stored taskId member with earlier | landed
    · exact absurd earlier concluded
    · exact List.count_eq_one_of_mem sound.once landed

/-- Where reports are taken for their own tasks: nothing is tracked after the cordon that was not
before, nothing that has concluded is checkpointed, and after the drain every task is accounted
for if there is a store, while without one nothing is checkpointed and nothing tracked. -/
theorem drain_accounts (order : Order) (taskStore : Bool) (drainTimeoutMs : Nat) (haltAfterDrain : Bool)
    (events : List Node.Event)
    (guarded : Throughout (Node.apply order)
      (fun node event => node.Possible event ∧ node.Matched order event)
      (Node.start taskStore drainTimeoutMs haltAfterDrain) events) :
    let node := events.foldl (Node.apply order) (Node.start taskStore drainTimeoutMs haltAfterDrain)
    (node.manager.phase ≠ .serving → Node.taskIds node.manager.tracked ⊆ node.atCordon) ∧
      (∀ taskId ∈ node.concluded, taskId ∉ node.landed) ∧
      (node.manager.phase = .exiting → node.manager.taskStore = true →
        ∀ taskId ∈ node.atCordon, node.Accounted taskId) ∧
      (node.manager.taskStore = false → node.landed = [] ∧
        (node.manager.phase = .exiting → node.manager.tracked = [])) := by
  intro node
  have sound : Node.Sound node := guarded.invariant_foldl (Node.sound_start _ _ _)
    fun _ event sound guard => sound.apply order event guard.1 guard.2
  exact ⟨sound.cordoned, fun taskId concluded landed => (sound.landed taskId landed).2 concluded,
    fun exiting stored _ member => sound.accounted exiting stored member,
    fun storeless => ⟨sound.storeless storeless, fun exiting => (sound.exited exiting).1⟩⟩

/-- One task of two concludes, the other is checkpointed. -/
theorem drain_accounts_two :
    let events : List Node.Event :=
      [.track "first" 7 .nil, .track "second" 8 .nil, .drain false 0, .down 0 7 (.atom "normal"),
        .drainTick 25000 fun _ => true]
    let node := events.foldl (Node.apply ⟨id, fun _ => .refl _⟩) (Node.start true 25000 false)
    node.manager.phase = .exiting ∧ node.atCordon = ["second", "first"] ∧ node.Accounted "first" ∧
      node.Accounted "second" := by
  intro events node
  have guarded : Throughout (Node.apply ⟨id, fun _ => .refl _⟩)
      (fun node event => node.Possible event ∧ node.Matched ⟨id, fun _ => .refl _⟩ event)
      (Node.start true 25000 false) events := by
    refine ⟨⟨trivial, trivial⟩, ⟨trivial, trivial⟩, ⟨trivial, trivial⟩, ⟨?_, ?_⟩, ⟨?_, trivial⟩, trivial⟩
    · unfold Node.Possible
      decide
    · unfold Node.Matched
      decide
    · unfold Node.Possible
      decide
  have phase : node.manager.phase = .exiting := by decide
  have atCordon : node.atCordon = ["second", "first"] := by decide
  have accounted := (drain_accounts ⟨id, fun _ => .refl _⟩ true 25000 false events guarded).2.2.1 phase
    (by decide)
  exact ⟨phase, atCordon, accounted "first" (by decide), accounted "second" (by decide)⟩

/-- Without a store, the task that is left at the deadline is neither. -/
theorem storeless_drain_drops :
    let events : List Node.Event := [.track "first" 7 .nil, .drain false 0, .drainTick 25000 fun _ => true]
    let node := events.foldl (Node.apply ⟨id, fun _ => .refl _⟩) (Node.start false 25000 false)
    node.manager.phase = .exiting ∧ node.atCordon = ["first"] ∧ ¬ node.Accounted "first" := by
  unfold Node.Accounted
  decide

end AshA2A.Cluster
