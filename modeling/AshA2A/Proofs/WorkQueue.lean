import AshA2A.Equilibrium.Switchboard
import AshA2A.Term
import Mathlib.Data.List.Induction
import Mathlib.Data.List.Nodup
import Mathlib.Data.List.Perm.Basic

/-! The queue of work orders over whole runs: where each order is, who may complete it, and in which order they are leased. -/

namespace AshA2A.Equilibrium.Switchboard

variable {κ ο τ : Type} [DecidableEq κ] {host : Host κ ο τ} {queue next : Queue κ ο τ} {history : List (Event κ ο τ)} {clock : Nat}

/-! ## What a history says -/

def Event.accept : Event κ ο τ → Option (WorkOrder κ τ)
  | .accepted order => some order
  | _ => none

def Event.grant : Event κ ο τ → Option (WorkOrder κ τ × Lease κ ο τ)
  | .leased order lease => some (order, lease)
  | _ => none

/-- An order arrives when it is accepted, and again when it is reclaimed. -/
def Event.arrive : Event κ ο τ → Option (WorkOrder κ τ)
  | .accepted order => some order
  | .reclaimed lease => some lease.workOrder
  | _ => none

def Event.finish : Event κ ο τ → Option κ
  | .completed id _ _ => some id
  | _ => none

def accepted (history : List (Event κ ο τ)) : List (WorkOrder κ τ) := history.filterMap Event.accept

def granted (history : List (Event κ ο τ)) : List (WorkOrder κ τ × Lease κ ο τ) := history.filterMap Event.grant

def arrivals (history : List (Event κ ο τ)) : List (WorkOrder κ τ) := history.filterMap Event.arrive

def completions (history : List (Event κ ο τ)) : List κ := history.filterMap Event.finish

/-- The latest lease of an order. -/
def latest (history : List (Event κ ο τ)) (id : κ) : Option (Lease κ ο τ) :=
  (((granted history).filter fun grant => grant.1.id = id).map Prod.snd).getLast?

/-- The order was completed with the token and the epoch of its latest lease. -/
def Presented (history : List (Event κ ο τ)) : Prop :=
  ∀ before after id token epoch, history = before ++ .completed id token epoch :: after →
    ∃ lease, latest before id = some lease ∧ lease.token = token ∧ lease.epoch = epoch

/-- What holds of the queue in every run. -/
structure Sound (history : List (Event κ ο τ)) (queue : Queue κ ο τ) : Prop where
  /-- Every order that was accepted is in one place. -/
  placed : ((accepted history).map WorkOrder.id).Perm
    (queue.pending.map WorkOrder.id ++ queue.leases.map Prod.fst ++ queue.completed)
  once : ((accepted history).map WorkOrder.id).Nodup
  waiting : ∀ order ∈ queue.pending, order ∈ accepted history
  held : ∀ entry ∈ queue.leases, entry.2.workOrder.id = entry.1 ∧ entry.2.workOrder ∈ accepted history
  completedOnce : (completions history).Nodup
  presented : Presented history
  /-- The holder of a lease that was reclaimed is refused. -/
  refused : ∀ lease, .reclaimed lease ∈ history →
    complete queue lease.workOrder.id lease.token lease.epoch = .error .staleLease
  /-- The orders are leased as they arrive. -/
  inOrder : arrivals history = (granted history).map Prod.fst ++ queue.pending

/-! ## One step -/

/-- What a queue keeps, with the last epoch of the clock. -/
structure Keeps (clock : Nat) (history : List (Event κ ο τ)) (queue : Queue κ ο τ) : Prop where
  known : ∀ id, id ∈ queue.known ↔ id ∈ (accepted history).map WorkOrder.id
  placed : ((accepted history).map WorkOrder.id).Perm
    (queue.pending.map WorkOrder.id ++ queue.leases.map Prod.fst ++ queue.completed)
  once : ((accepted history).map WorkOrder.id).Nodup
  waiting : ∀ order ∈ queue.pending, order ∈ accepted history
  held : ∀ entry ∈ queue.leases, entry.2.workOrder.id = entry.1 ∧ entry.2.workOrder ∈ accepted history
  running : ∀ entry ∈ queue.leases, entry.2.epoch < entry.2.expiresAt ∧ latest history entry.1 = some entry.2
  finished : queue.completed = (completions history).reverse
  presented : Presented history
  past : ∀ lease, .reclaimed lease ∈ history → lease.epoch < clock ∧
    ∀ entry ∈ queue.leases, entry.1 = lease.workOrder.id → lease.epoch < entry.2.epoch
  inOrder : arrivals history = (granted history).map Prod.fst ++ queue.pending

theorem Keeps.keys (keeps : Keeps clock history queue) :
    (queue.pending.map WorkOrder.id ++ queue.leases.map Prod.fst ++ queue.completed).Nodup :=
  keeps.placed.nodup keeps.once

theorem Keeps.later (keeps : Keeps clock history queue) {now : Nat} (order : clock ≤ now) : Keeps now history queue :=
  { keeps with past := fun lease member => ⟨lt_of_lt_of_le (keeps.past lease member).1 order, (keeps.past lease member).2⟩ }

theorem Presented.snoc (presented : Presented history) {event : Event κ ο τ}
    (fits : ∀ id token epoch, event = .completed id token epoch →
      ∃ lease, latest history id = some lease ∧ lease.token = token ∧ lease.epoch = epoch) : Presented (history ++ [event]) := by
  intro before after id token epoch same
  obtain rfl | ⟨after, last, rfl⟩ := List.eq_nil_or_concat after
  · obtain ⟨rfl, last⟩ := List.append_inj' same rfl
    exact fits id token epoch (List.singleton_injective last)
  · rw [List.concat_eq_append, ← List.cons_append, ← List.append_assoc] at same
    exact presented before after id token epoch (List.append_inj' same rfl).1

section Snoc
variable (history : List (Event κ ο τ)) (event : Event κ ο τ) (leases : List (Lease κ ο τ))

omit [DecidableEq κ]

theorem accepted_snoc : accepted (history ++ [event]) = accepted history ++ event.accept.toList := by
  rw [accepted, List.filterMap_append]
  cases event <;> rfl

theorem granted_snoc : granted (history ++ [event]) = granted history ++ event.grant.toList := by
  rw [granted, List.filterMap_append]
  cases event <;> rfl

theorem arrivals_snoc : arrivals (history ++ [event]) = arrivals history ++ event.arrive.toList := by
  rw [arrivals, List.filterMap_append]
  cases event <;> rfl

theorem completions_snoc : completions (history ++ [event]) = completions history ++ event.finish.toList := by
  rw [completions, List.filterMap_append]
  cases event <;> rfl

variable {leases} in
theorem reclaims_silent {β : Type} {part : Event κ ο τ → Option β} (silent : ∀ lease, part (.reclaimed lease) = none) :
    (leases.map .reclaimed).filterMap part = [] := by
  rw [List.filterMap_map]
  exact List.filterMap_eq_nil_iff.mpr fun lease _ => silent lease

theorem accepted_reclaims : accepted (history ++ leases.map .reclaimed) = accepted history := by
  rw [accepted, List.filterMap_append, reclaims_silent fun _ => rfl, List.append_nil, accepted]

theorem granted_reclaims : granted (history ++ leases.map .reclaimed) = granted history := by
  rw [granted, List.filterMap_append, reclaims_silent fun _ => rfl, List.append_nil, granted]

theorem completions_reclaims : completions (history ++ leases.map .reclaimed) = completions history := by
  rw [completions, List.filterMap_append, reclaims_silent fun _ => rfl, List.append_nil, completions]

theorem arrivals_reclaims : arrivals (history ++ leases.map .reclaimed) = arrivals history ++ leases.map Lease.workOrder := by
  rw [arrivals, List.filterMap_append, List.filterMap_map, ← List.filterMap_eq_map]
  rfl

end Snoc

section Latest
variable (history : List (Event κ ο τ))

theorem latest_snoc (event : Event κ ο τ) (other : event.grant = none) (id : κ) : latest (history ++ [event]) id = latest history id := by
  rw [latest, granted_snoc, other, Option.toList_none, List.append_nil, latest]

theorem latest_leased (order : WorkOrder κ τ) (lease : Lease κ ο τ) (id : κ) :
    latest (history ++ [.leased order lease]) id = if order.id = id then some lease else latest history id := by
  rw [latest, granted_snoc, Event.grant, Option.toList_some, List.filter_append, List.map_append]
  split
  case isTrue same => rw [List.filter_cons_of_pos (by simpa using same), List.filter_nil, List.map_singleton, List.getLast?_concat]
  case isFalse other =>
    rw [List.filter_cons_of_neg (by simpa using other), List.filter_nil, List.map_nil, List.append_nil, latest]

theorem latest_reclaims (leases : List (Lease κ ο τ)) (id : κ) : latest (history ++ leases.map .reclaimed) id = latest history id := by
  rw [latest, granted_reclaims, latest]

end Latest

theorem Presented.reclaims (presented : Presented history) (leases : List (Lease κ ο τ)) :
    Presented (history ++ leases.map .reclaimed) := by
  induction leases using List.reverseRecOn with
  | nil => rwa [List.map_nil, List.append_nil]
  | append_singleton leases lease ih =>
    rw [List.map_append, ← List.append_assoc]
    exact ih.snoc nofun

theorem Keeps.enqueue {order : WorkOrder κ τ} (keeps : Keeps clock history queue) (done : enqueue queue order = .ok next) :
    Keeps clock (history ++ [.accepted order]) next := by
  rw [Switchboard.enqueue] at done
  split at done
  case isTrue => cases done
  case isFalse fresh =>
    split at done
    case isTrue => cases done
    case isFalse =>
      cases done
      have accept : accepted (history ++ [.accepted order]) = accepted history ++ [order] := accepted_snoc ..
      have before : ∀ known ∈ accepted history, known ∈ accepted (history ++ [.accepted order]) := fun known member => by
        rw [accept]
        exact List.mem_append_left _ member
      have new : order.id ∉ (accepted history).map WorkOrder.id := fun member => fresh ((keeps.known _).mpr member)
      refine ⟨fun id => ?_, ?_, ?_, ?_, fun entry member => ?_, fun entry member => ?_, ?_, ?_, fun lease member => ?_, ?_⟩
      · rw [accept, List.map_append, List.mem_append, ← keeps.known id]
        simp [or_comm]
      · have placed := keeps.placed
        rw [List.perm_iff_count] at placed ⊢
        intro id
        have count := placed id
        simp only [accept, List.map_append, List.count_append] at count ⊢
        omega
      · rw [accept, List.map_append, List.nodup_append]
        refine ⟨keeps.once, List.nodup_singleton _, ?_⟩
        rintro id member _ last rfl
        obtain rfl := List.mem_singleton.mp last
        exact new member
      · refine List.forall_mem_append.mpr ⟨fun known member => before known (keeps.waiting known member), ?_⟩
        refine List.forall_mem_singleton.mpr ?_
        rw [accept]
        exact List.mem_append_right _ List.mem_cons_self
      · obtain ⟨same, known⟩ := keeps.held entry member
        exact ⟨same, before _ known⟩
      · obtain ⟨runs, last⟩ := keeps.running entry member
        exact ⟨runs, (latest_snoc _ _ rfl _).trans last⟩
      · rw [completions_snoc]
        exact keeps.finished.trans (congrArg List.reverse (List.append_nil _).symm)
      · exact keeps.presented.snoc nofun
      · obtain earlier | now := List.mem_append.mp member
        · exact keeps.past lease earlier
        · cases List.mem_singleton.mp now
      · rw [arrivals_snoc, granted_snoc, keeps.inOrder]
        show _ ++ [order] = (granted history ++ []).map Prod.fst ++ (queue.pending ++ [order])
        rw [List.append_nil, List.append_assoc]

/-- No lease stands for an order that waits. -/
theorem Keeps.unleased (keeps : Keeps clock history queue) {order : WorkOrder κ τ} (waits : order ∈ queue.pending) :
    (queue.leases.filter fun entry => entry.1 ≠ order.id) = queue.leases := by
  refine List.filter_eq_self.mpr fun entry member => decide_eq_true fun same => ?_
  have apart := (List.nodup_append.mp (List.nodup_append.mp keeps.keys).1).2.2
  exact apart _ (List.mem_map_of_mem waits) _ (List.mem_map_of_mem member) same.symm

theorem Keeps.lease {owner : ο} {epoch ttl : Nat} {order : WorkOrder κ τ} {lease : Lease κ ο τ} (keeps : Keeps clock history queue)
    (order_ : clock ≤ epoch) (done : Switchboard.lease host queue owner epoch ttl = some (some (order, lease), next)) :
    Keeps epoch (history ++ [.leased order lease]) next := by
  rw [Switchboard.lease] at done
  split at done
  case isFalse => cases done
  case isTrue positive =>
    split at done
    case h_1 => cases done
    case h_2 rest pending =>
      cases done
      have waits : order ∈ queue.pending := pending ▸ List.mem_cons_self
      rw [keeps.unleased waits]
      let lease : Lease κ ο τ := ⟨owner, epoch, canonicalDigest host order.id owner epoch, epoch + ttl, order⟩
      have accept : accepted (history ++ [.leased order lease]) = accepted history :=
        (accepted_snoc ..).trans (List.append_nil _)
      have own : order.id ∉ queue.leases.map Prod.fst := by
        intro member
        have apart := (List.nodup_append.mp (List.nodup_append.mp keeps.keys).1).2.2
        exact apart _ (List.mem_map_of_mem waits) _ member rfl
      refine ⟨fun id => ?_, ?_, ?_, ?_, ?_, ?_, ?_, ?_, fun past member => ?_, ?_⟩
      · rw [accept]
        exact keeps.known id
      · have placed := keeps.placed
        rw [accept]
        rw [List.perm_iff_count] at placed ⊢
        intro id
        have count := placed id
        simp only [pending, List.map_cons, List.count_append, List.count_cons] at count ⊢
        omega
      · rw [accept]
        exact keeps.once
      · rw [accept]
        exact fun known member => keeps.waiting known (pending ▸ List.mem_cons_of_mem _ member)
      · rw [accept]
        exact List.forall_mem_cons.mpr ⟨⟨rfl, keeps.waiting order waits⟩, keeps.held⟩
      · refine List.forall_mem_cons.mpr ⟨⟨Nat.lt_add_of_pos_right positive, ?_⟩, fun entry member => ?_⟩
        · rw [latest_leased, if_pos rfl]
        · obtain ⟨runs, last⟩ := keeps.running entry member
          have other : order.id ≠ entry.1 := fun same => own (same ▸ List.mem_map_of_mem member)
          exact ⟨runs, by rw [latest_leased, if_neg other, last]⟩
      · rw [completions_snoc]
        exact keeps.finished.trans (congrArg List.reverse (List.append_nil _).symm)
      · exact keeps.presented.snoc nofun
      · obtain earlier | now := List.mem_append.mp member
        · obtain ⟨before, others⟩ := keeps.past past earlier
          have passed : past.epoch < epoch := lt_of_lt_of_le before order_
          exact ⟨passed, List.forall_mem_cons.mpr ⟨fun _ => passed, others⟩⟩
        · cases List.mem_singleton.mp now
      · rw [arrivals_snoc, granted_snoc, keeps.inOrder, pending, List.map_append]
        show _ ++ [] = _ ++ [order] ++ rest
        rw [List.append_nil, List.append_assoc]
        rfl

theorem Keeps.complete {id : κ} {token : String} {epoch : Nat} (keeps : Keeps clock history queue)
    (done : complete queue id token epoch = .ok next) : Keeps clock (history ++ [.completed id token epoch]) next := by
  rw [Switchboard.complete] at done
  split at done
  case h_2 => cases done
  case h_1 lease found =>
    split at done
    case isFalse => cases done
    case isTrue fits =>
      cases done
      have held : (id, lease) ∈ queue.leases := mem_of_lookup found
      have accept : accepted (history ++ [.completed id token epoch]) = accepted history :=
        (accepted_snoc ..).trans (List.append_nil _)
      have less : ∀ entry ∈ queue.leases.filter (fun entry => entry.1 ≠ id), entry ∈ queue.leases := fun entry member =>
        (List.mem_filter.mp member).1
      refine ⟨fun other => ?_, ?_, ?_, ?_, fun entry member => ?_, fun entry member => ?_, ?_, ?_, fun past member => ?_, ?_⟩
      · rw [accept]
        exact keeps.known other
      · have nodup := (List.nodup_append.mp (List.nodup_append.mp keeps.keys).1).2.1
        have keys : (queue.leases.map Prod.fst).Perm (id :: (queue.leases.filter fun entry => entry.1 ≠ id).map Prod.fst) := by
          have erased := List.perm_cons_erase (List.mem_map_of_mem held : id ∈ queue.leases.map Prod.fst)
          rw [nodup.erase_eq_filter, List.filter_map] at erased
          refine erased.trans (List.Perm.of_eq ?_)
          congr 2
          exact List.filter_congr fun entry _ => (decide_not ..).symm
        have placed := keeps.placed
        rw [accept]
        rw [List.perm_iff_count] at placed keys ⊢
        intro other
        have count := placed other
        have split := keys other
        simp only [List.count_append, List.count_cons] at count split ⊢
        omega
      · rw [accept]
        exact keeps.once
      · rw [accept]
        exact keeps.waiting
      · rw [accept]
        exact keeps.held entry (less entry member)
      · obtain ⟨runs, last⟩ := keeps.running entry (less entry member)
        exact ⟨runs, (latest_snoc _ _ rfl _).trans last⟩
      · rw [completions_snoc, List.reverse_append, keeps.finished]
        rfl
      · refine keeps.presented.snoc fun other token' epoch' same => ?_
        cases same
        exact ⟨lease, (keeps.running _ held).2, fits⟩
      · obtain earlier | now := List.mem_append.mp member
        · obtain ⟨before, others⟩ := keeps.past past earlier
          exact ⟨before, fun entry among => others entry (less entry among)⟩
        · cases List.mem_singleton.mp now
      · rw [arrivals_snoc, granted_snoc, keeps.inOrder]
        show _ ++ [] = (granted history ++ []).map Prod.fst ++ queue.pending
        rw [List.append_nil, List.append_nil]

theorem Keeps.reclaim {now : Nat} (keeps : Keeps clock history queue) (order : clock ≤ now) :
    Keeps now (history ++ ((host.enumerate queue.leases).filter (expired now)).map fun entry => .reclaimed entry.2)
      (Switchboard.reclaim host queue now) := by
  let overdue := (host.enumerate queue.leases).filter (expired now)
  let live := (host.enumerate queue.leases).filter fun entry => !expired now entry
  have next : Switchboard.reclaim host queue now =
      { queue with pending := queue.pending ++ overdue.map fun entry => entry.2.workOrder, leases := live } := by
    rw [Switchboard.reclaim, List.partition_eq_filter_filter]
    rfl
  have events : (overdue.map fun entry => (.reclaimed entry.2 : Event κ ο τ)) = (overdue.map Prod.snd).map .reclaimed := by
    rw [List.map_map]
    rfl
  have split : (overdue ++ live).Perm queue.leases := (List.filter_append_perm _ _).trans (host.enumerated _)
  have isOver : ∀ entry ∈ overdue, entry ∈ queue.leases ∧ entry.2.expiresAt ≤ now := by
    intro entry member
    obtain ⟨among, past⟩ := List.mem_filter.mp member
    exact ⟨(host.enumerated _).subset among, of_decide_eq_true past⟩
  have isLive : ∀ entry ∈ live, entry ∈ queue.leases := fun entry member => (host.enumerated _).subset (List.mem_filter.mp member).1
  show Keeps now (history ++ overdue.map fun entry => .reclaimed entry.2) _
  rw [next, events]
  refine ⟨fun id => ?_, ?_, ?_, ?_, fun entry member => ?_, fun entry member => ?_, ?_, ?_, fun lease member => ?_, ?_⟩
  · rw [accepted_reclaims]
    exact keeps.known id
  · have placed := keeps.placed
    have keys := split.map Prod.fst
    have orders : (overdue.map fun entry => entry.2.workOrder).map WorkOrder.id = overdue.map Prod.fst := by
      rw [List.map_map]
      exact List.map_congr_left fun entry member => (keeps.held entry (isOver entry member).1).1
    rw [accepted_reclaims, List.map_append, orders]
    rw [List.map_append] at keys
    rw [List.perm_iff_count] at placed keys ⊢
    intro id
    have count := placed id
    have parts := keys id
    simp only [List.count_append] at count parts ⊢
    omega
  · rw [accepted_reclaims]
    exact keeps.once
  · rw [accepted_reclaims]
    refine List.forall_mem_append.mpr ⟨keeps.waiting, fun order member => ?_⟩
    obtain ⟨entry, among, rfl⟩ := List.mem_map.mp member
    exact (keeps.held entry (isOver entry among).1).2
  · rw [accepted_reclaims]
    exact keeps.held entry (isLive entry member)
  · rw [latest_reclaims]
    exact keeps.running entry (isLive entry member)
  · rw [completions_reclaims]
    exact keeps.finished
  · exact keeps.presented.reclaims _
  · obtain earlier | late := List.mem_append.mp member
    · obtain ⟨before, others⟩ := keeps.past lease earlier
      exact ⟨lt_of_lt_of_le before order, fun entry among => others entry (isLive entry among)⟩
    · obtain ⟨_, among, same⟩ := List.mem_map.mp late
      cases same
      obtain ⟨entry, ended, rfl⟩ := List.mem_map.mp among
      obtain ⟨leased, past⟩ := isOver entry ended
      refine ⟨lt_of_lt_of_le (keeps.running entry leased).1 past, fun other still same => ?_⟩
      -- the keys of the leases differ, so the order has no other one
      have nodup := (split.map Prod.fst).symm.nodup (List.nodup_append.mp (List.nodup_append.mp keeps.keys).1).2.1
      rw [List.map_append] at nodup
      have key := same.trans (keeps.held entry leased).1
      exact absurd key.symm ((List.nodup_append.mp nodup).2.2 _ (List.mem_map_of_mem ended) _ (List.mem_map_of_mem still))
  · rw [arrivals_reclaims, granted_reclaims, keeps.inOrder, List.append_assoc, List.map_map]
    rfl

theorem lease_empty {owner : ο} {epoch ttl : Nat} (done : Switchboard.lease host queue owner epoch ttl = some (none, next)) :
    next = queue := by
  rw [Switchboard.lease] at done
  split at done
  case isFalse => cases done
  case isTrue =>
    split at done
    case h_1 =>
      cases done
      rfl
    case h_2 => cases done

/-! ## Whole runs -/

/-- The epochs of the calls do not go back. -/
def Clocked (calls : List (Call κ ο τ)) : Prop := (calls.filterMap Call.clock).Pairwise (· ≤ ·)

theorem Keeps.step (keeps : Keeps clock history queue) (call : Call κ ο τ) (order : ∀ now ∈ call.clock, clock ≤ now) :
    Keeps (call.clock.getD clock) (history ++ (step host queue call).1) (step host queue call).2 := by
  cases call with
  | enqueue work =>
    rw [Switchboard.step]
    cases done : Switchboard.enqueue queue work with
    | ok next => exact keeps.enqueue done
    | error =>
      show Keeps clock (history ++ []) queue
      rwa [List.append_nil]
  | lease owner epoch ttl =>
    have later := order epoch rfl
    rw [Switchboard.step]
    split
    case h_1 done => exact keeps.lease later done
    case h_2 next done =>
      rw [List.append_nil, lease_empty done]
      exact keeps.later later
    case h_3 =>
      rw [List.append_nil]
      exact keeps.later later
  | reclaim now => exact keeps.reclaim (order now rfl)
  | complete id token epoch =>
    rw [Switchboard.step]
    cases done : Switchboard.complete queue id token epoch with
    | ok next => exact keeps.complete done
    | error =>
      show Keeps clock (history ++ []) queue
      rwa [List.append_nil]

theorem Keeps.run {calls : List (Call κ ο τ)} (keeps : Keeps clock history queue) (clocked : Clocked calls)
    (order : ∀ now ∈ calls.filterMap Call.clock, clock ≤ now) :
    ∃ clock, Keeps clock (run host (history, queue) calls).1 (run host (history, queue) calls).2 := by
  induction calls generalizing clock history queue with
  | nil => exact ⟨clock, keeps⟩
  | cons call calls ih =>
    rw [Clocked] at clocked
    have stepped := @Keeps.step κ ο τ _ host queue history clock keeps call
    cases time : call.clock with
    | none =>
      rw [List.filterMap_cons_none time] at clocked order
      rw [time] at stepped
      exact ih (stepped nofun) clocked order
    | some now =>
      rw [List.filterMap_cons_some time] at clocked order
      obtain ⟨ahead, clocked⟩ := List.pairwise_cons.mp clocked
      rw [time] at stepped
      refine ih (stepped fun other same => ?_) clocked ahead
      exact order other (Option.some.inj same ▸ List.mem_cons_self)

theorem Keeps.sound (keeps : Keeps clock history queue) : Sound history queue where
  placed := keeps.placed
  once := keeps.once
  waiting := keeps.waiting
  held := keeps.held
  completedOnce := by
    have nodup := (List.nodup_append.mp keeps.keys).2.1
    rw [keeps.finished] at nodup
    exact List.nodup_reverse.mp nodup
  presented := keeps.presented
  refused lease reclaimed := by
    rw [Switchboard.complete]
    split
    case h_2 => rfl
    case h_1 other found =>
      have before := (keeps.past lease reclaimed).2 _ (mem_of_lookup found) rfl
      exact if_neg fun same => absurd same.2 (Nat.ne_of_gt before)
  inOrder := keeps.inOrder

theorem keeps_start (limit : Nat) : Keeps 0 [] ({ limit } : Queue κ ο τ) := by
  refine ⟨fun id => Iff.rfl, List.Perm.refl _, List.nodup_nil, nofun, nofun, nofun, rfl, ?_, nofun, rfl⟩
  intro before after id token epoch same
  exact absurd same.symm (List.append_ne_nil_of_right_ne_nil _ (List.cons_ne_nil _ _))

theorem queue_sound (limit : Nat) {calls : List (Call κ ο τ)} (clocked : Clocked calls) :
    Sound (run host ([], { limit }) calls).1 (run host ([], { limit }) calls).2 := by
  obtain ⟨clock, keeps⟩ := @Keeps.run κ ο τ _ host _ _ 0 calls (keeps_start limit) clocked fun now _ => Nat.zero_le now
  exact keeps.sound

/-! ## Two holders of one order -/

def plainHost : Host Nat String String where
  sha256 bytes := bytes
  external epoch id owner := UInt8.ofNat epoch :: UInt8.ofNat id :: utf8 owner
  enumerate leases := leases
  enumerated _ := .refl _

/-- The first holder comes back after its lease was reclaimed and the order leased to another. -/
def twoHolders : List (Call Nat String String) :=
  [.enqueue ⟨7, "plan"⟩, .lease "first" 1 2, .reclaim 3, .lease "second" 3 2,
    .complete 7 (canonicalDigest plainHost 7 "first" 1) 1, .complete 7 (canonicalDigest plainHost 7 "second" 3) 3]

theorem twoHolders_sound :
    Sound (run plainHost ([], { limit := 8 }) twoHolders).1 (run plainHost ([], { limit := 8 }) twoHolders).2 ∧
      completions (run plainHost ([], { limit := 8 }) twoHolders).1 = [7] :=
  ⟨queue_sound 8 (by unfold Clocked; decide), by decide⟩

end AshA2A.Equilibrium.Switchboard
