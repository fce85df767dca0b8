import AshA2A.Concurrency.Paths
import AshA2A.FinOps.BudgetEnforcer
import Mathlib.Algebra.BigOperators.Group.List.Basic
import Mathlib.Algebra.GroupWithZero.Nat

/-! What an account has consumed in a window, request by request: the estimate of each, and
what its settlements charged beyond it. -/

namespace AshA2A.FinOps
open BudgetStore BudgetEnforcer Concurrency

/-- A settlement of a request, and the window its charge was booked in. -/
structure Settled where
  actual : Nat
  charged : Option Int
  deriving Repr, DecidableEq

/-- An admitted request: its tag, the window it was reserved in, and its settlements. -/
structure Booking where
  tag : Chargeback
  bucket : Int
  settlements : List Settled := []
  deriving Repr, DecidableEq

namespace Booking

def estimate (booking : Booking) : Nat := booking.tag.requested.getD 0

/-- A settlement that charges raises the estimate to the actual usage; any other leaves it. -/
def due (booking : Booking) : Nat :=
  booking.estimate +
    (booking.settlements.map fun settled =>
      if settled.charged.isSome then settled.actual - booking.estimate else 0).sum

/-- What the table holds of it for a window. -/
def held (booking : Booking) (account : Term) (bucket : Int) : Nat :=
  if booking.tag.budgetAccountId = account then
    (if booking.bucket = bucket then booking.estimate else 0) +
      (booking.settlements.map fun settled =>
        if settled.charged = some bucket then settled.actual - booking.estimate else 0).sum
  else 0

/-- The actual usage of a settled request and the estimate of another. -/
def usage (booking : Booking) : Nat :=
  match booking.settlements with
  | [] => booking.estimate
  | settled :: _ => settled.actual

def reservedIn (booking : Booking) (account : Term) (bucket : Int) : Bool :=
  booking.tag.budgetAccountId = account ∧ booking.bucket = bucket

/-- What the request charged to this window, or in another from it, it charged to its own. -/
def Undrifted (booking : Booking) (account : Term) (bucket : Int) : Prop :=
  booking.tag.budgetAccountId = account → ∀ settled ∈ booking.settlements, ∀ charged,
    settled.charged = some charged → charged = bucket ∨ booking.bucket = bucket → charged = booking.bucket

end Booking

inductive BudgetEnforcer.Call where
  | authorize (request : Request) (estimatedTokens : Option Term) (now : Int)
  /-- Of the request admitted at this place. -/
  | settle (place : Nat) (actual : Nat) (now : Int)
  deriving Repr, DecidableEq

/-- The store and the requests it admitted, in their order. -/
structure Desk where
  store : BudgetStore Term
  bookings : List Booking := []

def BudgetEnforcer.Settlement.settled (actual : Nat) (now : Int) : Settlement → Settled
  | .charged reservation => ⟨actual, some (currentBucket now reservation.windowMs)⟩
  | _ => ⟨actual, none⟩

namespace Desk

def apply (finops : TermMap) (desk : Desk) : Call → Desk
  | .authorize request estimatedTokens now =>
    match authorize finops desk.store request estimatedTokens now with
    | (.ok tag, store) =>
      ⟨store, desk.bookings ++ [⟨tag, currentBucket now (tag.windowMs.getD Budget.defaultWindowMs), []⟩]⟩
    | (.error _, store) => ⟨store, desk.bookings⟩
  | .settle place actual now =>
    match desk.bookings[place]? with
    | none => desk
    | some booking =>
      let (settlement, store) := settle desk.store booking.tag actual now
      ⟨store, desk.bookings.set place
        { booking with settlements := settlement.settled actual now :: booking.settlements }⟩

end Desk

/-! ### What a call does -/

theorem authorize_cases (finops : TermMap) (store : BudgetStore Term) (request : Request)
    (estimatedTokens : Option Term) (now : Int) :
    (∃ tag : Chargeback, authorize finops store request estimatedTokens now =
      (.ok tag, store.consume tag.budgetAccountId
        (currentBucket now (tag.windowMs.getD Budget.defaultWindowMs)) (tag.requested.getD 0))) ∨
      ∃ fault, authorize finops store request estimatedTokens now = (.error fault, store) := by
  unfold authorize
  cases resolveAttribution finops request with
  | error fault => exact .inr ⟨fault, rfl⟩
  | ok attribution =>
    obtain ⟨costCenter, budgetAccountId⟩ := attribution
    cases BudgetEnforcer.estimatedTokens request estimatedTokens with
    | error fault => exact .inr ⟨fault, rfl⟩
    | ok estimated =>
      rcases record_cases store budgetAccountId estimated now with ⟨budget, -, -, reply⟩ | ⟨refusal, -, reply⟩
      · simp only [reply]
        exact .inl ⟨_, rfl⟩
      · simp only [reply]
        exact .inr ⟨_, rfl⟩

/-- A settlement is charged if it goes beyond the estimate and still fits under the ceiling. -/
def Chargeable (store : BudgetStore Term) (tag : Chargeback) (actual : Nat) (now : Int) (budget : Budget) : Prop :=
  tag.requested.getD 0 < actual ∧ store.budget tag.budgetAccountId = some budget ∧
    store.usage tag.budgetAccountId (currentBucket now budget.windowMs) + (actual - tag.requested.getD 0) ≤
      budget.ceiling

theorem settle_charged {store : BudgetStore Term} {tag : Chargeback} {actual : Nat} {now : Int} {budget : Budget}
    (chargeable : Chargeable store tag actual now budget) :
    ∃ reservation, reservation.windowMs = budget.windowMs ∧
      settle store tag actual now =
        (.charged reservation, store.consume tag.budgetAccountId (currentBucket now budget.windowMs)
          (actual - tag.requested.getD 0)) := by
  obtain ⟨beyond, inForce, fits⟩ := chargeable
  have positive : 0 < actual - tag.requested.getD 0 := by omega
  rcases record_cases store tag.budgetAccountId (actual - tag.requested.getD 0) now with
    ⟨found, known, -, reply⟩ | ⟨refusal, exceeded, reply⟩
  · cases inForce.symm.trans known
    simp only [settle, if_pos positive, reply]
    exact ⟨_, rfl, rfl⟩
  · have exceeds := exceeded budget inForce
    omega

theorem settle_uncharged {store : BudgetStore Term} {tag : Chargeback} {actual : Nat} {now : Int}
    (none : ∀ budget, ¬ Chargeable store tag actual now budget) :
    (∀ reservation, (settle store tag actual now).1 ≠ .charged reservation) ∧
      (settle store tag actual now).2 = store := by
  unfold settle
  dsimp only
  split
  case isTrue beyond =>
    rcases record_cases store tag.budgetAccountId (actual - tag.requested.getD 0) now with
      ⟨found, known, fits, reply⟩ | ⟨refusal, exceeded, reply⟩
    · exact absurd ⟨by omega, known, fits⟩ (none found)
    · simp [reply]
  case isFalse => simp

theorem BudgetEnforcer.Settlement.settled_uncharged {settlement : Settlement} {actual : Nat} {now : Int}
    (uncharged : ∀ reservation, settlement ≠ .charged reservation) :
    settlement.settled actual now = ⟨actual, none⟩ := by
  cases settlement with
  | charged reservation => exact absurd rfl (uncharged reservation)
  | covered | refused => rfl

/-! ### Every step keeps the sum -/

theorem sum_set {bookings : List Booking} {place more : Nat} {booking updated : Booking} {weigh : Booking → Nat}
    (found : bookings[place]? = some booking) (grown : weigh updated = weigh booking + more) :
    ((bookings.set place updated).map weigh).sum = (bookings.map weigh).sum + more := by
  induction bookings generalizing place with
  | nil => simp at found
  | cons head rest hypothesis =>
    cases place with
    | zero =>
      rw [List.getElem?_cons_zero, Option.some.injEq] at found
      subst found
      rw [List.set_cons_zero, List.map_cons, List.map_cons, List.sum_cons, List.sum_cons, grown]
      omega
    | succ place =>
      rw [List.getElem?_cons_succ] at found
      rw [List.set_cons_succ, List.map_cons, List.map_cons, List.sum_cons, List.sum_cons, hypothesis found]
      omega

theorem Booking.held_settled (booking : Booking) (settled : Settled) (account : Term) (bucket : Int) :
    Booking.held { booking with settlements := settled :: booking.settlements } account bucket =
      booking.held account bucket +
        if booking.tag.budgetAccountId = account ∧ settled.charged = some bucket then settled.actual - booking.estimate
        else 0 := by
  unfold Booking.held
  by_cases same : booking.tag.budgetAccountId = account
  · simp only [same, if_true, true_and, List.map_cons, List.sum_cons, Booking.estimate]
    omega
  · simp [same]

namespace Desk

/-- The table holds for every window what the requests account for. -/
def Accounted (desk : Desk) : Prop :=
  ∀ account bucket, desk.store.usage account bucket = (desk.bookings.map (·.held account bucket)).sum

theorem Accounted.apply {desk : Desk} (accounted : Accounted desk) (finops : TermMap) (call : Call) :
    Accounted (desk.apply finops call) := by
  intro account bucket
  have before := accounted account bucket
  cases call with
  | authorize request estimatedTokens now =>
    rcases authorize_cases finops desk.store request estimatedTokens now with ⟨tag, reply⟩ | ⟨fault, reply⟩
    · simp only [Desk.apply, reply, usage_consume, List.map_append, List.map_cons, List.map_nil, List.sum_append,
        List.sum_cons, List.sum_nil, before, Booking.held, Booking.estimate]
      by_cases same : tag.budgetAccountId = account
      · simp [same, @eq_comm _ bucket]
      · simp [same, Ne.symm same]
    · simp only [Desk.apply, reply, before]
  | settle place actual now =>
    cases found : desk.bookings[place]? with
    | none => simp only [Desk.apply, found, before]
    | some booking =>
      by_cases chargeable : ∃ budget, Chargeable desk.store booking.tag actual now budget
      · obtain ⟨budget, chargeable⟩ := chargeable
        obtain ⟨reservation, length, reply⟩ := settle_charged chargeable
        simp only [Desk.apply, found, reply, usage_consume, before]
        rw [sum_set found (booking.held_settled _ account bucket)]
        simp only [Settlement.settled, length, Booking.estimate, Option.some.injEq, @eq_comm _ account,
          @eq_comm _ bucket]
      · obtain ⟨uncharged, kept⟩ := settle_uncharged (not_exists.mp chargeable)
        simp only [Desk.apply, found, kept, before]
        rw [sum_set found (booking.held_settled _ account bucket), Settlement.settled_uncharged uncharged]
        simp

theorem accounted_init (budgets : List (Term × Budget)) : Accounted ⟨BudgetStore.init budgets, []⟩ := by
  intro account bucket
  rw [usage_init]
  rfl

end Desk

/-! ### Windows nothing drifted into or out of -/

theorem Booking.held_of_undrifted {booking : Booking} {account : Term} {bucket : Int}
    (undrifted : booking.Undrifted account bucket) :
    booking.held account bucket = if booking.reservedIn account bucket then booking.due else 0 := by
  unfold Booking.held Booking.reservedIn Booking.due
  by_cases same : booking.tag.budgetAccountId = account
  case neg => simp [same]
  by_cases here : booking.bucket = bucket
  · simp only [same, here, if_true, and_self, decide_true]
    congr 2
    apply List.map_congr_left
    intro settled member
    cases charged : settled.charged with
    | none => rfl
    | some window =>
      have home := undrifted same settled member window charged (.inr here)
      simp [home, here]
  · simp only [same, here, if_true, if_false, true_and, decide_false, Nat.zero_add, Bool.false_eq_true]
    rw [List.sum_eq_zero]
    intro amount member
    obtain ⟨settled, among, rfl⟩ := List.mem_map.mp member
    rw [if_neg]
    intro charged
    exact here (undrifted same settled among bucket charged (.inl rfl)).symm

theorem sum_held {bookings : List Booking} {account : Term} {bucket : Int}
    (undrifted : ∀ booking ∈ bookings, booking.Undrifted account bucket) :
    (bookings.map (·.held account bucket)).sum =
      ((bookings.filter (·.reservedIn account bucket)).map Booking.due).sum := by
  induction bookings with
  | nil => rfl
  | cons booking rest hypothesis =>
    obtain ⟨here, later⟩ := List.forall_mem_cons.mp undrifted
    rw [List.map_cons, List.sum_cons, hypothesis later, Booking.held_of_undrifted here, List.filter_cons]
    split
    · rw [List.map_cons, List.sum_cons]
    · rw [Nat.zero_add]

/-- What a window has consumed is the estimates of the requests reserved in it, each raised by
the settlements that charged more, if all that these charged stayed in its window. -/
theorem consumption_settled (finops : TermMap) (budgets : List (Term × Budget)) (calls : List Call) :
    let desk := calls.foldl (Desk.apply finops) ⟨BudgetStore.init budgets, []⟩
    (∀ account bucket, (∀ booking ∈ desk.bookings, booking.Undrifted account bucket) →
      desk.store.usage account bucket =
        ((desk.bookings.filter (·.reservedIn account bucket)).map Booking.due).sum) ∧
      ∀ booking ∈ desk.bookings, ∀ actual now,
        (∃ reservation, (settle desk.store booking.tag actual now).1 = .charged reservation) ↔
          ∃ budget, Chargeable desk.store booking.tag actual now budget := by
  intro desk
  have accounted : Desk.Accounted desk :=
    (Throughout.trivial (fun _ _ => True.intro) _ calls).invariant_foldl (Desk.accounted_init budgets)
      fun _ call accounted _ => accounted.apply finops call
  refine ⟨fun account bucket undrifted => (accounted account bucket).trans (sum_held undrifted), ?_⟩
  intro booking _ actual now
  constructor
  · rintro ⟨reservation, charged⟩
    by_contra none
    exact (settle_uncharged (not_exists.mp none)).1 reservation charged
  · rintro ⟨budget, chargeable⟩
    obtain ⟨reservation, -, reply⟩ := settle_charged chargeable
    exact ⟨reservation, by rw [reply]⟩

theorem consumption_settled_beyond :
    let request : Request :=
      some [(.atom "cost_center", .binary "cc"), (.atom "budget_account_id", .binary "invoice"),
        (.atom "tokens", .integer 10)]
    let desk := [Call.authorize request none 0, .settle 0 15 1].foldl (Desk.apply [])
      ⟨BudgetStore.init [(.binary "invoice", ⟨100, 1000, by decide, by decide⟩)], []⟩
    desk.store.usage (.binary "invoice") 0 =
      ((desk.bookings.filter (·.reservedIn (.binary "invoice") 0)).map Booking.due).sum := by
  intro request desk
  have bookings : desk.bookings.map (fun booking => (booking.bucket, booking.settlements)) = [(0, [⟨15, some 0⟩])] := by
    decide
  apply (consumption_settled _ _ _).1
  intro booking member _ settled among charged booked _
  have known : (booking.bucket, booking.settlements) ∈
      desk.bookings.map (fun booking => (booking.bucket, booking.settlements)) :=
    List.mem_map.mpr ⟨booking, member, rfl⟩
  rw [bookings, List.mem_singleton, Prod.mk.injEq] at known
  obtain ⟨bucket, settlements⟩ := known
  rw [settlements, List.mem_singleton] at among
  subst among
  rw [bucket]
  exact (Option.some.inj booked).symm

/-- Five of ten estimated tokens used: nothing is credited. -/
theorem estimate_stays_reserved :
    let request : Request :=
      some [(.atom "cost_center", .binary "cc"), (.atom "budget_account_id", .binary "invoice"),
        (.atom "tokens", .integer 10)]
    let desk := [Call.authorize request none 0, .settle 0 5 1].foldl (Desk.apply [])
      ⟨BudgetStore.init [(.binary "invoice", ⟨100, 1000, by decide, by decide⟩)], []⟩
    ¬ desk.store.usage (.binary "invoice") 0 =
      ((desk.bookings.filter (·.reservedIn (.binary "invoice") 0)).map Booking.usage).sum := by
  decide

end AshA2A.FinOps
