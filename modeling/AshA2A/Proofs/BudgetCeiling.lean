import AshA2A.Concurrency.Paths
import AshA2A.FinOps.BudgetStore
import Mathlib.Algebra.BigOperators.Group.List.Basic
import Mathlib.Tactic.Linarith

/-! The ceiling of an account against everything it was ever admitted: a table that is keyed
by bucket number counts a reservation only while the window length keeps its number. -/

namespace AshA2A.FinOps
open BudgetStore Concurrency

/-- An admitted reservation: the reading of the clock and the window length then in force. -/
structure Entry (Account : Type) where
  accountId : Account
  amount : Nat
  time : Int
  windowMs : Nat
  deriving Repr, DecidableEq

/-- The bucket it was booked in. -/
def Entry.bucket {Account : Type} (entry : Entry Account) : Int := currentBucket entry.time entry.windowMs

/-- The amounts of the entries that are selected. -/
def total {Account : Type} (log : List (Entry Account)) (selected : Entry Account → Bool) : Nat :=
  ((log.filter selected).map Entry.amount).sum

section
variable {Account : Type} [DecidableEq Account]

/-- What the table holds for a bucket. -/
def booked (log : List (Entry Account)) (accountId : Account) (bucket : Int) : Nat :=
  total log fun entry => entry.accountId = accountId ∧ entry.bucket = bucket

/-- What was admitted while the clock was inside a window of this length. -/
def consumption (log : List (Entry Account)) (accountId : Account) (windowMs : Nat) (bucket : Int) : Nat :=
  total log fun entry => entry.accountId = accountId ∧ currentBucket entry.time windowMs = bucket

inductive BudgetStore.Call (Account : Type) where
  | record (accountId : Account) (amount : Nat) (now : Int)
  | setBudget (accountId : Account) (ceiling : Int) (windowMs : Option Int) (now : Int)
  deriving Repr, DecidableEq

/-- The store and the history of what it admitted. -/
structure Books (Account : Type) where
  store : BudgetStore Account
  log : List (Entry Account) := []

namespace Books

def apply (books : Books Account) : Call Account → Books Account
  | .record accountId amount now =>
    let (reply, store) := books.store.record accountId amount now
    match reply with
    | .ok reservation => ⟨store, ⟨accountId, amount, now, reservation.windowMs⟩ :: books.log⟩
    | .error _ => ⟨store, books.log⟩
  | .setBudget accountId ceiling windowMs _ =>
    match books.store.setBudget accountId ceiling windowMs with
    | .ok store => { books with store }
    | .error _ => books

/-- The budget a call goes by: the one in force for a reservation, and the new one where it is
replaced. -/
def budget (books : Books Account) : Call Account → Option Budget
  | .record accountId _ _ => books.store.budget accountId
  | .setBudget _ ceiling windowMs _ => (Budget.ofArguments ceiling windowMs).toOption

/-- What the account was admitted inside the window of the clock was booked under the number
this window has now. -/
def Numbered (books : Books Account) (call : Call Account) : Prop :=
  match call with
  | .record accountId _ now | .setBudget accountId _ _ now =>
    ∀ budget, books.budget call = some budget →
      ∀ entry ∈ books.log, entry.accountId = accountId → 0 < entry.amount →
        currentBucket entry.time budget.windowMs = currentBucket now budget.windowMs →
          entry.bucket = currentBucket now budget.windowMs

/-- An admission leaves the window of the budget in force within its ceiling, and a new budget
still counts what its current window holds. -/
def Upheld (books : Books Account) (call : Call Account) : Prop :=
  match call with
  | .record accountId amount now =>
    ∀ budget reservation, books.store.budget accountId = some budget →
      (books.store.record accountId amount now).1 = .ok reservation →
      consumption (books.apply call).log accountId budget.windowMs (currentBucket now budget.windowMs) ≤
        budget.ceiling
  | .setBudget accountId _ _ now =>
    ∀ budget, books.budget call = some budget →
      (books.apply call).store.budget accountId = some budget ∧
        consumption books.log accountId budget.windowMs (currentBucket now budget.windowMs) ≤
          (books.apply call).store.usage accountId (currentBucket now budget.windowMs)

end Books

/-! ### Sums over the history -/

omit [DecidableEq Account] in
theorem total_cons (entry : Entry Account) (log : List (Entry Account)) (selected : Entry Account → Bool) :
    total (entry :: log) selected = total log selected + if selected entry then entry.amount else 0 := by
  unfold total
  by_cases chosen : selected entry = true
  · simp [chosen, Nat.add_comm]
  · simp [chosen]

omit [DecidableEq Account] in
theorem total_mono {log : List (Entry Account)} {first second : Entry Account → Bool}
    (more : ∀ entry ∈ log, 0 < entry.amount → first entry → second entry) :
    total log first ≤ total log second := by
  induction log with
  | nil => exact Nat.le_refl _
  | cons entry log hypothesis =>
    have rest := hypothesis fun entry member => more entry (List.mem_cons_of_mem _ member)
    have here := more entry List.mem_cons_self
    rw [total_cons, total_cons]
    by_cases chosen : first entry = true
    · rcases Nat.eq_zero_or_pos entry.amount with zero | positive
      · simp only [zero, ite_self]
        omega
      · rw [if_pos chosen, if_pos (here positive chosen)]
        omega
    · rw [if_neg chosen]
      omega

theorem booked_cons (entry : Entry Account) (log : List (Entry Account)) (accountId : Account) (bucket : Int) :
    booked (entry :: log) accountId bucket =
      booked log accountId bucket + if accountId = entry.accountId ∧ bucket = entry.bucket then entry.amount else 0 := by
  unfold booked
  rw [total_cons]
  simp only [decide_eq_true_eq, @eq_comm _ entry.accountId, @eq_comm _ entry.bucket]

/-! ### Every step -/

namespace Books

/-- The table holds the sum of what was booked. -/
def Balanced (books : Books Account) : Prop :=
  ∀ accountId bucket, books.store.usage accountId bucket = booked books.log accountId bucket

theorem apply_admitted {books : Books Account} {accountId : Account} {amount : Nat} {now : Int} {budget : Budget}
    {reservation : Reservation} (inForce : books.store.budget accountId = some budget)
    (admitted : (books.store.record accountId amount now).1 = .ok reservation) :
    books.store.usage accountId (currentBucket now budget.windowMs) + amount ≤ budget.ceiling ∧
      books.apply (.record accountId amount now) =
        ⟨books.store.consume accountId (currentBucket now budget.windowMs) amount,
          ⟨accountId, amount, now, budget.windowMs⟩ :: books.log⟩ := by
  rcases record_cases books.store accountId amount now with ⟨found, known, fits, reply⟩ | ⟨refusal, -, reply⟩
  · cases inForce.symm.trans known
    exact ⟨fits, by simp only [apply, reply]⟩
  · rw [reply] at admitted
    cases admitted

theorem apply_refused {books : Books Account} {accountId : Account} {amount : Nat} {now : Int}
    {refusal : Refusal Account} (refused : (books.store.record accountId amount now).1 = .error refusal) :
    books.apply (.record accountId amount now) = books := by
  rcases record_cases books.store accountId amount now with ⟨found, known, fits, reply⟩ | ⟨refusal, -, reply⟩
  · rw [reply] at refused
    cases refused
  · simp only [apply, reply]

theorem apply_configured {books : Books Account} {accountId : Account} {ceiling : Int} {windowMs : Option Int}
    {now : Int} {budget : Budget} (valid : Budget.ofArguments ceiling windowMs = .ok budget) :
    books.apply (.setBudget accountId ceiling windowMs now) =
      { books with store := books.store.doSetBudget accountId budget } := by
  simp only [apply, setBudget, valid, Except.map]

theorem apply_rejected {books : Books Account} {accountId : Account} {ceiling : Int} {windowMs : Option Int}
    {now : Int} {error : ArgumentError} (invalid : Budget.ofArguments ceiling windowMs = .error error) :
    books.apply (.setBudget accountId ceiling windowMs now) = books := by
  simp only [apply, setBudget, invalid, Except.map]

theorem Balanced.apply {books : Books Account} (balanced : Balanced books) (call : Call Account) :
    Balanced (books.apply call) := by
  cases call with
  | record accountId amount now =>
    cases inForce : books.store.budget accountId with
    | none =>
      have refused : (books.store.record accountId amount now).1 =
          .error (.missingEvidence accountId "no hard ceiling configured") := by simp only [record, inForce]
      rw [apply_refused refused]
      exact balanced
    | some budget =>
      cases reply : (books.store.record accountId amount now).1 with
      | error refusal =>
        rw [apply_refused reply]
        exact balanced
      | ok reservation =>
        intro other bucket
        rw [(apply_admitted inForce reply).2, usage_consume, booked_cons, balanced other bucket]
        rfl
  | setBudget accountId ceiling windowMs now =>
    cases checked : Budget.ofArguments ceiling windowMs with
    | error error =>
      rw [apply_rejected checked]
      exact balanced
    | ok budget =>
      rw [apply_configured checked]
      exact balanced

theorem upheld_of_numbered {books : Books Account} (balanced : Balanced books) (call : Call Account)
    (numbered : Numbered books call) : Upheld books call := by
  cases call with
  | record accountId amount now =>
    intro budget reservation inForce admitted
    obtain ⟨fits, after⟩ := apply_admitted inForce admitted
    have counted : consumption books.log accountId budget.windowMs (currentBucket now budget.windowMs) ≤
        booked books.log accountId (currentBucket now budget.windowMs) := by
      apply total_mono
      intro entry member positive selected
      obtain ⟨same, inside⟩ := of_decide_eq_true selected
      exact decide_eq_true ⟨same, numbered budget inForce entry member same positive inside⟩
    rw [after, consumption, total_cons, if_pos (by simp), ← consumption]
    rw [balanced] at fits
    exact Nat.le_trans (Nat.add_le_add_right counted amount) fits
  | setBudget accountId ceiling windowMs now =>
    intro budget valid
    cases checked : Budget.ofArguments ceiling windowMs with
    | error error => simp [Books.budget, checked, Except.toOption] at valid
    | ok given =>
      have same : given = budget := by simpa [Books.budget, checked, Except.toOption] using valid
      subst same
      rw [apply_configured checked]
      refine ⟨Function.update_self .., ?_⟩
      rw [usage_doSetBudget, balanced]
      apply total_mono
      intro entry member positive selected
      obtain ⟨same, inside⟩ := of_decide_eq_true selected
      exact decide_eq_true ⟨same, numbered given valid entry member same positive inside⟩

/-- The account's windows never change length: every budget and every reservation has this one. -/
structure Uniform (windowMs : Nat) (books : Books Account) : Prop where
  budgets : ∀ accountId budget, books.store.budget accountId = some budget → budget.windowMs = windowMs
  entries : ∀ entry ∈ books.log, entry.windowMs = windowMs

/-- No call of the run sets another length. -/
def Keeps (windowMs : Nat) (_ : Books Account) : Call Account → Prop
  | .record .. => True
  | .setBudget _ _ length _ => length.getD Budget.defaultWindowMs = windowMs

omit [DecidableEq Account] in
theorem windowMs_of_keeps {windowMs : Nat} {books : Books Account} {accountId : Account} {ceiling : Int}
    {length : Option Int} {now : Int} {budget : Budget}
    (keeps : Keeps windowMs books (.setBudget accountId ceiling length now))
    (valid : Budget.ofArguments ceiling length = .ok budget) : budget.windowMs = windowMs := by
  simp only [Keeps] at keeps
  unfold Budget.ofArguments at valid
  split at valid
  case isTrue =>
    dsimp only at valid
    split at valid
    case isTrue =>
      cases valid
      simp only [keeps, Int.toNat_natCast]
    case isFalse => cases valid
  case isFalse => cases valid

theorem Uniform.apply {windowMs : Nat} {books : Books Account} (uniform : Uniform windowMs books)
    (call : Call Account) (keeps : Keeps windowMs books call) : Uniform windowMs (books.apply call) := by
  cases call with
  | record accountId amount now =>
    cases reply : (books.store.record accountId amount now).1 with
    | error refusal =>
      rw [apply_refused reply]
      exact uniform
    | ok reservation =>
      cases inForce : books.store.budget accountId with
      | none => simp [record, inForce] at reply
      | some budget =>
        rw [(apply_admitted inForce reply).2]
        refine ⟨uniform.budgets, ?_⟩
        rw [List.forall_mem_cons]
        exact ⟨uniform.budgets accountId budget inForce, uniform.entries⟩
  | setBudget accountId ceiling length now =>
    cases checked : Budget.ofArguments ceiling length with
    | error error =>
      rw [apply_rejected checked]
      exact uniform
    | ok given =>
      rw [apply_configured checked]
      refine ⟨?_, uniform.entries⟩
      intro other budget inForce
      by_cases same : other = accountId
      · subst same
        simp only [doSetBudget, Function.update_self, Option.some.injEq] at inForce
        subst inForce
        exact windowMs_of_keeps keeps checked
      · simp only [doSetBudget, Function.update_of_ne same] at inForce
        exact uniform.budgets other budget inForce

omit [DecidableEq Account] in
theorem Uniform.numbered {windowMs : Nat} {books : Books Account} (uniform : Uniform windowMs books)
    (call : Call Account) (keeps : Keeps windowMs books call) : Numbered books call := by
  have length : ∀ budget, books.budget call = some budget → budget.windowMs = windowMs := by
    intro budget given
    cases call with
    | record accountId amount now => exact uniform.budgets accountId budget given
    | setBudget accountId ceiling length now =>
      cases checked : Budget.ofArguments ceiling length with
      | error error => simp [Books.budget, checked, Except.toOption] at given
      | ok valid =>
        cases (by simpa [Books.budget, checked, Except.toOption] using given : valid = budget)
        exact windowMs_of_keeps keeps checked
  cases call with
  | record | setBudget =>
    intro budget given entry member _ _ inside
    rw [Entry.bucket, uniform.entries entry member, ← length budget given]
    exact inside

end Books

/-- Where every window keeps its number, no admission exceeds the ceiling and no new budget
forgets. -/
theorem ceiling_upheld (budgets : List (Account × Budget)) (calls : List (Call Account))
    (numbered : Throughout Books.apply Books.Numbered ⟨BudgetStore.init budgets, []⟩ calls) :
    Throughout Books.apply Books.Upheld ⟨BudgetStore.init budgets, []⟩ calls := by
  have start : Books.Balanced (⟨BudgetStore.init budgets, []⟩ : Books Account) := by
    intro accountId bucket
    rw [usage_init]
    rfl
  exact numbered.of_invariant start (fun _ call balanced _ => balanced.apply call)
    fun _ call balanced kept => Books.upheld_of_numbered balanced call kept

end

theorem ceiling_upheld_reconfigured :
    Throughout Books.apply Books.Upheld
      ⟨BudgetStore.init [("invoice", ⟨100, 1000, by decide, by decide⟩)], []⟩
      [.record "invoice" 60 1500, .setBudget "invoice" 80 (some 1000) 1600, .record "invoice" 20 1700] := by
  apply ceiling_upheld
  set start : Books String := ⟨BudgetStore.init [("invoice", ⟨100, 1000, by decide, by decide⟩)], []⟩
  have uniform : Books.Uniform 1000 start := by
    refine ⟨fun accountId budget inForce => ?_, fun entry member => by cases member⟩
    by_cases same : accountId = "invoice"
    · simp only [start, init, List.foldl_cons, List.foldl_nil, doSetBudget, same, Function.update_self,
        Option.some.injEq] at inForce
      rw [← inForce]
    · simp [start, init, doSetBudget, Function.update_of_ne same, BudgetStore.empty] at inForce
  have keeps : Throughout Books.apply (Books.Keeps 1000) start
      [.record "invoice" 60 1500, .setBudget "invoice" 80 (some 1000) 1600, .record "invoice" 20 1700] :=
    ⟨True.intro, rfl, True.intro, True.intro⟩
  exact keeps.of_invariant uniform (fun _ call uniform keeps => uniform.apply call keeps)
    fun _ call uniform keeps => uniform.numbered call keeps

/-- Under a shorter window the hundred admitted a moment ago are in a bucket nobody looks at. -/
theorem shorter_window_forgets :
    let start : Books String := ⟨BudgetStore.init [("invoice", ⟨100, 1000, by decide, by decide⟩)], []⟩
    let calls : List (Call String) :=
      [.record "invoice" 100 1500, .setBudget "invoice" 100 (some 500) 1500, .record "invoice" 100 1500]
    ¬ Throughout Books.apply Books.Upheld start calls ∧
      consumption (calls.foldl Books.apply start).log "invoice" 500 (currentBucket 1500 500) = 200 := by
  refine ⟨fun upheld => ?_, by decide⟩
  obtain ⟨-, configured, -⟩ := upheld
  have counted := (configured ⟨100, 500, by decide, by decide⟩ (by decide)).2
  revert counted
  decide

end AshA2A.FinOps
