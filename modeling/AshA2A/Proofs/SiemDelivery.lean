import AshA2A.Telemetry.SIEM
import Mathlib.Algebra.GroupWithZero.Nat

/-! What the report of a delivery tells of the batches that were sent. -/

namespace AshA2A.Telemetry.SIEM

variable {sendEvents : Nat → Answer} {config : Config} {effects : List Effect}

def Effect.sentBatch : Effect → Option (List Value)
  | .sent batch => some batch
  | .slept _ => none

/-- The batches that were sent, each as often as it was. -/
def sends (effects : List Effect) : List (List Value) := effects.filterMap Effect.sentBatch

theorem sends_append (more : List Effect) : sends (effects ++ more) = sends effects ++ sends more := List.filterMap_append

/-! ## How batches are sent -/

inductive Ending where
  | flushed
  | failed (reason : Reason)
  | raised (summary : Value)

/-- So many attempts are refused, and each of them may be made again. -/
def Refused (sendEvents : Nat → Answer) (first count : Nat) : Prop :=
  ∀ attempt < count, ∃ reason, sendEvents (first + attempt) = .error reason ∧ retryable reason = true

/-- The batches are sent in order, from the given attempt on, each until it is accepted and at most once more than there are
retries; the first that is not accepted is the last. -/
inductive Sends (sendEvents : Nat → Answer) (retries : Nat) : Nat → List (List Value) → List Nat → Ending → Prop where
  | done {first : Nat} : Sends sendEvents retries first [] [] .flushed
  | flush {first count status : Nat} {batch : List Value} {rest : List (List Value)} {counts : List Nat} {ending : Ending}
      (refused : Refused sendEvents first count) (within : count ≤ retries) (accepted : sendEvents (first + count) = .ok status)
      (further : Sends sendEvents retries (first + (count + 1)) rest counts ending) :
      Sends sendEvents retries first (batch :: rest) ((count + 1) :: counts) ending
  | fail {first count : Nat} {reason : Reason} {batch : List Value} {rest : List (List Value)}
      (refused : Refused sendEvents first count) (within : count ≤ retries) (error : sendEvents (first + count) = .error reason)
      (last : count = retries ∨ retryable reason = false) :
      Sends sendEvents retries first (batch :: rest) [count + 1] (.failed reason)
  | raise {first count : Nat} {summary : Value} {batch : List Value} {rest : List (List Value)}
      (refused : Refused sendEvents first count) (within : count ≤ retries) (raised : sendEvents (first + count) = .raised summary) :
      Sends sendEvents retries first (batch :: rest) [count + 1] (.raised summary)

/-- Every batch as often as it was sent. -/
def repeated (batches : List (List Value)) (counts : List Nat) : List (List Value) :=
  (batches.zip counts).flatMap fun pair => List.replicate pair.2 pair.1

/-- How the attempts for a batch end. -/
def Ended (sendEvents : Nat → Answer) (left attempt calls count : Nat) : Attempted → Prop
  | .ok attempts => attempts = attempt + count ∧ ∃ status, sendEvents (calls + count) = .ok status
  | .error attempts reason => attempts = attempt + count ∧ sendEvents (calls + count) = .error reason ∧
      (count = left ∨ retryable reason = false)
  | .raised summary => sendEvents (calls + count) = .raised summary

theorem ended_again {left attempt calls count : Nat} {attempted : Attempted}
    (ended : Ended sendEvents left (attempt + 1) (calls + 1) count attempted) :
    Ended sendEvents (left + 1) attempt calls (count + 1) attempted := by
  have place : calls + (count + 1) = calls + 1 + count := by omega
  cases attempted with
  | ok attempts =>
    obtain ⟨rfl, accepted⟩ := ended
    exact ⟨by omega, place ▸ accepted⟩
  | error attempts reason =>
    obtain ⟨rfl, refused, last⟩ := ended
    exact ⟨by omega, place ▸ refused, last.imp_left (congrArg (· + 1))⟩
  | raised summary =>
    rw [Ended, place]
    exact ended

theorem attemptWithRetry_spec (batch : List Value) (left attempt calls : Nat) :
    ∃ count ≤ left, Refused sendEvents calls count ∧
      sends (attemptWithRetry sendEvents config batch left attempt calls).1 = List.replicate (count + 1) batch ∧
      Ended sendEvents left attempt calls count (attemptWithRetry sendEvents config batch left attempt calls).2 := by
  have nothing (calls : Nat) : Refused sendEvents calls 0 := fun attempt less => absurd less (Nat.not_lt_zero _)
  induction left generalizing attempt calls with
  | zero =>
    cases answer : sendEvents calls with
    | ok status =>
      simp only [attemptWithRetry, answer]
      exact ⟨0, le_refl _, nothing calls, rfl, rfl, status, answer⟩
    | error reason =>
      simp only [attemptWithRetry, answer]
      exact ⟨0, le_refl _, nothing calls, rfl, rfl, answer, .inl rfl⟩
    | raised summary =>
      simp only [attemptWithRetry, answer]
      exact ⟨0, le_refl _, nothing calls, rfl, answer⟩
  | succ left ih =>
    cases answer : sendEvents calls with
    | ok status =>
      rw [attemptWithRetry.eq_def]
      simp only [answer]
      exact ⟨0, Nat.zero_le _, nothing calls, rfl, rfl, status, answer⟩
    | raised summary =>
      rw [attemptWithRetry.eq_def]
      simp only [answer]
      exact ⟨0, Nat.zero_le _, nothing calls, rfl, answer⟩
    | error reason =>
      rw [attemptWithRetry.eq_def]
      simp only [answer]
      split
      case isFalse final => exact ⟨0, Nat.zero_le _, nothing calls, rfl, rfl, answer, .inr (eq_false_of_ne_true final)⟩
      case isTrue again =>
        obtain ⟨count, within, refused, sent, ended⟩ := ih (attempt + 1) (calls + 1)
        refine ⟨count + 1, Nat.succ_le_succ within, ?_, ?_, ?_⟩
        · intro later less
          cases later with
          | zero => exact ⟨reason, answer, again⟩
          | succ later =>
            obtain ⟨other, error, retries⟩ := refused later (Nat.lt_of_succ_lt_succ less)
            exact ⟨other, by rw [← error, Nat.add_assoc, Nat.add_comm 1], retries⟩
        · rw [List.replicate_succ, ← sent]
          rfl
        · exact ended_again ended

/-! ## The batches of a delivery -/

/-- What is told when the batches from the given index on have been sent so often. -/
def told (batches : List (List Value)) (report : Report) (index : Nat) (counts : List Nat) : Ending → Delivery
  | .flushed => .delivered { report with
      httpRequests := report.httpRequests + counts.length, attempts := report.attempts + counts.sum }
  | .failed reason => .failed report.platform
      ⟨index + counts.length - 1, report.attempts + counts.sum, index + counts.length - 1 - 1,
        (batches.drop (index + counts.length - 1)).flatten.length, reason⟩
  | .raised summary => .raised report.platform summary

theorem told_further {batches : List (List Value)} {report : Report} {index count : Nat} {counts : List Nat} {ending : Ending} :
    told batches { report with httpRequests := report.httpRequests + 1, attempts := report.attempts + count } (index + 1) counts
        ending = told batches report index (count :: counts) ending := by
  have index_eq : index + 1 + counts.length = index + (counts.length + 1) := by omega
  cases ending with
  | flushed => simp only [told, List.length_cons, List.sum_cons, Nat.add_assoc, Nat.add_comm 1]
  | failed reason => simp only [told, List.length_cons, List.sum_cons, index_eq, Nat.add_assoc]
  | raised summary => rfl

theorem repeated_cons {batch : List Value} {rest : List (List Value)} {count : Nat} {counts : List Nat} :
    repeated (batch :: rest) (count :: counts) = List.replicate count batch ++ repeated rest counts := rfl

theorem repeated_last {batch : List Value} {rest : List (List Value)} {count : Nat} :
    repeated (batch :: rest) [count] = List.replicate count batch := by
  simp [repeated]

theorem runBatches_spec (batches rest : List (List Value)) (report : Report) (index : Nat) :
    ∃ counts ending, Sends sendEvents config.maxRetries report.attempts rest counts ending ∧
      sends (runBatches sendEvents config batches report index rest).1 = repeated rest counts ∧
      (runBatches sendEvents config batches report index rest).2 = told batches report index counts ending := by
  induction rest generalizing report index with
  | nil => exact ⟨[], .flushed, .done, rfl, rfl⟩
  | cons batch rest ih =>
    obtain ⟨count, within, refused, sent, ended⟩ :=
      @attemptWithRetry_spec sendEvents config batch config.maxRetries 1 report.attempts
    rw [runBatches]
    generalize attemptWithRetry sendEvents config batch config.maxRetries 1 report.attempts = outcome at sent ended ⊢
    obtain ⟨effects, attempted⟩ := outcome
    cases attempted with
    | ok attempts =>
      obtain ⟨rfl, status, accepted⟩ := ended
      obtain ⟨counts, ending, further, more, delivery⟩ := ih
        { report with httpRequests := report.httpRequests + 1, attempts := report.attempts + (1 + count) } (index + 1)
      rw [Nat.add_comm 1] at further
      refine ⟨(count + 1) :: counts, ending, .flush refused within accepted further, ?_, ?_⟩
      · rw [repeated_cons, ← more, ← sent]
        exact sends_append _
      · rw [← told_further, Nat.add_comm count]
        exact delivery
    | error attempts reason =>
      obtain ⟨rfl, error, last⟩ := ended
      refine ⟨[count + 1], .failed reason, .fail refused within error last, sent.trans repeated_last.symm, ?_⟩
      simp only [told, List.length_singleton, List.sum_singleton, Nat.add_sub_cancel, Nat.add_comm 1]
    | raised summary =>
      exact ⟨[count + 1], .raised summary, .raise refused within ended, sent.trans repeated_last.symm, rfl⟩

/-! ## How a delivery ends -/

/-- No more refusals are waited for. -/
def Stops (sendEvents : Nat → Answer) (retries first count : Nat) : Prop :=
  ∀ reason, sendEvents (first + count) = .error reason → count = retries ∨ retryable reason = false

theorem stops_unique {retries first count other : Nat} (refused : Refused sendEvents first count)
    (stops : Stops sendEvents retries first other) (within : count ≤ retries) : count ≤ other := by
  by_contra later
  obtain ⟨reason, error, again⟩ := refused other (Nat.lt_of_not_le later)
  rcases stops reason error with last | final
  · omega
  · simp [again] at final

theorem Sends.cons_inv {retries first : Nat} {batch : List Value} {rest : List (List Value)} {counts : List Nat} {ending : Ending}
    (sends : Sends sendEvents retries first (batch :: rest) counts ending) :
    ∃ count ≤ retries, Refused sendEvents first count ∧ Stops sendEvents retries first count ∧
      match sendEvents (first + count) with
      | .ok _ => ∃ more, counts = (count + 1) :: more ∧ Sends sendEvents retries (first + (count + 1)) rest more ending
      | .error reason => counts = [count + 1] ∧ ending = .failed reason
      | .raised summary => counts = [count + 1] ∧ ending = .raised summary := by
  cases sends with
  | flush refused within accepted further =>
    refine ⟨_, within, refused, fun reason error => ?_, ?_⟩
    · rw [accepted] at error
      cases error
    · rw [accepted]
      exact ⟨_, rfl, further⟩
  | fail refused within error last =>
    refine ⟨_, within, refused, fun reason other => ?_, ?_⟩
    · rw [error] at other
      cases other
      exact last
    · rw [error]
      exact ⟨rfl, rfl⟩
  | raise refused within raised =>
    refine ⟨_, within, refused, fun reason error => ?_, ?_⟩
    · rw [raised] at error
      cases error
    · rw [raised]
      exact ⟨rfl, rfl⟩

/-- The answers determine how often a batch is sent and how it ends. -/
theorem Sends.unique {retries first : Nat} {batches : List (List Value)} {counts others : List Nat} {ending other : Ending}
    (one : Sends sendEvents retries first batches counts ending) (two : Sends sendEvents retries first batches others other) :
    counts = others ∧ ending = other := by
  induction batches generalizing first counts others with
  | nil =>
    cases one
    cases two
    exact ⟨rfl, rfl⟩
  | cons batch rest ih =>
    obtain ⟨count, within, refused, stops, result⟩ := one.cons_inv
    obtain ⟨count', within', refused', stops', result'⟩ := two.cons_inv
    obtain rfl : count = count' := Nat.le_antisymm (stops_unique refused stops' within) (stops_unique refused' stops within')
    cases answer : sendEvents (first + count) with
    | ok status =>
      rw [answer] at result result'
      obtain ⟨more, rfl, further⟩ := result
      obtain ⟨more', rfl, further'⟩ := result'
      obtain ⟨rfl, rfl⟩ := ih further further'
      exact ⟨rfl, rfl⟩
    | error reason =>
      rw [answer] at result result'
      exact ⟨result.1.trans result'.1.symm, result.2.trans result'.2.symm⟩
    | raised summary =>
      rw [answer] at result result'
      exact ⟨result.1.trans result'.1.symm, result.2.trans result'.2.symm⟩

theorem Sends.within {retries first : Nat} {batches : List (List Value)} {counts : List Nat} {ending : Ending}
    (sends : Sends sendEvents retries first batches counts ending) :
    counts.length ≤ batches.length ∧ ∀ count ∈ counts, count ≤ 1 + retries := by
  induction sends with
  | done => exact ⟨le_refl _, fun count mem => absurd mem List.not_mem_nil⟩
  | flush refused within accepted further ih =>
    refine ⟨Nat.succ_le_succ ih.1, fun count mem => ?_⟩
    rcases List.mem_cons.1 mem with rfl | mem
    · omega
    · exact ih.2 count mem
  | fail refused within error last =>
    refine ⟨Nat.succ_le_succ (Nat.zero_le _), fun count mem => ?_⟩
    rw [List.mem_singleton.1 mem]
    omega
  | raise refused within raised =>
    refine ⟨Nat.succ_le_succ (Nat.zero_le _), fun count mem => ?_⟩
    rw [List.mem_singleton.1 mem]
    omega

theorem Sends.failed_nonempty {retries first : Nat} {batches : List (List Value)} {counts : List Nat} {reason : Reason}
    (sends : Sends sendEvents retries first batches counts (.failed reason)) : 0 < counts.length := by
  cases sends with
  | flush => exact Nat.succ_pos _
  | fail => exact Nat.succ_pos _

theorem Sends.flushed_all {retries first : Nat} {batches : List (List Value)} {counts : List Nat}
    (sends : Sends sendEvents retries first batches counts .flushed) : counts.length = batches.length := by
  induction batches generalizing first counts with
  | nil =>
    cases sends
    rfl
  | cons batch rest ih =>
    cases sends with
    | flush refused within accepted further => exact congrArg (· + 1) (ih further)

end AshA2A.Telemetry.SIEM
