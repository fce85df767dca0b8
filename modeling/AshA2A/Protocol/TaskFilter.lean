import AshA2A.Calendar
import AshA2A.Outcome
import AshA2A.Protocol.Task
import Mathlib.Data.List.Lex
import Mathlib.Data.List.Sort

/-! A list of tasks, filtered, in pages: the token of a page is the id of the last task before it. -/

namespace AshA2A.Protocol.TaskFilter

open Calendar (DateTime)

structure Status where
  state : TaskState
  timestamp : Option DateTime
  deriving Repr, DecidableEq

/-- With messages `μ` and artifacts `α`. -/
structure Task (μ α : Type) where
  id : String
  contextId : Option String := none
  status : Status
  history : List μ := []
  artifacts : List α := []
  deriving Repr, DecidableEq

structure Options where
  contextId : Option String := none
  status : Option TaskState := none
  statusTimestampAfter : Option DateTime := none
  pageSize : Nat := 50
  pageToken : Option String := none
  historyLength : Option Int := some 0
  includeArtifacts : Bool := false
  deriving Repr, DecidableEq

structure Page (μ α : Type) where
  tasks : List (Task μ α)
  totalSize : Nat
  pageSize : Nat
  nextPageToken : String
  deriving Repr, DecidableEq

inductive Fault where
  | invalidPageToken
  | raised
  deriving Repr, DecidableEq

/-- What `DateTime.compare/2` compares. -/
def instant (time : DateTime) : List Int :=
  [time.utc.year, time.utc.month, time.utc.day, time.utc.hour, time.utc.minute, time.utc.second, time.utc.microsecond]

variable {μ α : Type}

def key (task : Task μ α) : List Int :=
  match task.status.timestamp with
  | some time => instant time
  | none => []

/-- `{:desc, DateTime}`. -/
def newerFirst (left right : Task μ α) : Bool := key right ≤ key left

/-- `Enum.sort_by(tasks, & &1.status.timestamp, {:desc, DateTime})` compares every task with another one
where there are two, and `DateTime.compare/2` raises for `nil`. -/
def sorted (tasks : List (Task μ α)) : Except Fault (List (Task μ α)) :=
  if 2 ≤ tasks.length ∧ tasks.any fun task => task.status.timestamp = none then .error .raised
  else .ok (tasks.mergeSort newerFirst)

def maybeFilter {β : Type} (keeps : β → Task μ α → Bool) (wanted : Option β) (tasks : List (Task μ α)) : List (Task μ α) :=
  match wanted with
  | none => tasks
  | some value => tasks.filter (keeps value)

def after (time : DateTime) (task : Task μ α) : Bool :=
  match task.status.timestamp with
  | none => false
  | some own => instant time < instant own

def filtered (options : Options) (tasks : List (Task μ α)) : List (Task μ α) :=
  maybeFilter after options.statusTimestampAfter
    (maybeFilter (fun state task => task.status.state = state) options.status
      (maybeFilter (fun contextId task => task.contextId = some contextId) options.contextId tasks))

def paginate (tasks : List (Task μ α)) : Option String → Except Fault (List (Task μ α))
  | none => .ok tasks
  | some token =>
    if token = "" then .ok tasks
    else
      match tasks.dropWhile (fun task => task.id ≠ token) with
      | _ :: rest => .ok rest
      | [] => .error .invalidPageToken

def truncateHistory (task : Task μ α) : Option Int → Task μ α
  | none => task
  | some length =>
    if length = 0 then { task with history := [] }
    else if 0 < length then { task with history := task.history.drop (task.history.length - length.toNat) }
    else task

def maybeStripArtifacts (task : Task μ α) (included : Bool) : Task μ α :=
  if included then task else { task with artifacts := [] }

def shown (options : Options) (task : Task μ α) : Task μ α :=
  maybeStripArtifacts (truncateHistory task options.historyLength) options.includeArtifacts

/-- The last task of a page that is empty has no id. -/
def nextToken (pageSize : Nat) (remaining : List (Task μ α)) : Except Fault String :=
  if pageSize < remaining.length then
    match (remaining.take pageSize).getLast? with
    | some last => .ok last.id
    | none => .error .raised
  else .ok ""

def apply (tasks : List (Task μ α)) (options : Options) : Except Fault (Page μ α) := do
  let ordered ← sorted tasks
  let filtered := filtered options ordered
  let remaining ← paginate filtered options.pageToken
  let page := remaining.take options.pageSize
  let nextPageToken ← nextToken options.pageSize remaining
  .ok { tasks := page.map (shown options), totalSize := filtered.length, pageSize := options.pageSize, nextPageToken }

/-! ## The listing that is cut into pages -/

def passes (options : Options) (task : Task μ α) : Bool :=
  (options.contextId.all fun contextId => task.contextId = some contextId) &&
    (options.status.all fun state => task.status.state = state) &&
    options.statusTimestampAfter.all fun time => after time task

def listing (options : Options) (tasks : List (Task μ α)) : List (Task μ α) :=
  (tasks.mergeSort newerFirst).filter (passes options)

/-- The list is sorted without meeting a task that has no time. -/
def Timed (tasks : List (Task μ α)) : Prop :=
  tasks.length ≤ 1 ∨ ∀ task ∈ tasks, task.status.timestamp ≠ none

/-- No page that is followed by another one ends with a task whose id is the empty token. -/
def Followed (pageSize : Nat) (list : List (Task μ α)) : Prop :=
  ∀ before task after, list = before ++ task :: after → task.id = "" → pageSize ∣ before.length + 1 → after = []

/-- The pages that are met from a token on. -/
inductive Follows (tasks : List (Task μ α)) (options : Options) : String → List (Page μ α) → Prop where
  | last {token : String} {page : Page μ α} : apply tasks { options with pageToken := some token } = .ok page →
      page.nextPageToken = "" → Follows tasks options token [page]
  | next {token : String} {page : Page μ α} {pages : List (Page μ α)} :
      apply tasks { options with pageToken := some token } = .ok page → page.nextPageToken ≠ "" →
      Follows tasks options page.nextPageToken pages → Follows tasks options token (page :: pages)

/-- Following the tokens from the empty one yields each task that passes once, the newest first. -/
def Covered (tasks : List (Task μ α)) (options : Options) : Prop :=
  ∃ (pages : List (Page μ α)) (list : List (Task μ α)), Follows tasks options "" pages ∧ list.Perm (tasks.filter (passes options)) ∧
    list.Pairwise (fun left right => newerFirst left right = true) ∧
    pages.flatMap Page.tasks = list.map (shown options) ∧ ∀ page ∈ pages, page.totalSize = list.length

section Listing
variable {tasks list before rest : List (Task μ α)} {options : Options} {task : Task μ α} {token : String} {page : Page μ α}

theorem filtered_eq : filtered options list = list.filter (passes options) := by
  unfold filtered maybeFilter passes
  cases options.contextId <;> cases options.status <;> cases options.statusTimestampAfter <;>
    simp [List.filter_filter, Bool.and_comm]

theorem sorted_ok_iff : sorted tasks = .ok list ↔ Timed tasks ∧ list = tasks.mergeSort newerFirst := by
  have untimed : (2 ≤ tasks.length ∧ tasks.any (fun task => task.status.timestamp = none) = true) ↔ ¬ Timed tasks := by
    unfold Timed
    rw [not_or, not_le]
    refine and_congr_right fun _ => ?_
    simp
  unfold sorted
  by_cases timed : Timed tasks
  · rw [if_neg (fun met => untimed.mp met timed), and_iff_right timed, Except.ok.injEq, eq_comm]
  · rw [if_pos (untimed.mpr timed)]
    exact iff_of_false nofun fun both => timed both.1

theorem listing_perm : (listing options tasks).Perm (tasks.filter (passes options)) :=
  (List.mergeSort_perm _ _).filter _

theorem listing_sorted : (listing options tasks).Pairwise fun left right => newerFirst left right = true := by
  refine List.Pairwise.filter _ (List.pairwise_mergeSort ?_ ?_ _)
  · intro first second third newer older
    exact decide_eq_true ((of_decide_eq_true older).trans (of_decide_eq_true newer))
  · intro first second
    obtain newer | older := le_total (key second) (key first)
    · simp [newerFirst, newer]
    · simp [newerFirst, older]

theorem listing_nodup (distinct : (tasks.map Task.id).Nodup) : ((listing options tasks).map Task.id).Nodup := by
  refine ((listing_perm.map Task.id).nodup_iff).mpr ?_
  exact distinct.sublist (List.filter_sublist.map Task.id)

theorem paginate_all : paginate list (some "") = .ok list := rfl

/-- The token of a task leads behind it. -/
theorem paginate_behind (distinct : (list.map Task.id).Nodup) (split : list = before ++ task :: rest)
    (named : task.id ≠ "") : paginate list (some task.id) = .ok rest := by
  have behind : list.dropWhile (fun other => other.id ≠ task.id) = task :: rest := by
    subst split
    have others : ∀ other ∈ before, decide (other.id ≠ task.id) = true := by
      intro other member
      rw [List.map_append, List.map_cons] at distinct
      refine decide_eq_true fun same => ?_
      exact List.disjoint_of_nodup_append distinct (List.mem_map_of_mem member) (same ▸ List.mem_cons_self)
    rw [List.dropWhile_append_of_pos others, List.dropWhile_cons_of_neg (by simp)]
  rw [paginate, if_neg named, behind]

theorem split_page {count : Nat} (positive : 1 ≤ count) (more : count < rest.length) : ∃ before task after,
    rest = before ++ task :: after ∧ before.length + 1 = count ∧ after ≠ [] ∧ rest.take count = before ++ [task] := by
  obtain ⟨size, rfl⟩ := Nat.exists_eq_add_of_le' positive
  have within : size < rest.length := by omega
  refine ⟨rest.take size, rest[size], rest.drop (size + 1), ?_, ?_, ?_, ?_⟩
  · rw [← List.drop_eq_getElem_cons within, List.take_append_drop]
  · rw [List.length_take, min_eq_left (by omega)]
  · rw [ne_eq, List.drop_eq_nil_iff]
    omega
  · rw [List.take_append_getElem within]

theorem nextToken_last {pageSize : Nat} (fits : rest.length ≤ pageSize) : nextToken pageSize rest = .ok "" :=
  if_neg (by omega)

theorem nextToken_more {pageSize : Nat} (more : pageSize < rest.length) (page : rest.take pageSize = before ++ [task]) :
    nextToken pageSize rest = .ok task.id := by
  rw [nextToken, if_pos more, page, List.getLast?_concat]

theorem apply_eq (timed : Timed tasks) (found : paginate (listing options tasks) (some token) = .ok rest) {next : String}
    (following : nextToken options.pageSize rest = .ok next) :
    apply tasks { options with pageToken := some token } = .ok
      { tasks := (rest.take options.pageSize).map (shown options), totalSize := (listing options tasks).length,
        pageSize := options.pageSize, nextPageToken := next } := by
  have ordered : sorted tasks = .ok (tasks.mergeSort newerFirst) := sorted_ok_iff.mpr ⟨timed, rfl⟩
  have listed : filtered { options with pageToken := some token } (tasks.mergeSort newerFirst) = listing options tasks :=
    filtered_eq
  unfold apply
  rw [ordered]
  show (paginate (filtered { options with pageToken := some token } (tasks.mergeSort newerFirst)) (some token) >>= fun remaining =>
    nextToken options.pageSize remaining >>= fun next => Except.ok (Page.mk ((remaining.take options.pageSize).map (shown options))
      (filtered { options with pageToken := some token } (tasks.mergeSort newerFirst)).length options.pageSize next)) = _
  rw [listed, found]
  show (nextToken options.pageSize rest >>= fun next => Except.ok (Page.mk ((rest.take options.pageSize).map (shown options))
    (listing options tasks).length options.pageSize next)) = _
  rw [following]
  rfl

/-- What is listed is left to list in front of the first page, and each token leads to what its page leaves. -/
theorem follows_all (timed : Timed tasks) (distinct : (tasks.map Task.id).Nodup) (positive : 1 ≤ options.pageSize)
    (followed : Followed options.pageSize (listing options tasks)) (done : List (Task μ α))
    (split : listing options tasks = done ++ rest) (whole : options.pageSize ∣ done.length)
    (found : paginate (listing options tasks) (some token) = .ok rest) :
    ∃ pages, Follows tasks options token pages ∧ pages.flatMap Page.tasks = rest.map (shown options) ∧
      ∀ page ∈ pages, page.totalSize = (listing options tasks).length := by
  induction size : rest.length using Nat.strong_induction_on generalizing rest done token with
  | _ size ih =>
    subst size
    by_cases fits : rest.length ≤ options.pageSize
    · have page := apply_eq timed found (nextToken_last fits)
      rw [List.take_of_length_le fits] at page
      exact ⟨[_], .last page rfl, by simp, by simp⟩
    · have more : options.pageSize < rest.length := by omega
      obtain ⟨before, task, after, rfl, size, others, front⟩ := split_page positive more
      have page := apply_eq timed found (nextToken_more more front)
      have place : listing options tasks = (done ++ before) ++ task :: after := by rw [split, List.append_assoc]
      have full : options.pageSize ∣ (done ++ before).length + 1 := by
        rw [List.length_append, Nat.add_assoc, size]
        exact (Nat.dvd_add_right whole).mpr (Nat.dvd_refl _)
      have named : task.id ≠ "" := fun empty => others (followed _ _ _ place empty full)
      have behind := paginate_behind (listing_nodup distinct) place named
      obtain ⟨pages, follows, listed, totals⟩ := ih after.length (by simp; omega) (done ++ before ++ [task])
        (by rw [place]; simp) (by simpa [Nat.add_assoc] using full) behind rfl
      refine ⟨_ :: pages, .next page named follows, ?_, List.forall_mem_cons.mpr ⟨rfl, totals⟩⟩
      rw [List.flatMap_cons, listed, front]
      simp

/-- A task with the empty id at the end of a page stops the pages there. -/
theorem follows_short (timed : Timed tasks) (distinct : (tasks.map Task.id).Nodup) {pages : List (Page μ α)}
    (follows : Follows tasks options token pages) (positive : 1 ≤ options.pageSize) (done : List (Task μ α))
    (split : listing options tasks = done ++ rest)
    (found : paginate (listing options tasks) (some token) = .ok rest) {middle after : List (Task μ α)}
    (place : rest = middle ++ task :: after) (empty : task.id = "") (full : options.pageSize ∣ middle.length + 1) :
    (pages.flatMap Page.tasks).length ≤ middle.length + 1 := by
  induction follows generalizing rest done middle with
  | @last token page answered final =>
    have bound : (rest.take options.pageSize).length ≤ middle.length + 1 := by
      have some := Nat.le_of_dvd (Nat.succ_pos _) full
      rw [List.length_take]
      omega
    obtain ⟨next, following⟩ : ∃ next, nextToken options.pageSize rest = .ok next := by
      by_cases fits : rest.length ≤ options.pageSize
      · exact ⟨_, nextToken_last fits⟩
      · obtain ⟨before, own, later, -, -, -, front⟩ := split_page positive (not_le.mp fits)
        exact ⟨_, nextToken_more (not_le.mp fits) front⟩
    cases answered.symm.trans (apply_eq timed found following)
    simpa using bound
  | @next token page pages answered named follows ih =>
    by_cases fits : rest.length ≤ options.pageSize
    · cases answered.symm.trans (apply_eq timed found (nextToken_last fits))
      exact absurd rfl named
    · obtain ⟨before, own, later, cut, size, -, front⟩ := split_page positive (not_le.mp fits)
      cases answered.symm.trans (apply_eq timed found (nextToken_more (not_le.mp fits) front))
      have listed : listing options tasks = (done ++ before) ++ own :: later := by rw [split, cut, List.append_assoc]
      have behind := paginate_behind (listing_nodup distinct) listed named
      have whole : before ++ own :: later = middle ++ task :: after := cut.symm.trans place
      have long : options.pageSize ≤ middle.length := by
        have least := Nat.le_of_dvd (Nat.succ_pos _) full
        by_contra short
        have same : before.length = middle.length := by omega
        obtain ⟨-, same⟩ := List.append_inj whole same
        exact named ((List.cons.inj same).1 ▸ empty)
      obtain ⟨others, rfl⟩ : ∃ others, middle = (before ++ [own]) ++ others := by
        have front : before ++ [own] <+: middle ++ task :: after := ⟨later, by rw [← whole]; simp⟩
        have short : (before ++ [own]).length ≤ middle.length := by simpa [size] using long
        obtain ⟨others, same⟩ := List.prefix_of_prefix_length_le front (List.prefix_append _ _) short
        exact ⟨others, same.symm⟩
      have left : later = others ++ task :: after := by simpa using whole
      have divides : options.pageSize ∣ others.length + 1 := by
        have total : ((before ++ [own]) ++ others).length + 1 = options.pageSize + (others.length + 1) := by
          simp only [List.length_append, List.length_singleton, ← size]
          omega
        rw [total] at full
        exact (Nat.dvd_add_right (Nat.dvd_refl _)).mp full
      have remaining := ih (done ++ before ++ [own]) (by rw [listed]; simp) behind left divides
      rw [List.flatMap_cons, front]
      simp only [List.length_append, List.length_map, List.length_singleton] at remaining ⊢
      omega

/-- The first page alone tells whether the list could be sorted. -/
theorem timed_of_follows {pages : List (Page μ α)} (follows : Follows tasks options token pages) : Timed tasks := by
  have ordered : ∀ {options : Options} {page : Page μ α}, apply tasks options = .ok page → Timed tasks := by
    intro options page answered
    obtain ⟨list, sorts, -⟩ := bind_ok_iff.mp answered
    exact (sorted_ok_iff.mp sorts).1
  cases follows with
  | last answered => exact ordered answered
  | next answered => exact ordered answered

/-- The pages cover the list exactly where it can be sorted and no token within it is empty. -/
theorem pages_cover_iff (distinct : (tasks.map Task.id).Nodup) (positive : 1 ≤ options.pageSize) :
    Covered tasks options ↔ Timed tasks ∧ Followed options.pageSize (listing options tasks) := by
  constructor
  · intro ⟨pages, list, follows, perm, _, listed, _⟩
    have timed := timed_of_follows follows
    refine ⟨timed, fun before task after split empty full => by_contra fun more => ?_⟩
    have short := follows_short timed distinct follows positive [] rfl paginate_all split empty full
    have whole : list.length = (listing options tasks).length := (perm.trans listing_perm.symm).length_eq
    have some := List.length_pos_iff.mpr more
    rw [listed, List.length_map, whole, split, List.length_append, List.length_cons] at short
    omega
  · intro ⟨timed, followed⟩
    obtain ⟨pages, follows, listed, totals⟩ :=
      follows_all timed distinct positive followed [] rfl (Nat.dvd_zero _) paginate_all
    exact ⟨pages, listing options tasks, follows, listing_perm, listing_sorted, listed, totals⟩

end Listing

/-! ## Two tasks -/

def listed (id : String) (timestamp : Option DateTime) : Task Unit Unit := { id, status := ⟨.working, timestamp⟩ }

def noon : DateTime := { utc := { year := 2026, month := 1, day := 1, hour := 12, minute := 0, second := 0 } }

theorem pages_cover_iff_noon : Covered [listed "a" noon, listed "b" noon] { pageSize := 1 } ↔
    Timed [listed "a" noon, listed "b" noon] ∧ Followed 1 (listing { pageSize := 1 } [listed "a" noon, listed "b" noon]) :=
  pages_cover_iff (by decide) (by decide)

/-- A task without a time, beside another one. -/
theorem untimed_raises : apply [listed "a" noon, listed "b" none] {} = .error .raised := rfl

end AshA2A.Protocol.TaskFilter
