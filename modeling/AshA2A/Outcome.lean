import Mathlib.Logic.Basic

/-! Checks that run in order: where they end in a value, and where in the one fault that nobody
catches. -/

namespace AshA2A

variable {ε α β : Type}

/-- What a chain of checks that passes says of each of them. -/
theorem bind_ok_iff {ε α β : Type} {first : Except ε α} {next : α → Except ε β} {value : β} :
    (first >>= next) = .ok value ↔ ∃ middle, first = .ok middle ∧ next middle = .ok value := by
  cases first <;> simp [Bind.bind, Except.bind]

theorem mapM_ok_iff {ε α β : Type} {items : List α} {decode : α → Except ε β} {results : List β} :
    items.mapM decode = .ok results ↔ ∃ pairs : List (α × β), items = pairs.map Prod.fst ∧
      results = pairs.map Prod.snd ∧ ∀ pair ∈ pairs, decode pair.1 = .ok pair.2 := by
  induction items generalizing results with
  | nil =>
    constructor
    · rintro ⟨⟩
      exact ⟨[], rfl, rfl, fun _ member => absurd member List.not_mem_nil⟩
    · rintro ⟨pairs, none, rfl, _⟩
      rw [List.map_eq_nil_iff.mp none.symm]
      rfl
  | cons item items ih =>
    simp only [List.mapM_cons, bind_ok_iff, ih]
    constructor
    · rintro ⟨result, first, _, ⟨pairs, rfl, rfl, each⟩, ⟨⟩⟩
      exact ⟨(item, result) :: pairs, rfl, rfl, List.forall_mem_cons.mpr ⟨first, each⟩⟩
    · rintro ⟨pairs, same, rfl, each⟩
      cases pairs with
      | nil => cases same
      | cons pair pairs =>
        obtain ⟨rfl, rfl⟩ := List.cons.inj same
        obtain ⟨first, each⟩ := List.forall_mem_cons.mp each
        exact ⟨pair.2, first, _, ⟨pairs, rfl, rfl, each⟩, rfl⟩

/-! ## Steps that do not crash -/

section Survival
variable {crash : ε}

theorem bind_survives {first : Except ε α} {next : α → Except ε β} : first >>= next ≠ .error crash ↔
    first ≠ .error crash ∧ ∀ value, first = .ok value → next value ≠ .error crash := by
  cases first with
  | error fault => simp [Bind.bind, Except.bind]
  | ok value => simp [Bind.bind, Except.bind]

theorem bind_survives_total {first : Except ε α} {next : α → Except ε β} (total : first ≠ .error crash) :
    first >>= next ≠ .error crash ↔ ∀ value, first = .ok value → next value ≠ .error crash :=
  bind_survives.trans (and_iff_right total)

theorem forM_survives {items : List α} {check : α → Except ε Unit} (each : ∀ item ∈ items, check item ≠ .error crash) :
    items.forM check ≠ .error crash := by
  induction items with
  | nil => simp [Pure.pure, Except.pure]
  | cons item rest ih =>
    obtain ⟨first, others⟩ := List.forall_mem_cons.mp each
    rw [List.forM_eq_forM, List.forM_cons]
    exact bind_survives.mpr ⟨first, fun _ _ => ih others⟩

theorem mapM_survives {items : List α} {decode : α → Except ε β} (each : ∀ item ∈ items, decode item ≠ .error crash) :
    items.mapM decode ≠ .error crash := by
  induction items with
  | nil => simp [Pure.pure, Except.pure]
  | cons item rest ih =>
    obtain ⟨first, others⟩ := List.forall_mem_cons.mp each
    rw [List.mapM_cons]
    refine bind_survives.mpr ⟨first, fun _ _ => bind_survives.mpr ⟨ih others, fun _ _ => ?_⟩⟩
    simp [Pure.pure, Except.pure]

end Survival

/-- The result is a value where `reads` holds, and another fault than `crash` where it is none
and `steady` holds. -/
structure Follows (crash : ε) (result : Except ε α) (reads steady : Prop) : Prop where
  reads : (∃ value, result = .ok value) ↔ reads
  steady : result ≠ .error crash ↔ steady

namespace Follows

variable {crash : ε} {result : Except ε α} {reads steady : Prop}

theorem iff {reads' steady' : Prop} (follows : Follows crash result reads steady) (read : reads ↔ reads')
    (kept : steady ↔ steady') : Follows crash result reads' steady' :=
  ⟨follows.reads.trans read, follows.steady.trans kept⟩

theorem ok {value : α} (read : reads) (kept : steady) : Follows crash (.ok value) reads steady :=
  ⟨iff_of_true ⟨value, rfl⟩ read, iff_of_true nofun kept⟩

theorem refused {fault : ε} (other : fault ≠ crash) (unread : ¬ reads) (kept : steady) :
    Follows crash (.error fault : Except ε α) reads steady :=
  ⟨iff_of_false nofun unread, iff_of_true (fun same => other (Except.error.inj same)) kept⟩

theorem crashed (unread : ¬ reads) (lost : ¬ steady) : Follows crash (.error crash : Except ε α) reads steady :=
  ⟨iff_of_false nofun unread, iff_of_false (fun kept => kept rfl) lost⟩

theorem map (follows : Follows crash result reads steady) (build : α → β) :
    Follows crash (result.map build) reads steady := by
  obtain ⟨read, kept⟩ := follows
  cases result with
  | error fault =>
    refine ⟨(iff_of_false nofun nofun).trans read, Iff.trans ?_ kept⟩
    exact not_congr (by rw [Except.map, Except.error.injEq, Except.error.injEq])
  | ok value => exact ⟨(iff_of_true ⟨_, rfl⟩ ⟨_, rfl⟩).trans read, (iff_of_true nofun nofun).trans kept⟩

theorem bind (follows : Follows crash result reads steady) {next : α → Except ε β} {reads' steady' : Prop}
    (then_follows : ∀ value, result = .ok value → Follows crash (next value) reads' steady') :
    Follows crash (result >>= next) (reads ∧ reads') (steady ∧ (reads → steady')) := by
  cases given : result with
  | error fault =>
    have unread : ¬ reads := fun read => by
      obtain ⟨value, same⟩ := follows.reads.mpr read
      cases given.symm.trans same
    refine ⟨iff_of_false nofun fun both => unread both.1, ?_⟩
    rw [and_iff_left fun read => absurd read unread, ← follows.steady, given]
    show (.error fault : Except ε β) ≠ .error crash ↔ _
    exact not_congr (by rw [Except.error.injEq, Except.error.injEq])
  | ok value =>
    have read : reads := follows.reads.mp ⟨value, given⟩
    have kept : steady := follows.steady.mp (given ▸ nofun)
    exact (then_follows value given).iff (and_iff_right read).symm
      ⟨fun last => ⟨kept, fun _ => last⟩, fun both => both.2 read⟩

/-- Steps that give a value whatever they are given. -/
theorem onward (follows : Follows crash result reads steady) {next : α → Except ε β}
    (made : ∀ value, result = .ok value → ∃ last, next value = .ok last) :
    Follows crash (result >>= next) reads steady := by
  have total (value : α) (given : result = .ok value) : Follows crash (next value) True True := by
    obtain ⟨last, same⟩ := made value given
    exact same ▸ .ok trivial trivial
  exact (follows.bind total).iff (iff_of_eq (and_true _)) (and_iff_left fun _ => trivial)

end Follows

/-- Which inputs are read, and which are survived. -/
structure Check (α : Type) where
  reads : α → Prop
  steady : α → Prop

namespace Check

def accepted : Check α := ⟨fun _ => True, fun _ => True⟩

def refused : Check α := ⟨fun _ => False, fun _ => True⟩

def crashing : Check α := ⟨fun _ => False, fun _ => False⟩

/-- A check of the type of the input. -/
def only (fits : α → Prop) : Check α := ⟨fits, fits⟩

/-- The second check is made where the first one read the input. -/
def andThen (first second : Check α) : Check α :=
  ⟨fun x => first.reads x ∧ second.reads x, fun x => first.steady x ∧ (first.reads x → second.steady x)⟩

def on (check : Check β) (part : α → β) : Check α := ⟨fun x => check.reads (part x), fun x => check.steady (part x)⟩

def choose (form : α → Check α) : Check α := ⟨fun x => (form x).reads x, fun x => (form x).steady x⟩

/-- Every item is read; each is survived, up to the first that is not read. -/
def each (check : Check α) : Check (List α) where
  reads items := ∀ item ∈ items, check.reads item
  steady items := ∀ before item after, items = before ++ item :: after → (∀ item ∈ before, check.reads item) →
    check.steady item

theorem each_steady_nil {check : Check α} : check.each.steady [] := by
  intro before item after split
  cases before <;> cases split

theorem each_steady_cons {check : Check α} {first : α} {rest : List α} :
    check.each.steady (first :: rest) ↔ check.steady first ∧ (check.reads first → check.each.steady rest) := by
  constructor
  · intro all
    refine ⟨all [] first rest rfl nofun, fun read before item after split earlier => ?_⟩
    exact all (first :: before) item after (by rw [split, List.cons_append])
      (List.forall_mem_cons.mpr ⟨read, earlier⟩)
  · rintro ⟨kept, others⟩ before item after split earlier
    cases before with
    | nil =>
      rw [List.nil_append, List.cons.injEq] at split
      exact split.1 ▸ kept
    | cons head before =>
      rw [List.cons_append, List.cons.injEq] at split
      obtain ⟨rfl, split⟩ := split
      obtain ⟨read, earlier⟩ := List.forall_mem_cons.mp earlier
      exact others read before item after split earlier

theorem each_reads_on {check : Check β} {part : α → β} {items : List α} :
    (check.on part).each.reads items ↔ check.each.reads (items.map part) := by
  show (∀ item ∈ items, check.reads (part item)) ↔ ∀ item ∈ items.map part, check.reads item
  rw [List.forall_mem_map]

theorem each_steady_on {check : Check β} {part : α → β} {items : List α} :
    (check.on part).each.steady items ↔ check.each.steady (items.map part) := by
  induction items with
  | nil => exact iff_of_true each_steady_nil each_steady_nil
  | cons first rest ih => rw [List.map_cons, each_steady_cons, each_steady_cons, ih]; rfl

/-- The function gives a value and faults as the check has it. -/
def Describes (check : Check α) (crash : ε) (decode : α → Except ε β) : Prop :=
  ∀ x, Follows crash (decode x) (check.reads x) (check.steady x)

variable {crash : ε} {check : Check α} {decode : α → Except ε β}

theorem Describes.mapM (described : check.Describes crash decode) :
    check.each.Describes crash fun items => items.mapM decode := by
  intro items
  induction items with
  | nil => exact .ok nofun each_steady_nil
  | cons first rest ih =>
    have last (values : List β) : Follows crash (.ok values) True True := .ok trivial trivial
    show Follows crash ((first :: rest).mapM decode) _ _
    rw [List.mapM_cons]
    refine ((described first).bind fun _ _ => ih.bind fun _ _ => last _).iff ?_ ?_
    · rw [and_true]
      exact List.forall_mem_cons.symm
    · rw [each_steady_cons]
      exact and_congr_right fun _ => forall_congr' fun _ => and_iff_left fun _ => trivial

theorem Describes.forM {run : α → Except ε Unit} (described : check.Describes crash run) :
    check.each.Describes crash fun items => items.forM run := by
  intro items
  induction items with
  | nil => exact .ok nofun each_steady_nil
  | cons first rest ih =>
    show Follows crash ((first :: rest).forM run) _ _
    rw [List.forM_eq_forM, List.forM_cons]
    exact ((described first).bind fun _ _ => ih).iff List.forall_mem_cons.symm each_steady_cons.symm

/-- A loop with the positions, on which no outcome depends. -/
theorem Describes.forM_zipIdx {run : α × Nat → Except ε Unit} (described : (check.on Prod.fst).Describes crash run) :
    check.each.Describes crash fun items => items.zipIdx.forM run := fun items =>
  (described.forM items.zipIdx).iff (by rw [each_reads_on, List.zipIdx_map_fst])
    (by rw [each_steady_on, List.zipIdx_map_fst])

end Check

/-! ## Lists of which every item has to be read -/

section Items
variable {read : α → Option β} {items : List α}

theorem mapM_some (each : ∀ item ∈ items, (read item).isSome) : ∃ shown, items.mapM read = some shown := by
  induction items with
  | nil => exact ⟨[], rfl⟩
  | cons item items ih =>
    obtain ⟨first, rest⟩ := List.forall_mem_cons.mp each
    obtain ⟨shown, one⟩ := Option.isSome_iff_exists.mp first
    obtain ⟨others, more⟩ := ih rest
    exact ⟨shown :: others, by rw [List.mapM_cons, one, more]; rfl⟩

theorem mapM_mem {shown : List β} (made : items.mapM read = some shown) {value : β} :
    value ∈ shown ↔ ∃ item ∈ items, read item = some value := by
  induction items generalizing shown with
  | nil =>
    cases made
    simp
  | cons item items ih =>
    rw [List.mapM_cons] at made
    obtain ⟨first, one, made⟩ := Option.bind_eq_some_iff.mp made
    obtain ⟨others, more, same⟩ := Option.bind_eq_some_iff.mp made
    cases same
    rw [List.mem_cons, ih more]
    constructor
    · rintro (rfl | ⟨other, among, found⟩)
      · exact ⟨item, List.mem_cons_self, one⟩
      · exact ⟨other, List.mem_cons_of_mem _ among, found⟩
    · rintro ⟨other, among, found⟩
      rcases List.mem_cons.mp among with rfl | among
      · exact .inl (Option.some.inj (found.symm.trans one))
      · exact .inr ⟨other, among, found⟩

theorem mapM_each {shown : List β} (made : items.mapM read = some shown) : ∀ item ∈ items, (read item).isSome := by
  induction items generalizing shown with
  | nil => exact fun _ none => absurd none List.not_mem_nil
  | cons item items ih =>
    rw [List.mapM_cons] at made
    obtain ⟨first, one, made⟩ := Option.bind_eq_some_iff.mp made
    obtain ⟨others, more, _⟩ := Option.bind_eq_some_iff.mp made
    exact List.forall_mem_cons.mpr ⟨Option.isSome_iff_exists.mpr ⟨first, one⟩, ih more⟩

end Items
end AshA2A
