import Mathlib.Data.List.TakeWhile
import Mathlib.Order.Basic

/-! Marks in a text: a fixed lead with a run of further items behind it. A scan finds the first from the left and takes the
whole run. Nothing here names a particular system. -/

namespace MarkedRuns

variable {α : Type} [DecidableEq α] (lead : List α) (inside : α → Bool)

/-- A mark begins here: the lead, and at least one item of a run. -/
def begins (text : List α) : Bool := lead.isPrefixOf text && (text.drop lead.length).head?.any inside

/-- The mark that begins here. -/
def size (text : List α) : Nat := lead.length + ((text.drop lead.length).takeWhile inside).length

/-- Where the marks stand, each with its length. -/
def scan : Nat → Nat → List α → List (Nat × Nat)
  | _, _, [] => []
  | skip + 1, offset, _ :: text => scan skip (offset + 1) text
  | 0, offset, item :: text =>
    if begins lead inside (item :: text) then
      (offset, size lead inside (item :: text)) :: scan (size lead inside (item :: text) - 1) (offset + 1) text
    else scan 0 (offset + 1) text

/-- There is no mark in the text. -/
def Free (text : List α) : Prop := ∀ before after, text = before ++ after → begins lead inside after = false

/-- No mark begins in the gap. -/
def Passes (gap rest : List α) : Prop :=
  ∀ before after, gap = before ++ after → after ≠ [] → begins lead inside (after ++ rest) = false

/-- A mark, with nothing of its run left behind it. -/
structure Ends (mark rest : List α) : Prop where
  run : ∃ run, mark = lead ++ run ∧ run ≠ [] ∧ ∀ item ∈ run, inside item = true
  stop : ∀ item ∈ rest.head?, inside item = false

/-- The text with each of its marks rewritten. -/
inductive Rewrites (rewrite : List α → List α) : List α → List α → Prop where
  | free {text : List α} (free : Free lead inside text) : Rewrites rewrite text text
  | mark {gap mark rest written : List α} (passes : Passes lead inside gap (mark ++ rest))
      (ends : Ends lead inside mark rest) (further : Rewrites rewrite rest written) :
      Rewrites rewrite (gap ++ (mark ++ rest)) (gap ++ (rewrite mark ++ written))

variable {lead : List α} {inside : α → Bool} {gap mark rest run text : List α} {offset : Nat}

theorem begins_iff : begins lead inside text = true ↔
    ∃ item after, text = lead ++ item :: after ∧ inside item = true := by
  rw [begins, Bool.and_eq_true, List.isPrefixOf_iff_prefix]
  constructor
  · rintro ⟨⟨after, rfl⟩, more⟩
    rw [List.drop_left] at more
    cases after with
    | nil => cases more
    | cons item after => exact ⟨item, after, rfl, more⟩
  · rintro ⟨item, after, rfl, more⟩
    refine ⟨⟨_, rfl⟩, ?_⟩
    rw [List.drop_left]
    exact more

omit [DecidableEq α] in
theorem head_dropWhile : ∀ item ∈ (text.dropWhile inside).head?, inside item = false := by
  intro item first
  have stops := List.head?_dropWhile_not inside text
  rw [Option.mem_def.mp first] at stops
  exact stops

/-- Where a mark begins, it ends at the end of its run. -/
theorem Ends.of_begins (starts : begins lead inside text = true) :
    ∃ mark rest, text = mark ++ rest ∧ Ends lead inside mark rest := by
  obtain ⟨item, after, rfl, more⟩ := begins_iff.mp starts
  refine ⟨lead ++ item :: after.takeWhile inside, after.dropWhile inside, ?_, ⟨_, rfl, List.cons_ne_nil _ _, ?_⟩, head_dropWhile⟩
  · rw [List.append_assoc, List.cons_append, List.takeWhile_append_dropWhile]
  · exact List.forall_mem_cons.mpr ⟨more, fun item member => List.mem_takeWhile_imp member⟩

theorem Ends.begins (ends : Ends lead inside mark rest) : begins lead inside (mark ++ rest) = true := by
  obtain ⟨run, rfl, some, all⟩ := ends.run
  obtain ⟨item, run, rfl⟩ := List.exists_cons_of_ne_nil some
  exact begins_iff.mpr ⟨item, run ++ rest, by rw [List.append_assoc, List.cons_append], all item List.mem_cons_self⟩

omit [DecidableEq α] in
theorem Ends.size (ends : Ends lead inside mark rest) : size lead inside (mark ++ rest) = mark.length := by
  obtain ⟨run, rfl, -, all⟩ := ends.run
  have none : rest.takeWhile inside = [] := by
    cases rest with
    | nil => rfl
    | cons item rest => rw [List.takeWhile_cons_of_neg (by simp [ends.stop item rfl])]
  rw [MarkedRuns.size, List.append_assoc, List.drop_left, List.takeWhile_append_of_pos all, none, List.append_nil,
    List.length_append]

omit [DecidableEq α] in
theorem Ends.ne_nil (ends : Ends lead inside mark rest) : mark ≠ [] := by
  obtain ⟨run, rfl, some, -⟩ := ends.run
  exact List.append_ne_nil_of_right_ne_nil _ some

/-! ## The scan -/

theorem scan_skip {taken : List α} : scan lead inside taken.length offset (taken ++ rest) =
    scan lead inside 0 (offset + taken.length) rest := by
  induction taken generalizing offset with
  | nil => rfl
  | cons item taken ih =>
    show scan lead inside taken.length (offset + 1) (taken ++ rest) = _
    rw [ih, List.length_cons, Nat.add_assoc, Nat.add_comm 1]

theorem scan_passes (passes : Passes lead inside gap rest) :
    scan lead inside 0 offset (gap ++ rest) = scan lead inside 0 (offset + gap.length) rest := by
  induction gap generalizing offset with
  | nil => rfl
  | cons item gap ih =>
    have here : begins lead inside (item :: gap ++ rest) = false := passes [] _ rfl (List.cons_ne_nil _ _)
    have further : Passes lead inside gap rest := fun before after same =>
      passes (item :: before) after (by rw [same, List.cons_append])
    rw [List.cons_append] at here ⊢
    rw [scan, here, if_neg Bool.false_ne_true, ih further, List.length_cons, Nat.add_assoc, Nat.add_comm 1]

theorem scan_mark (ends : Ends lead inside mark rest) : scan lead inside 0 offset (mark ++ rest) =
    (offset, mark.length) :: scan lead inside 0 (offset + mark.length) rest := by
  have starts := ends.begins
  have size := ends.size
  obtain ⟨item, taken, rfl⟩ := List.exists_cons_of_ne_nil ends.ne_nil
  rw [List.cons_append] at starts size ⊢
  rw [scan, if_pos starts, size, List.length_cons, Nat.add_sub_cancel, scan_skip, Nat.add_assoc, Nat.add_comm 1]

theorem scan_free (free : Free lead inside text) : scan lead inside 0 offset text = [] := by
  have passes : Passes lead inside text [] := fun before after same _ => by
    rw [List.append_nil]
    exact free before after same
  have whole := @scan_passes _ _ lead inside text [] offset passes
  rwa [List.append_nil] at whole

theorem scan_after (skip offset : Nat) (text : List α) : ∀ place ∈ scan lead inside skip offset text, offset ≤ place.1 := by
  induction text generalizing skip offset with
  | nil => exact fun place member => absurd member List.not_mem_nil
  | cons item text ih =>
    intro place member
    cases skip with
    | succ skip => exact Nat.le_of_succ_le (ih skip (offset + 1) place member)
    | zero =>
      rw [scan] at member
      split at member
      · obtain rfl | later := List.mem_cons.mp member
        · exact le_refl _
        · exact Nat.le_of_succ_le (ih _ (offset + 1) place later)
      · exact Nat.le_of_succ_le (ih 0 (offset + 1) place member)

/-- The places come from the left to the right. -/
theorem scan_sorted (skip offset : Nat) (text : List α) :
    (scan lead inside skip offset text).Pairwise fun first second => first.1 ≤ second.1 := by
  induction text generalizing skip offset with
  | nil => exact .nil
  | cons item text ih =>
    cases skip with
    | succ skip => exact ih skip (offset + 1)
    | zero =>
      rw [scan]
      split
      · exact .cons (fun place member => Nat.le_of_succ_le (scan_after _ _ _ place member)) (ih _ _)
      · exact ih 0 (offset + 1)

/-! ## The rewriting -/

theorem Free.tail {item : α} (free : Free lead inside (item :: text)) : Free lead inside text :=
  fun before after same => free (item :: before) after (by rw [same, List.cons_append])

/-- No item of a run stands behind a lead. -/
theorem Free.outside {before after : List α} {item : α} (free : Free lead inside (before ++ (lead ++ item :: after))) :
    inside item = false := by
  have here := free before _ rfl
  by_contra known
  rw [begins_iff.mpr ⟨item, after, rfl, eq_true_of_ne_false known⟩] at here
  cases here

theorem Free.within {part : List α} (free : Free lead inside text) (within : part <:+: text) : Free lead inside part := by
  obtain ⟨before, behind, rfl⟩ := within
  rintro start after rfl
  refine eq_false_of_ne_true fun starts => ?_
  obtain ⟨item, more, rfl, known⟩ := begins_iff.mp starts
  have whole : before ++ (start ++ (lead ++ item :: more)) ++ behind = (before ++ start) ++ (lead ++ item :: (more ++ behind)) := by
    simp
  rw [whole] at free
  rw [free.outside] at known
  cases known

/-- A text without marks has none of them in it. -/
theorem Free.not_mark (free : Free lead inside text) (ends : Ends lead inside mark rest) : ¬ mark <:+: text := by
  intro within
  obtain ⟨run, rfl, some, all⟩ := ends.run
  obtain ⟨item, run, rfl⟩ := List.exists_cons_of_ne_nil some
  have known := all item List.mem_cons_self
  rw [@Free.outside _ _ _ inside [] run item (free.within within)] at known
  cases known

/-- Every text can be rewritten. -/
theorem exists_rewrites (rewrite : List α → List α) (text : List α) : ∃ written, Rewrites lead inside rewrite text written := by
  induction length : text.length using Nat.strongRecOn generalizing text with
  | ind length_ ih =>
  subst length
  cases starts : begins lead inside text with
  | true =>
    obtain ⟨mark, rest, rfl, ends⟩ := Ends.of_begins starts
    have shorter : rest.length < (mark ++ rest).length := by
      have some := List.length_pos_iff.mpr ends.ne_nil
      rw [List.length_append]
      omega
    obtain ⟨written, further⟩ := ih _ shorter rest rfl
    have none : Passes lead inside [] (mark ++ rest) := fun before after same some =>
      absurd (List.append_eq_nil_iff.mp same.symm).2 some
    exact ⟨_, .mark none ends further⟩
  | false =>
    cases text with
    | nil => exact ⟨[], .free fun before after same => by rw [(List.append_eq_nil_iff.mp same.symm).2]; exact starts⟩
    | cons item text =>
      obtain ⟨written, further⟩ := ih text.length (by simp) text rfl
      cases further with
      | free free =>
        refine ⟨_, .free fun before after same => ?_⟩
        cases before with
        | nil =>
          rw [List.nil_append] at same
          exact same ▸ starts
        | cons other before => exact free before after (List.cons.inj same).2
      | @mark gap mark rest written passes ends further =>
        have skips : Passes lead inside (item :: gap) (mark ++ rest) := by
          intro before after same some
          cases before with
          | nil =>
            rw [List.nil_append] at same
            exact same ▸ starts
          | cons other before => exact passes before after (List.cons.inj same).2 some
        exact ⟨_, .mark skips ends further⟩

/-- A gap without marks is passed, unless the lead stands at its end: no end of the lead is a start of it. -/
theorem Free.passes (borderless : ∀ length, 0 < length → length < lead.length → lead.drop length ≠ lead.take (lead.length - length))
    (free : Free lead inside gap) (apart : ¬ lead <:+ gap) : Passes lead inside gap (lead ++ rest) := by
  rintro before after rfl some
  refine eq_false_of_ne_true fun starts => ?_
  obtain ⟨item, more, same, known⟩ := begins_iff.mp starts
  obtain shorter | longer := Nat.lt_or_ge after.length lead.length
  · -- the end of the lead would stand where it begins again
    refine borderless after.length (List.length_pos_iff.mpr some) shorter ?_
    have left : lead ++ rest = lead.drop after.length ++ item :: more := by
      rw [← List.drop_append_of_le_length (Nat.le_of_lt shorter), ← same, List.drop_left]
    have size : (lead.drop after.length).length = lead.length - after.length := List.length_drop
    have cut := congrArg (List.take (lead.length - after.length)) left
    rw [List.take_append_of_le_length (Nat.sub_le _ _), List.take_left' size] at cut
    exact cut.symm
  · obtain ⟨behind, rfl⟩ : lead <+: after := by
      refine List.prefix_of_prefix_length_le ?_ (List.prefix_append after (lead ++ rest)) longer
      exact same ▸ List.prefix_append _ _
    cases behind with
    | nil => exact apart ⟨before, by rw [List.append_nil]⟩
    | cons item' behind =>
      simp only [List.append_assoc, List.append_cancel_left_eq, List.cons_append, List.cons.injEq] at same
      obtain ⟨rfl, -⟩ := same
      rw [free.outside] at known
      cases known

end MarkedRuns
