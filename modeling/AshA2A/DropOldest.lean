import Mathlib.Data.List.Basic

/-! A queue with a bound, which makes room for a new item by dropping its oldest one. Nothing here
names a particular system. -/

namespace DropOldest

variable {Item : Type} {bound : Nat} {queue items : List Item} {item : Item}

def push (bound : Nat) (queue : List Item) (item : Item) : List Item :=
  if bound ≤ queue.length then queue.tail ++ [item] else queue ++ [item]

def pushAll (bound : Nat) (queue items : List Item) : List Item := items.foldl (push bound) queue

@[simp] theorem pushAll_nil : pushAll bound queue [] = queue := rfl

@[simp] theorem pushAll_cons : pushAll bound queue (item :: items) = pushAll bound (push bound queue item) items := rfl

theorem push_room (room : queue.length < bound) : push bound queue item = queue ++ [item] :=
  if_neg (by omega)

theorem push_full (full : bound ≤ queue.length) : push bound queue item = queue.tail ++ [item] := if_pos full

theorem push_length (positive : 0 < bound) (within : queue.length ≤ bound) :
    (push bound queue item).length ≤ bound := by
  unfold push
  split
  · simp only [List.length_append, List.length_tail, List.length_singleton]
    omega
  · simp only [List.length_append, List.length_singleton]
    omega

/-- The newest items stay, in their order. -/
theorem push_sublist : (push bound queue item).Sublist (queue ++ [item]) := by
  unfold push
  split
  · exact (List.tail_sublist queue).append_right [item]
  · exact List.Sublist.refl _

theorem mem_push : item ∈ push bound queue item := by
  unfold push
  split <;> simp

theorem push_suffix (positive : 0 < bound) (within : queue.length ≤ bound) :
    push bound queue item = (queue ++ [item]).drop (queue.length + 1 - bound) := by
  by_cases full : bound ≤ queue.length
  · have drop : queue.length + 1 - bound = 1 := by omega
    rw [push_full full, drop]
    cases queue with
    | nil => simp at full; omega
    | cons first rest => simp
  · have drop : queue.length + 1 - bound = 0 := by omega
    rw [push_room (by omega), drop, List.drop_zero]

/-- What was pushed is what is left when there is room for no more than its end. -/
theorem pushAll_suffix (positive : 0 < bound) (within : queue.length ≤ bound) :
    pushAll bound queue items = (queue ++ items).drop (queue.length + items.length - bound) := by
  induction items generalizing queue with
  | nil =>
    have drop : queue.length - bound = 0 := by omega
    simp [drop]
  | cons item items ih =>
    rw [pushAll_cons, ih (push_length positive within), push_suffix positive within]
    simp only [List.length_drop, List.length_append, List.length_cons, List.length_nil, Nat.zero_add]
    have regroup : queue ++ item :: items = (queue ++ [item]) ++ items := by simp
    have short : queue.length + 1 - bound ≤ (queue ++ [item]).length := by simp
    have count : queue.length + 1 - bound + (queue.length + 1 - (queue.length + 1 - bound) + items.length - bound) =
        queue.length + (items.length + 1) - bound := by omega
    rw [regroup, ← List.drop_append_of_le_length short, List.drop_drop, count]

theorem pushAll_room (positive : 0 < bound) (room : queue.length + items.length ≤ bound) :
    pushAll bound queue items = queue ++ items := by
  have drop : queue.length + items.length - bound = 0 := by omega
  rw [pushAll_suffix positive (by omega), drop, List.drop_zero]

/-- As many items as there is room for push out all that was there. -/
theorem pushAll_full (positive : 0 < bound) (within : queue.length ≤ bound) (full : items.length = bound) :
    pushAll bound queue items = items := by
  have drop : queue.length + items.length - bound = queue.length := by omega
  rw [pushAll_suffix positive within, drop, List.drop_left]

theorem pushAll_length (positive : 0 < bound) (within : queue.length ≤ bound) :
    (pushAll bound queue items).length = min bound (queue.length + items.length) := by
  rw [pushAll_suffix positive within, List.length_drop, List.length_append]
  omega

theorem pushAll_subset (positive : 0 < bound) (within : queue.length ≤ bound) :
    pushAll bound queue items ⊆ queue ++ items := by
  rw [pushAll_suffix positive within]
  exact (List.drop_suffix _ _).subset

end DropOldest
