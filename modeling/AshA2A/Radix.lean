import Mathlib.Data.List.Basic
import Mathlib.Tactic.Ring

/-! Numbers spelled with digits of a fixed width, the most significant one first, and when two of them
begin with the same bits. Nothing here names a particular system. -/

namespace Radix

def number (width : Nat) (digits : List Nat) : Nat := digits.foldl (fun value digit => (value <<< width) + digit) 0

def Bounded (width : Nat) (digits : List Nat) : Prop := ∀ digit ∈ digits, digit < 2 ^ width

/-- The first bits of the two are the same. -/
def Agree (width : Nat) : Nat → List Nat → List Nat → Prop
  | 0, _, _ => True
  | bits, x :: xs, y :: ys =>
    if width ≤ bits then x = y ∧ Agree width (bits - width) xs ys
    else x >>> (width - bits) = y >>> (width - bits)
  | _, _, _ => True

variable {width bits : Nat} {x y : Nat} {xs ys : List Nat}

@[simp] theorem agree_zero : Agree width 0 xs ys := by rw [Agree]; trivial

theorem agree_whole (whole : width ≤ bits) (some : bits ≠ 0) :
    Agree width bits (x :: xs) (y :: ys) ↔ x = y ∧ Agree width (bits - width) xs ys := by
  cases bits with
  | zero => exact absurd rfl some
  | succ bits => rw [Agree, if_pos whole]; exact some

theorem agree_part (part : bits < width) (some : bits ≠ 0) :
    Agree width bits (x :: xs) (y :: ys) ↔ x >>> (width - bits) = y >>> (width - bits) := by
  cases bits with
  | zero => exact absurd rfl some
  | succ bits => rw [Agree, if_neg (by omega)]; exact some

/-- Bits that fill whole digits. -/
theorem agree_digits {count : Nat} (length : xs.length = ys.length) (within : count ≤ xs.length) (some : 0 < width) :
    Agree width (count * width) xs ys ↔ xs.take count = ys.take count := by
  induction count generalizing xs ys with
  | zero => simp
  | succ count ih =>
    cases xs with
    | nil => simp at within
    | cons x xs =>
      cases ys with
      | nil => simp at length
      | cons y ys =>
        have fits : width ≤ (count + 1) * width := Nat.le_mul_of_pos_left width (Nat.succ_pos count)
        have rest : (count + 1) * width - width = count * width := by rw [Nat.succ_mul, Nat.add_sub_cancel]
        rw [agree_whole fits (Nat.ne_of_gt (Nat.lt_of_lt_of_le some fits)), rest,
          ih (by simpa using length) (by simpa using within)]
        simp

theorem foldl_number (start : Nat) (digits : List Nat) :
    digits.foldl (fun value digit => (value <<< width) + digit) start =
      start * 2 ^ (width * digits.length) + number width digits := by
  induction digits generalizing start with
  | nil => simp [number]
  | cons digit digits ih =>
    have spelled : number width (digit :: digits) = (0 <<< width + digit) * 2 ^ (width * digits.length) +
        number width digits := ih _
    rw [List.foldl_cons, ih, spelled, List.length_cons, Nat.mul_succ, Nat.pow_add, Nat.shiftLeft_eq,
      Nat.zero_shiftLeft]
    ring

theorem number_cons (digit : Nat) (digits : List Nat) :
    number width (digit :: digits) = digit * 2 ^ (width * digits.length) + number width digits := by
  rw [number, List.foldl_cons, foldl_number]
  simp

theorem Bounded.tail (bounded : Bounded width (x :: xs)) : Bounded width xs :=
  fun digit member => bounded digit (List.mem_cons_of_mem _ member)

theorem Bounded.number_lt (bounded : Bounded width xs) : number width xs < 2 ^ (width * xs.length) := by
  induction xs with
  | nil => simp [number]
  | cons x xs ih =>
    have digit : x + 1 ≤ 2 ^ width := bounded x List.mem_cons_self
    have rest := ih bounded.tail
    rw [number_cons, List.length_cons, Nat.mul_succ, Nat.pow_add]
    calc x * 2 ^ (width * xs.length) + number width xs
        < (x + 1) * 2 ^ (width * xs.length) := by rw [Nat.add_mul]; omega
      _ ≤ 2 ^ (width * xs.length) * 2 ^ width := by rw [Nat.mul_comm]; exact Nat.mul_le_mul_left _ digit

/-- Below the digit nothing counts that is smaller than one unit of it. -/
theorem shift_within {low rest : Nat} (below : low ≤ rest) (value : Nat) (number : Nat) :
    (value * 2 ^ rest + number) / 2 ^ low = value * 2 ^ (rest - low) + number / 2 ^ low := by
  have split : 2 ^ rest = 2 ^ (rest - low) * 2 ^ low := by rw [← Nat.pow_add, Nat.sub_add_cancel below]
  rw [split, ← Nat.mul_assoc, Nat.add_comm, Nat.add_mul_div_right _ _ (Nat.two_pow_pos low), Nat.add_comm]

theorem shift_beyond (above : Nat) {value number rest : Nat} (small : number < 2 ^ rest) :
    (value * 2 ^ rest + number) / 2 ^ (rest + above) = value / 2 ^ above := by
  rw [Nat.pow_add, ← Nat.div_div_eq_div_mul, Nat.add_comm, Nat.add_mul_div_right _ _ (Nat.two_pow_pos rest),
    Nat.div_eq_of_lt small, Nat.zero_add]

/-- A digit and the number behind it can be told apart. -/
theorem digit_eq_iff {unit left right : Nat} (first : left < unit) (second : right < unit) :
    x * unit + left = y * unit + right ↔ x = y ∧ left = right := by
  constructor
  · intro same
    have digits : x = y := by
      have quotient := congrArg (· / unit) same
      simpa [Nat.add_comm (_ * unit), Nat.add_mul_div_right _ _ (Nat.zero_lt_of_lt first), Nat.div_eq_of_lt first,
        Nat.div_eq_of_lt second] using quotient
    subst digits
    exact ⟨rfl, Nat.add_left_cancel same⟩
  · rintro ⟨rfl, rfl⟩
    rfl

theorem div_lt {low rest value : Nat} (below : low ≤ rest) (small : value < 2 ^ rest) :
    value / 2 ^ low < 2 ^ (rest - low) := by
  rw [Nat.div_lt_iff_lt_mul (Nat.two_pow_pos low), ← Nat.pow_add, Nat.sub_add_cancel below]
  exact small

/-- Two numbers of the same length have the same quotient exactly when their leading bits agree. -/
theorem shift_eq_iff (length : xs.length = ys.length) (left : Bounded width xs) (right : Bounded width ys)
    (within : bits ≤ width * xs.length) :
    number width xs >>> (width * xs.length - bits) = number width ys >>> (width * xs.length - bits) ↔
      Agree width bits xs ys := by
  simp only [Nat.shiftRight_eq_div_pow]
  induction xs generalizing ys bits with
  | nil =>
    obtain rfl : ys = [] := List.eq_nil_of_length_eq_zero length.symm
    obtain rfl : bits = 0 := by simpa using within
    simp
  | cons x xs ih =>
    cases ys with
    | nil => simp at length
    | cons y ys =>
      have same : xs.length = ys.length := by simpa using length
      have small := left.tail.number_lt
      have little := right.tail.number_lt
      rw [← same] at little
      rw [List.length_cons, Nat.mul_succ] at within
      rw [number_cons, number_cons, ← same, List.length_cons, Nat.mul_succ]
      by_cases none : bits = 0
      · subst none
        have one : x < 2 ^ width := left x List.mem_cons_self
        have other : y < 2 ^ width := right y List.mem_cons_self
        rw [Nat.sub_zero, shift_beyond width small, shift_beyond width little, Nat.div_eq_of_lt one, Nat.div_eq_of_lt other]
        simp
      by_cases whole : width ≤ bits
      · have rest : bits - width ≤ width * xs.length := by omega
        have low : width * xs.length + width - bits = width * xs.length - (bits - width) := by omega
        have below : width * xs.length - (bits - width) ≤ width * xs.length := Nat.sub_le _ _
        rw [agree_whole whole none, low, shift_within below, shift_within below,
          digit_eq_iff (div_lt below small) (div_lt below little), ih same left.tail right.tail rest]
      · have part : bits < width := by omega
        have low : width * xs.length + width - bits = width * xs.length + (width - bits) := by omega
        rw [agree_part part none, low, shift_beyond _ small, shift_beyond _ little, Nat.shiftRight_eq_div_pow,
          Nat.shiftRight_eq_div_pow]

end Radix
