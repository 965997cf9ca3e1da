import Mathlib.Algebra.BigOperators.Group.Finset.Piecewise
import Mathlib.Algebra.Order.BigOperators.Group.Finset

/-!
# Bit arrays: searching and counting zero bits

Bit arrays are functions from positions to bits of which a given number of
positions is meaningful. `firstZero` is the search for the lowest zero bit and
`zeroCount` counts the zero bits; setting or clearing one bit moves the count by
one, and the search succeeds exactly when the count is positive.
-/

namespace BitSearch

/-- The first position from `i` on, among the next `fuel`, whose bit is zero;
`i + fuel` if there is none. -/
def scan (bits : ℕ → Bool) : (fuel i : ℕ) → ℕ
  | 0, i => i
  | fuel + 1, i => if bits i then scan bits fuel (i + 1) else i

/-- The lowest zero bit below `size`, or `size` if every bit is set. -/
def firstZero (bits : ℕ → Bool) (size : ℕ) : ℕ := scan bits size 0

/-- The number of zero bits below `size`. -/
def zeroCount (bits : ℕ → Bool) (size : ℕ) : ℕ :=
  ((Finset.range size).filter fun i => bits i = false).card

variable {bits : ℕ → Bool} {size i j : ℕ}

theorem scan_spec (bits : ℕ → Bool) (fuel i : ℕ) :
    i ≤ scan bits fuel i ∧ scan bits fuel i ≤ i + fuel ∧
      (∀ j, i ≤ j → j < scan bits fuel i → bits j = true) ∧
      (scan bits fuel i < i + fuel → bits (scan bits fuel i) = false) := by
  induction fuel generalizing i with
  | zero => exact ⟨le_rfl, le_rfl, fun j h h' => by simp only [scan] at h'; omega,
      fun h => by simp only [scan] at h; omega⟩
  | succ fuel ih =>
    by_cases hb : bits i = true
    · obtain ⟨h1, h2, h3, h4⟩ := ih (i + 1)
      simp only [scan, hb, if_true]
      refine ⟨by omega, by omega, fun j hj hlt => ?_, fun h => h4 (by omega)⟩
      by_cases hij : j = i
      · rwa [hij]
      · exact h3 j (by omega) hlt
    · simp only [scan, hb]
      exact ⟨le_rfl, by simp, fun j h h' => by simp at h'; omega, fun _ => by simpa using hb⟩

theorem firstZero_set_below (h : j < firstZero bits size) : bits j = true :=
  (scan_spec bits size 0).2.2.1 j (Nat.zero_le _) h

theorem firstZero_zero (h : firstZero bits size < size) : bits (firstZero bits size) = false :=
  (scan_spec bits size 0).2.2.2 (by simpa [firstZero] using h)

theorem zeroCount_le (bits : ℕ → Bool) (size : ℕ) : zeroCount bits size ≤ size := by
  simpa [zeroCount] using Finset.card_filter_le (Finset.range size) fun i => bits i = false

theorem zeroCount_eq_zero : zeroCount bits size = 0 ↔ ∀ i < size, bits i = true := by
  simp [zeroCount, Finset.filter_eq_empty_iff]

/-- A positive count guarantees that the search stays inside the array. -/
theorem firstZero_lt_iff : firstZero bits size < size ↔ zeroCount bits size ≠ 0 := by
  constructor
  · intro h hz
    have hset := zeroCount_eq_zero.mp hz _ h
    rw [firstZero_zero h] at hset
    cases hset
  · intro h
    by_contra hge
    have hall : ∀ i < size, bits i = true := fun i hi =>
      firstZero_set_below (by omega : i < firstZero bits size)
    exact h (zeroCount_eq_zero.mpr hall)

/-- Setting a zero bit lowers the count by one. -/
theorem zeroCount_set (hi : i < size) (hb : bits i = false) :
    zeroCount (Function.update bits i true) size + 1 = zeroCount bits size := by
  have herase : ((Finset.range size).filter fun j => Function.update bits i true j = false) =
      ((Finset.range size).filter fun j => bits j = false).erase i := by
    ext j
    by_cases hj : j = i <;> simp [hj]
  rw [zeroCount, zeroCount, herase]
  exact Finset.card_erase_add_one (by simp [hi, hb])

/-- Clearing a set bit raises the count by one. -/
theorem zeroCount_clear (hi : i < size) (hb : bits i = true) :
    zeroCount (Function.update bits i false) size = zeroCount bits size + 1 := by
  have hclear : Function.update bits i false i = false := Function.update_self i false bits
  have h := zeroCount_set hi hclear
  rw [Function.update_idem, ← hb, Function.update_eq_self] at h
  exact h.symm

@[simp] theorem zeroCount_false (size : ℕ) : zeroCount (fun _ => false) size = size := by
  simp [zeroCount]

@[simp] theorem zeroCount_true (size : ℕ) : zeroCount (fun _ => true) size = 0 := by
  simp [zeroCount]

/-- The zero bits of `k` arrays of one size, counted as positions of one long array. -/
theorem sum_zeroCount (f : ℕ → ℕ → Bool) (hsize : 0 < size) (k : ℕ) :
    ∑ g ∈ Finset.range k, zeroCount (f g) size =
      ((Finset.range (k * size)).filter fun x => f (x / size) (x % size) = false).card := by
  induction k with
  | zero => simp
  | succ k ih =>
    rw [Finset.sum_range_succ, ih, zeroCount, Finset.card_filter, Finset.card_filter,
      Finset.card_filter, Nat.succ_mul, Finset.sum_range_add]
    congr 1
    apply Finset.sum_congr rfl
    intro i hi
    have hlt : i < size := Finset.mem_range.mp hi
    rw [Nat.mul_comm k size, Nat.mul_add_div hsize, Nat.div_eq_of_lt hlt, Nat.add_zero,
      Nat.mul_add_mod, Nat.mod_eq_of_lt hlt]

end BitSearch
