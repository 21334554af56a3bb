import Mathlib

/-!
# Numerals in a base

The digits of a number, the most significant first, as a number is written; zero has one
digit. Reading from left to right gives the number back.
-/
namespace BlmLink.Lib.Numerals

variable {b : Nat}

def numeral (b n : Nat) : List Nat := if n = 0 then [0] else (Nat.digits b n).reverse

/-- The value of digits read from left to right. -/
def value (b : Nat) (ds : List Nat) : Nat := ds.foldl (fun v d => v * b + d) 0

theorem value_reverse (ds : List Nat) : value b ds.reverse = Nat.ofDigits b ds := by
  induction ds with
  | nil => rfl
  | cons d ds ih =>
    rw [value] at ih
    rw [value, List.reverse_cons, List.foldl_append, ih, Nat.ofDigits_cons, List.foldl_cons,
      List.foldl_nil, Nat.mul_comm, Nat.add_comm]

@[simp] theorem value_numeral (b n : Nat) : value b (numeral b n) = n := by
  unfold numeral
  split
  next zero => simp [value, zero]
  next => rw [value_reverse, Nat.ofDigits_digits]

theorem numeral_ne_nil (b n : Nat) : numeral b n ≠ [] := by
  unfold numeral
  split
  · simp
  next nonzero => simpa using Nat.digits_ne_nil_iff_ne_zero.mpr nonzero

theorem digit_lt (base : 1 < b) {n d : Nat} (digit : d ∈ numeral b n) : d < b := by
  unfold numeral at digit
  split at digit
  · simp only [List.mem_singleton] at digit
    omega
  · exact Nat.digits_lt_base base (List.mem_reverse.mp digit)

/-- A number below `b ^ k` has at most `k` digits. -/
theorem length_numeral_le (base : 1 < b) {n k : Nat} (small : n < b ^ k) (some : 0 < k) :
    (numeral b n).length ≤ k := by
  unfold numeral
  split
  · exact some
  · rw [List.length_reverse]
    exact (Nat.digits_length_le_iff base n).mpr small

end BlmLink.Lib.Numerals
