import Mathlib

/-!
# The field of 256 elements

Octets as polynomials over two elements, modulo `x ^ 8 + x ^ 4 + x ^ 3 + x + 1`. Addition is
`^^^`; `xtime` multiplies by `x` and everything else is put together from it, so that a product
is linear in its second argument and commutes with `xtime` (`mul_xor`, `mul_xtime`). The powers
of `x + 1` are all the elements but zero (`exists_power`), which is checked against a table and
its inverse, one octet for each entry.
-/
namespace BlmLink.Lib.ByteField

section linear

def xtime (b : BitVec 8) : BitVec 8 := (b <<< 1) ^^^ (if b.msb then 0x1B else 0)

theorem xtime_xor (a b : BitVec 8) : xtime (a ^^^ b) = xtime a ^^^ xtime b := by
  have high : (if (a ^^^ b).msb then (0x1B : BitVec 8) else 0) =
      (if a.msb then 0x1B else 0) ^^^ (if b.msb then 0x1B else 0) := by
    rw [BitVec.msb_xor]
    cases a.msb <;> cases b.msb <;> rfl
  rw [xtime, high, BitVec.shiftLeft_xor_distrib, xtime, xtime]
  ac_rfl

theorem xtime_zero : xtime 0 = 0 := rfl

theorem iterate_xtime_xor (n : Nat) (a b : BitVec 8) :
    xtime^[n] (a ^^^ b) = xtime^[n] a ^^^ xtime^[n] b := by
  induction n with
  | zero => rfl
  | succ n ih =>
    rw [Function.iterate_succ_apply', ih, xtime_xor, ← Function.iterate_succ_apply' xtime,
      ← Function.iterate_succ_apply' xtime]

/-- The part of a product that the lower `n` bits of `a` give. -/
def mulBits (a b : BitVec 8) : Nat → BitVec 8
  | 0 => 0
  | n + 1 => mulBits a b n ^^^ (if a.getLsbD n then xtime^[n] b else 0)

def mul (a b : BitVec 8) : BitVec 8 := mulBits a b 8

theorem mulBits_xor (a b c : BitVec 8) (n : Nat) :
    mulBits a (b ^^^ c) n = mulBits a b n ^^^ mulBits a c n := by
  induction n with
  | zero =>
    rw [mulBits, mulBits, mulBits]
    rfl
  | succ n ih =>
    rw [mulBits, ih, iterate_xtime_xor, mulBits, mulBits]
    split
    · ac_rfl
    · simp

theorem mulBits_xtime (a b : BitVec 8) (n : Nat) :
    mulBits a (xtime b) n = xtime (mulBits a b n) := by
  induction n with
  | zero => rw [mulBits, mulBits, xtime_zero]
  | succ n ih =>
    have step : xtime^[n] (xtime b) = xtime (xtime^[n] b) := by
      rw [← Function.iterate_succ_apply, Function.iterate_succ_apply']
    rw [mulBits, ih, mulBits, xtime_xor, apply_ite xtime, step, xtime_zero]

theorem mul_xor (a b c : BitVec 8) : mul a (b ^^^ c) = mul a b ^^^ mul a c := mulBits_xor a b c 8

theorem mul_xtime (a b : BitVec 8) : mul a (xtime b) = xtime (mul a b) := mulBits_xtime a b 8

theorem times_one : ∀ a : BitVec 8, mul a 1 = a := by
  decide +kernel

theorem times_zero (a : BitVec 8) : mul a 0 = 0 := by
  have doubled := mul_xor a 0 0
  rw [BitVec.xor_self, BitVec.xor_self] at doubled
  exact doubled

theorem zero_times : ∀ b : BitVec 8, mul 0 b = 0 := by
  decide +kernel

/-! Products with small constants. -/

theorem one_times (b : BitVec 8) : mul (1#8) b = b := by
  simp [mul, mulBits]

theorem two_times (b : BitVec 8) : mul (2#8) b = xtime b := by
  simp [mul, mulBits]

theorem three_times (b : BitVec 8) : mul (3#8) b = b ^^^ xtime b := by
  simp [mul, mulBits]

theorem nine_times (b : BitVec 8) : mul (9#8) b = b ^^^ xtime (xtime (xtime b)) := by
  simp [mul, mulBits]

theorem eleven_times (b : BitVec 8) : mul (11#8) b = b ^^^ xtime b ^^^ xtime (xtime (xtime b)) := by
  simp [mul, mulBits]

theorem thirteen_times (b : BitVec 8) :
    mul (13#8) b = b ^^^ xtime (xtime b) ^^^ xtime (xtime (xtime b)) := by
  simp [mul, mulBits]

theorem fourteen_times (b : BitVec 8) :
    mul (14#8) b = xtime b ^^^ xtime (xtime b) ^^^ xtime (xtime (xtime b)) := by
  simp [mul, mulBits]

end linear

section powers

/-- Multiplication by `x + 1`. -/
def thrice (b : BitVec 8) : BitVec 8 := b ^^^ xtime b

def power (n : Nat) : BitVec 8 := thrice^[n] 1

theorem power_succ (n : Nat) : power (n + 1) = thrice (power n) :=
  Function.iterate_succ_apply' thrice n 1

theorem mul_thrice (a b : BitVec 8) : mul a (thrice b) = thrice (mul a b) := by
  rw [thrice, mul_xor, mul_xtime, thrice]

theorem mul_power (a : BitVec 8) (n : Nat) : mul a (power n) = thrice^[n] a := by
  induction n with
  | zero => exact times_one a
  | succ n ih => rw [power_succ, mul_thrice, ih, Function.iterate_succ_apply']

theorem power_add (m n : Nat) : mul (power m) (power n) = power (m + n) := by
  rw [mul_power, power, ← Function.iterate_add_apply, power, Nat.add_comm]

/-- An entry of a table, one octet each. -/
def entry (table i : Nat) : Nat := (table >>> (8 * i)) % 256

/-- A table from its rows of 32 entries, the last row first. -/
def packed (rows : List Nat) : Nat := rows.foldl (fun table row => table <<< 256 ||| row) 0

/-- The powers of `x + 1`, and their exponents. -/
def powerTable : Nat :=
  packed
    [0x01f652c7b46c241cfda297847cdd4b39170df2a794858a8f8c8d7b29ee5a3612,
     0x0ef351c6423ee3a891868b79de4acf45ca46cbb099772d1b0907f4a563211ffc,
     0x54c543c8b16f25eaaf6523e858c1b69b80898e7adfbc9d827e2aefac64d5ba9f,
     0x75dabf9c742ced5bc040c9473de25ec3413f15fa5632e75dc2b76dd24e3a16fb,
     0xa06020e9ae93712fecad92877d2b19fea361d6bb69271d0bf0503010f957c4b5,
     0x9a76db49ceb398817fdcbd6bd0b99e838878281808f1a662d74d3be0a967d44c,
     0xcdb26ed3b868d14fcc443c140c04f55331e6ab9070d9be6a26eb5937e45c34e5,
     0xaa66221e0a0602f7a49573d84838e15f3513f8a196722e1aff5533110f050301]

def exponentTable : Nat :=
  packed
    [0x0770f7c0808c630d18fe31c5deed4a67a5e3997726b87cb4892e2023d9921144,
     0xabd3f2565d9e2a14476da2413c843953d15b3f37cdcf95bcfcdcbe619087b297,
     0x9d2955aa6ca1523b86b160fb5a3ebbccb77b76a42d1f43d8ec49c4176ff60c7f,
     0xa051a99cb05fcb59f50b16eb7a75d72ce8ade6e7d5e9ae4f74d6eaf450a858af,
     0x57a773f3e5acd44eca5e9f9b150a792bba3d85fa54286b3a421eb6a3c3486e7e,
     0x1091882298e225b3628b06bf30fddd6638834640f1d25c1394ced036bddb8f96,
     0x8eda93354582f01224e10f21058a2f657809c99a72a6e44d6a27b9f9b51dc27d,
     0xc11c69f8c808714cef818d340ee0046403dfee33681bc74bc61a023201190000]

theorem powerTable_next : ∀ i < 255,
    thrice (BitVec.ofNat 8 (entry powerTable i)) = BitVec.ofNat 8 (entry powerTable (i + 1)) := by
  decide +kernel

theorem powerTable_inverse : ∀ b < 256, b ≠ 0 →
    entry exponentTable b < 255 ∧ entry powerTable (entry exponentTable b) = b := by
  decide +kernel

theorem power_eq_entry {i : Nat} (inside : i ≤ 255) :
    power i = BitVec.ofNat 8 (entry powerTable i) := by
  induction i with
  | zero => rfl
  | succ i ih => rw [power_succ, ih (by omega), powerTable_next i (by omega)]

theorem exists_power {b : BitVec 8} (given : b ≠ 0) : ∃ n < 255, power n = b := by
  have nonzero : b.toNat ≠ 0 := fun zero => given (BitVec.eq_of_toNat_eq zero)
  obtain ⟨below, found⟩ := powerTable_inverse b.toNat b.isLt nonzero
  refine ⟨_, below, ?_⟩
  rw [power_eq_entry (Nat.le_of_lt below), found, BitVec.ofNat_toNat, BitVec.setWidth_eq]

theorem power_period : power 255 = 1 := by
  rw [power_eq_entry (Nat.le_refl _)]
  decide +kernel

theorem power_add_period (n : Nat) : power (n + 255) = power n := by
  rw [power, Function.iterate_add_apply]
  exact congrArg thrice^[n] power_period

theorem power_mod (n : Nat) : power (n % 255) = power n := by
  have wrapped : ∀ k, power (n % 255 + 255 * k) = power (n % 255) := by
    intro k
    induction k with
    | zero => rfl
    | succ k ih => rw [Nat.mul_succ, ← Nat.add_assoc, power_add_period, ih]
  rw [← wrapped (n / 255), Nat.mod_add_div]

/-- Two powers agree where the exponents do modulo 255. -/
theorem power_congr {m n : Nat} (same : m % 255 = n % 255) : power m = power n := by
  rw [← power_mod m, same, power_mod]

/-- The power 254: the inverse of an element, and zero for zero. -/
def inverse (b : BitVec 8) : BitVec 8 := (mul b)^[254] 1

theorem iterate_mul_power (k n : Nat) : (mul (power k))^[n] 1 = power (k * n) := by
  induction n with
  | zero => rfl
  | succ n ih => rw [Function.iterate_succ_apply', ih, power_add, Nat.mul_succ, Nat.add_comm]

theorem inverse_power {k : Nat} (inside : k ≤ 255) : inverse (power k) = power (255 - k) := by
  rw [inverse, iterate_mul_power]
  exact power_congr (by omega)

theorem inverse_zero : inverse 0 = 0 := by
  rw [inverse, Function.iterate_succ_apply', zero_times]

theorem mul_inverse {b : BitVec 8} (given : b ≠ 0) : mul b (inverse b) = 1 := by
  obtain ⟨n, below, rfl⟩ := exists_power given
  rw [inverse_power (Nat.le_of_lt below), power_add,
    power_congr (by omega : (n + (255 - n)) % 255 = 0 % 255)]
  rfl

theorem inverse_injective : Function.Injective inverse := by
  have back : ∀ b, inverse (inverse b) = b := by
    intro b
    by_cases zero : b = 0
    · rw [zero, inverse_zero, inverse_zero]
    · obtain ⟨n, below, rfl⟩ := exists_power zero
      rw [inverse_power (Nat.le_of_lt below), inverse_power (Nat.sub_le _ _)]
      exact power_congr (by omega)
  exact Function.LeftInverse.injective back

end powers

end BlmLink.Lib.ByteField
