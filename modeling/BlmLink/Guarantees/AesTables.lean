import Mathlib
import BlmLink.Lib.ByteField
import BlmLink.Source.Aes

/-!
# The tables of the block cipher

polarssl/library/aes.c:363-442. `pow` has the powers of `x + 1` and `log` an exponent for every
element but zero, so `MUL` is the product of the field and `pow[255 - log[i]]` the inverse of
`i`. `FSb` is the affine map on the inverse; as that is injective, no entry of `RSb` is written
twice and it takes `FSb` back (`RSb_sbox`). The words of the round tables have an octet of
`FSb`, or of `RSb`, times the constants of a column.
-/
namespace BlmLink.Guarantees.AesTables

open BlmLink.Lib.ByteField BlmLink.Source

section octets

theorem XTIME_eq : ∀ b : Byte, XTIME b.toNat &&& 0xFF = (xtime b).toNat := by
  decide +kernel

theorem next_eq : ∀ b : Byte, (b.toNat ^^^ XTIME b.toNat) &&& 0xFF = (thrice b).toNat := by
  decide +kernel

/-- The affine map of the S-box. -/
def affineOctet (b : Byte) : Byte :=
  b ^^^ b.rotateLeft 1 ^^^ b.rotateLeft 2 ^^^ b.rotateLeft 3 ^^^ b.rotateLeft 4 ^^^ 0x63

theorem affine_eq : ∀ b : Byte, affine b.toNat = (affineOctet b).toNat := by
  decide +kernel

/-- Its inverse. -/
def unaffine (b : Byte) : Byte :=
  b.rotateLeft 1 ^^^ b.rotateLeft 3 ^^^ b.rotateLeft 6 ^^^ 0x05

theorem unaffine_affineOctet : ∀ b : Byte, unaffine (affineOctet b) = b := by
  decide +kernel

theorem affineOctet_injective : Function.Injective affineOctet :=
  Function.LeftInverse.injective unaffine_affineOctet

/-- The S-box: the affine map on the inverse. -/
def sbox (b : Byte) : Byte := affineOctet (inverse b)

theorem sbox_injective : Function.Injective sbox := affineOctet_injective.comp inverse_injective

end octets

section logarithms

/-- The first loop after `n` iterations. -/
structure Powers (t : PowLog) (n : Nat) : Prop where
  next : t.x = (power n).toNat
  size : t.pow.length = 256 ∧ t.log.length = 256
  pow : ∀ i < n, t.pow.getD i 0 = (power i).toNat
  log : ∀ i < n, ∃ j < n, t.log.getD (power i).toNat 0 = j ∧ power j = power i

theorem getD_set_self {l : List Nat} {i : Nat} (inside : i < l.length) (value : Nat) :
    (l.set i value).getD i 0 = value := by
  rw [List.getD_eq_getElem?_getD, List.getElem?_set_self inside, Option.getD_some]

theorem getD_set_ne {l : List Nat} {i j : Nat} (apart : i ≠ j) (value : Nat) :
    (l.set i value).getD j 0 = l.getD j 0 := by
  rw [List.getD_eq_getElem?_getD, List.getElem?_set_ne apart, ← List.getD_eq_getElem?_getD]

theorem powers_step {t : PowLog} {n : Nat} (before : Powers t n) (inside : n < 256) :
    Powers (powLogStep t n) (n + 1) where
  next := by
    rw [powLogStep, before.next, next_eq, power_succ]
  size := by
    rw [powLogStep, List.length_set, List.length_set]
    exact before.size
  pow i below := by
    rw [powLogStep]
    by_cases newest : i = n
    · subst newest
      rw [getD_set_self (by rw [before.size.1]; exact inside), before.next]
    · rw [getD_set_ne (Ne.symm newest), before.pow i (by omega)]
  log i below := by
    rw [powLogStep]
    dsimp only
    rw [before.next]
    by_cases again : power i = power n
    · refine ⟨n, Nat.lt_succ_self n, ?_, again.symm⟩
      rw [again, getD_set_self (by rw [before.size.2]; exact (power n).isLt)]
    · have earlier : i < n := by
        rcases Nat.lt_succ_iff_lt_or_eq.mp below with less | same
        · exact less
        · exact absurd (congrArg power same) again
      obtain ⟨j, less, found, same⟩ := before.log i earlier
      refine ⟨j, by omega, ?_, same⟩
      rw [getD_set_ne fun equal => again (BitVec.eq_of_toNat_eq equal).symm, found]

theorem powers_run {n : Nat} (inside : n ≤ 256) :
    Powers ((List.range n).foldl powLogStep ⟨List.replicate 256 0, List.replicate 256 0, 1⟩) n := by
  induction n with
  | zero => exact ⟨rfl, ⟨List.length_replicate, List.length_replicate⟩, fun i below => absurd below (Nat.not_lt_zero i),
      fun i below => absurd below (Nat.not_lt_zero i)⟩
  | succ n ih =>
    rw [List.range_succ, List.foldl_append, List.foldl_cons, List.foldl_nil]
    exact powers_step (ih (by omega)) (by omega)

theorem pow_eq {i : Nat} (inside : i < 256) : powLog.pow.getD i 0 = (power i).toNat :=
  (powers_run (Nat.le_refl 256)).pow i inside

/-- `log` has an exponent of every element but zero. -/
theorem log_eq {b : Byte} (given : b ≠ 0) :
    ∃ j ≤ 255, powLog.log.getD b.toNat 0 = j ∧ power j = b := by
  obtain ⟨n, below, rfl⟩ := exists_power given
  obtain ⟨j, less, found, same⟩ := (powers_run (Nat.le_refl 256)).log n (by omega)
  exact ⟨j, by omega, found, same⟩

theorem toNat_ne_zero {b : Byte} : b.toNat ≠ 0 ↔ b ≠ 0 := by
  rw [not_iff_not]
  exact ⟨fun zero => BitVec.eq_of_toNat_eq zero, fun zero => congrArg BitVec.toNat zero⟩

/-- The macro `MUL` multiplies. -/
theorem MUL_eq (a b : Byte) : MUL a.toNat b.toNat = (mul a b).toNat := by
  unfold MUL
  by_cases first : a = 0
  · rw [if_neg (by simp [first]), first, zero_times]
    rfl
  · by_cases second : b = 0
    · rw [if_neg (by simp [second]), second, times_zero]
      rfl
    · obtain ⟨m, -, found, rfl⟩ := log_eq first
      obtain ⟨n, -, found', rfl⟩ := log_eq second
      rw [if_pos ⟨toNat_ne_zero.mpr first, toNat_ne_zero.mpr second⟩, found, found',
        pow_eq (Nat.lt_trans (Nat.mod_lt _ (by decide)) (by decide)), power_mod, power_add]

end logarithms

section boxes

/-- What the loop of the S-boxes writes. -/
theorem boxes_value {b : Byte} (given : b ≠ 0) :
    affine (powLog.pow.getD (255 - powLog.log.getD b.toNat 0) 0) = (sbox b).toNat := by
  obtain ⟨j, inside, found, rfl⟩ := log_eq given
  rw [found, pow_eq (by omega), affine_eq, sbox, inverse_power inside]

/-- The two boxes are inverse to each other up to index `n`. -/
structure Boxed (t : List Nat × List Nat) (n : Nat) : Prop where
  size : t.1.length = 256 ∧ t.2.length = 256
  forward : ∀ b : Byte, b.toNat ≤ n → t.1.getD b.toNat 0 = (sbox b).toNat
  reverse : ∀ b : Byte, b.toNat ≤ n → t.2.getD (sbox b).toNat 0 = b.toNat

theorem boxed_zero : Boxed ((List.replicate 256 0).set 0x00 0x63,
    (List.replicate 256 0).set 0x63 0x00) 0 := by
  have zero : ∀ b : Byte, b.toNat ≤ 0 → b = 0 := fun b below =>
    BitVec.eq_of_toNat_eq (Nat.le_zero.mp below)
  have image : sbox 0 = 0x63 := by
    rw [sbox, inverse_zero]
    decide
  have size : (List.replicate 256 0).length = 256 := List.length_replicate
  refine ⟨⟨List.length_set.trans size, List.length_set.trans size⟩, ?_, ?_⟩
  · intro b below
    rw [zero b below, image]
    exact getD_set_self (by rw [size]; decide) _
  · intro b below
    rw [zero b below, image]
    exact getD_set_self (by rw [size]; decide) _

theorem boxed_step {t : List Nat × List Nat} {n : Nat} (before : Boxed t n) (inside : n + 1 < 256) :
    Boxed (boxesStep t (n + 1)) (n + 1) := by
  have index : (BitVec.ofNat 8 (n + 1)).toNat = n + 1 := by
    rw [BitVec.toNat_ofNat]
    exact Nat.mod_eq_of_lt inside
  have given : (BitVec.ofNat 8 (n + 1) : Byte) ≠ 0 := toNat_ne_zero.mp (by rw [index]; simp)
  have value := boxes_value given
  rw [index] at value
  have newest : ∀ b : Byte, b.toNat ≤ n + 1 → ¬ b.toNat ≤ n → b = BitVec.ofNat 8 (n + 1) := by
    intro b below above
    apply BitVec.eq_of_toNat_eq
    rw [index]
    omega
  unfold boxesStep
  dsimp only
  rw [value]
  refine ⟨by rw [List.length_set, List.length_set]; exact before.size, ?_, ?_⟩
  · intro b below
    by_cases earlier : b.toNat ≤ n
    · rw [getD_set_ne (by omega), before.forward b earlier]
    · rw [newest b below earlier, index, getD_set_self (by rw [before.size.1]; exact inside)]
  · intro b below
    by_cases earlier : b.toNat ≤ n
    · have apart : sbox (BitVec.ofNat 8 (n + 1)) ≠ sbox b := by
        intro same
        have equal := congrArg BitVec.toNat (sbox_injective same)
        rw [index] at equal
        omega
      rw [getD_set_ne fun equal => apart (BitVec.eq_of_toNat_eq equal), before.reverse b earlier]
    · rw [newest b below earlier, index, getD_set_self (by rw [before.size.2]; exact BitVec.isLt _)]

theorem boxed_run {n : Nat} (inside : n < 256) :
    Boxed ((List.range' 1 n).foldl boxesStep ((List.replicate 256 0).set 0x00 0x63,
      (List.replicate 256 0).set 0x63 0x00)) n := by
  induction n with
  | zero => exact boxed_zero
  | succ n ih =>
    rw [List.range'_1_concat, List.foldl_append, List.foldl_cons, List.foldl_nil, Nat.add_comm 1 n]
    exact boxed_step (ih (by omega)) inside

theorem FSb_eq (b : Byte) : FSb.getD b.toNat 0 = (sbox b).toNat :=
  (boxed_run (by decide : 255 < 256)).forward b (Nat.le_of_lt_succ b.isLt)

theorem RSb_sbox (b : Byte) : RSb.getD (sbox b).toNat 0 = b.toNat :=
  (boxed_run (by decide : 255 < 256)).reverse b (Nat.le_of_lt_succ b.isLt)

/-- The reverse S-box. -/
def unbox (b : Byte) : Byte := BitVec.ofNat 8 (RSb.getD b.toNat 0)

theorem unbox_sbox (b : Byte) : unbox (sbox b) = b := by
  rw [unbox, RSb_sbox, BitVec.ofNat_toNat, BitVec.setWidth_eq]

theorem RSb_eq (b : Byte) : RSb.getD b.toNat 0 = (unbox b).toNat := by
  obtain ⟨a, rfl⟩ := Finite.injective_iff_surjective.mp sbox_injective b
  rw [unbox_sbox, RSb_sbox]

end boxes

section words

/-- An octet of a word, the lowest first. -/
def byteAt (w : Word) (k : Fin 4) : Byte := w.extractLsb' (8 * k) 8

theorem octet_eq (w : Word) (n : Nat) (k : Fin 4) (place : n = k) :
    octet w n = (byteAt w k).toNat := by
  subst place
  have mask : (0xFF : Word).toNat = 2 ^ 8 - 1 := rfl
  rw [octet, byteAt, BitVec.toNat_and, mask, Nat.and_two_pow_sub_one_eq_mod,
    BitVec.toNat_ushiftRight, BitVec.extractLsb'_toNat]

theorem byteAt_xor (a b : Word) (k : Fin 4) : byteAt (a ^^^ b) k = byteAt a k ^^^ byteAt b k :=
  BitVec.extractLsb'_xor

theorem byteAt_shifted (b : Byte) (n : Nat) (j k : Fin 4) (shifted : n = 8 * (j : Nat)) :
    byteAt (BitVec.ofNat 32 b.toNat <<< n) k = if k = j then b else 0 := by
  subst shifted
  have placed : (j : Nat) < 4 := j.isLt
  have read : (k : Nat) < 4 := k.isLt
  apply BitVec.eq_of_getLsbD_eq
  intro i below
  rw [byteAt, BitVec.getLsbD_extractLsb', BitVec.getLsbD_shiftLeft, BitVec.getLsbD_ofNat]
  split
  next same =>
    subst same
    have offset : 8 * (k : Nat) + i - 8 * k = i := by omega
    have inside : 8 * (k : Nat) + i < 32 := by omega
    have narrow : i < 32 := by omega
    simp only [offset, inside, narrow, below, BitVec.testBit_toNat, decide_true, Bool.true_and]
    simp
  next apart =>
    have different : (k : Nat) ≠ j := fun same => apart (Fin.ext same)
    have beyond : 8 * (k : Nat) + i < 8 * j ∨ b.toNat.testBit (8 * k + i - 8 * j) = false := by
      by_cases less : 8 * (k : Nat) + i < 8 * j
      · exact .inl less
      · refine .inr (Nat.testBit_lt_two_pow (Nat.lt_of_lt_of_le b.isLt ?_))
        exact Nat.pow_le_pow_right (by decide) (by omega)
    rcases beyond with less | zero
    · simp [less]
    · simp [zero]

theorem getLsbD_rotl8 (w : Word) {n : Nat} (below : n < 32) :
    (ROTL8 w).getLsbD n = w.getLsbD ((n + 24) % 32) := by
  have ones : (0xFFFFFFFF : Word) = BitVec.allOnes 32 := rfl
  rw [ROTL8, ones, BitVec.and_allOnes, BitVec.getLsbD_or, BitVec.getLsbD_shiftLeft,
    BitVec.getLsbD_ushiftRight]
  by_cases low : n < 8
  · have wrapped : (n + 24) % 32 = 24 + n := by omega
    simp [low, wrapped]
  · have wrapped : (n + 24) % 32 = n - 8 := by omega
    have beyond : w.getLsbD (24 + n) = false := BitVec.getLsbD_of_ge _ _ (by omega)
    simp [low, below, wrapped, beyond]

theorem byteAt_rotl8 (w : Word) (k : Fin 4) : byteAt (ROTL8 w) k = byteAt w (k + 3) := by
  apply BitVec.eq_of_getLsbD_eq
  intro i below
  have inside : 8 * (k : Nat) + i < 32 := by omega
  have place : (8 * (k : Nat) + i + 24) % 32 = 8 * ((k + 3 : Fin 4) : Nat) + i := by
    rw [Fin.val_add]
    have three : ((3 : Fin 4) : Nat) = 3 := rfl
    omega
  rw [byteAt, byteAt, BitVec.getLsbD_extractLsb', BitVec.getLsbD_extractLsb',
    getLsbD_rotl8 w inside, place]

theorem byteAt_assembled (b : Fin 4 → Byte) (k : Fin 4) :
    byteAt (assembled (b 0).toNat (b 1).toNat (b 2).toNat (b 3).toNat) k = b k := by
  have unshifted : BitVec.ofNat 32 (b 0).toNat = BitVec.ofNat 32 (b 0).toNat <<< 0 :=
    (BitVec.shiftLeft_zero _).symm
  rw [assembled, byteAt_xor, byteAt_xor, byteAt_xor, unshifted, byteAt_shifted (b 0) 0 0 k rfl,
    byteAt_shifted (b 1) 8 1 k rfl, byteAt_shifted (b 2) 16 2 k rfl, byteAt_shifted (b 3) 24 3 k rfl]
  fin_cases k <;> simp

end words

section roundTables

/-- A column of the matrix of a round, and of its inverse. -/
def mixed : Fin 4 → Byte := ![2, 1, 1, 3]

def unmixed : Fin 4 → Byte := ![14, 9, 13, 11]

theorem getD_range {α : Type} (f : Nat → α) (default : α) (b : Byte) :
    ((List.range 256).map f).getD b.toNat default = f b.toNat := by
  have inside : b.toNat < 256 := b.isLt
  rw [List.getD_eq_getElem?_getD, List.getElem?_map, List.getElem?_range inside]
  rfl

theorem rotl8_getD (table : List Word) (i : Nat) :
    (table.map ROTL8).getD i 0 = ROTL8 (table.getD i 0) := by
  have zero : ROTL8 0 = 0 := rfl
  conv_lhs => rw [← zero, List.getD_map]

theorem byteAt_FT0 (b : Byte) (k : Fin 4) :
    byteAt (FT0.getD b.toNat 0) k = mul (mixed k) (sbox b) := by
  have double : XTIME (sbox b).toNat &&& 0xFF = (xtime (sbox b)).toNat := XTIME_eq _
  have triple : ((xtime (sbox b)).toNat ^^^ (sbox b).toNat) &&& 0xFF =
      (sbox b ^^^ xtime (sbox b)).toNat := by
    rw [← BitVec.toNat_xor, BitVec.xor_comm]
    exact (Nat.and_two_pow_sub_one_eq_mod _ 8).trans (Nat.mod_eq_of_lt (BitVec.isLt _))
  rw [FT0, getD_range]
  dsimp only
  rw [FSb_eq, double, triple]
  refine (byteAt_assembled ![xtime (sbox b), sbox b, sbox b, sbox b ^^^ xtime (sbox b)] k).trans ?_
  fin_cases k
  · exact (two_times _).symm
  · exact (one_times _).symm
  · exact (one_times _).symm
  · exact (three_times _).symm

theorem byteAt_RT0 (b : Byte) (k : Fin 4) :
    byteAt (RT0.getD b.toNat 0) k = mul (unmixed k) (unbox b) := by
  rw [RT0, getD_range]
  dsimp only
  rw [RSb_eq]
  have products : assembled (MUL 0x0E (unbox b).toNat) (MUL 0x09 (unbox b).toNat)
      (MUL 0x0D (unbox b).toNat) (MUL 0x0B (unbox b).toNat) =
        assembled (mul 0x0E (unbox b)).toNat (mul 0x09 (unbox b)).toNat
          (mul 0x0D (unbox b)).toNat (mul 0x0B (unbox b)).toNat := by
    rw [← MUL_eq, ← MUL_eq, ← MUL_eq, ← MUL_eq]
    rfl
  rw [products]
  refine (byteAt_assembled ![mul 0x0E (unbox b), mul 0x09 (unbox b), mul 0x0D (unbox b),
    mul 0x0B (unbox b)] k).trans ?_
  fin_cases k <;> rfl

theorem byteAt_FT1 (b : Byte) (k : Fin 4) :
    byteAt (FT1.getD b.toNat 0) k = mul (mixed (k + 3)) (sbox b) := by
  rw [FT1, rotl8_getD, byteAt_rotl8, byteAt_FT0]

theorem byteAt_FT2 (b : Byte) (k : Fin 4) :
    byteAt (FT2.getD b.toNat 0) k = mul (mixed (k + 2)) (sbox b) := by
  rw [FT2, rotl8_getD, byteAt_rotl8, byteAt_FT1, add_assoc]
  rfl

theorem byteAt_FT3 (b : Byte) (k : Fin 4) :
    byteAt (FT3.getD b.toNat 0) k = mul (mixed (k + 1)) (sbox b) := by
  rw [FT3, rotl8_getD, byteAt_rotl8, byteAt_FT2, add_assoc]
  rfl

theorem byteAt_RT1 (b : Byte) (k : Fin 4) :
    byteAt (RT1.getD b.toNat 0) k = mul (unmixed (k + 3)) (unbox b) := by
  rw [RT1, rotl8_getD, byteAt_rotl8, byteAt_RT0]

theorem byteAt_RT2 (b : Byte) (k : Fin 4) :
    byteAt (RT2.getD b.toNat 0) k = mul (unmixed (k + 2)) (unbox b) := by
  rw [RT2, rotl8_getD, byteAt_rotl8, byteAt_RT1, add_assoc]
  rfl

theorem byteAt_RT3 (b : Byte) (k : Fin 4) :
    byteAt (RT3.getD b.toNat 0) k = mul (unmixed (k + 1)) (unbox b) := by
  rw [RT3, rotl8_getD, byteAt_rotl8, byteAt_RT2, add_assoc]
  rfl

end roundTables

end BlmLink.Guarantees.AesTables
