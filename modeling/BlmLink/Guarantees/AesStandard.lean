import Mathlib
import BlmLink.Guarantees.AesRounds

/-!
# The block cipher and the standard

polarssl/library/aes.c:443-632 and 634-770. The standard's key expansion makes one column after
another (`keyColumn`), and its cipher substitutes the octets, shifts the rows, mixes the columns
and adds the round key, one after another (`cipher`). The code expands four, six or eight words
at a time and has tables for the rest, and encrypts to the same octets (`encrypts_cipher`).
-/
namespace BlmLink.Guarantees.AesStandard

open BlmLink.Lib.ByteField BlmLink.Lib.KeyedRounds BlmLink.Source BlmLink.Guarantees.AesTables
open BlmLink.Guarantees.AesRounds

abbrev Column := Fin 4 → Byte

section standard

def subWord (column : Column) : Column := fun k => sbox (column k)

def rotWord (column : Column) : Column := fun k => column (finRotate 4 k)

/-- The round constant `i`, from one on. -/
def rcon (i : Nat) : Column := fun k => if k.val = 0 then xtime^[i - 1] 1 else 0

def addWords (a b : Column) : Column := fun k => a k ^^^ b k

/-- The key expansion: column `i` for a key of `Nk` columns. -/
def keyColumn (key : Bytes) (Nk i : Nat) : Column :=
  if i < Nk ∨ Nk = 0 then fun r => key.getD (4 * i + (r : Nat)) 0
  else
    let temp := keyColumn key Nk (i - 1)
    addWords (keyColumn key Nk (i - Nk))
      (if i % Nk = 0 then addWords (subWord (rotWord temp)) (rcon (i / Nk))
      else if 6 < Nk ∧ i % Nk = 4 then subWord temp
      else temp)
termination_by i

def subBytes (s : State) : State := fun r c => sbox (s r c)

def shiftRows (s : State) : State := fun r c => s r (c + r)

/-- In each column, an octet and the three below it, which go around. -/
def mixColumns (s : State) : State := fun r c =>
  let r₁ := finRotate 4 r
  let r₂ := finRotate 4 r₁
  let r₃ := finRotate 4 r₂
  mul 2 (s r c) ^^^ mul 3 (s r₁ c) ^^^ s r₂ c ^^^ s r₃ c

def addRoundKey (s k : State) : State := fun r c => s r c ^^^ k r c

def roundKey (key : Bytes) (Nk round : Nat) : State := fun r c => keyColumn key Nk (4 * round + c) r

/-- The cipher with `Nr` rounds. -/
def cipher (Nr : Nat) (key : Nat → State) (input : State) : State :=
  let s := addRoundKey input (key 0)
  let s := (List.range' 1 (Nr - 1)).foldl
    (fun s round => addRoundKey (mixColumns (shiftRows (subBytes s))) (key round)) s
  addRoundKey (shiftRows (subBytes s)) (key Nr)

/-- The octets of a state, column by column. -/
def octets (s : State) : Bytes := (List.finRange 4).flatMap fun c => (List.finRange 4).map fun r => s r c

end standard

section rounds

theorem mixColumns_eq (s : State) : mixColumns s = layers.mix s := by
  funext r c
  change _ = combined mixed (fun k => s k c) r
  rw [mixColumns, combined_eq]
  simp only [finRotate_apply]
  fin_cases r <;>
    simp only [mixed, Matrix.cons_val, BitVec.ofNat_eq_ofNat, one_times, Fin.isValue,
      Fin.reduceFinMk, Fin.reduceAdd] <;>
    ac_rfl

theorem roundKeys_eq (RK : List Word) (key : Nat → State) (n first : Nat)
    (keys : ∀ i, i < n → keyState (RK.drop (4 * i)) = key (first + i)) :
    roundKeys n RK = (List.range' first n).map key := by
  induction n generalizing RK first with
  | zero => rfl
  | succ n ih =>
    rw [roundKeys, List.range'_succ, List.map_cons, ih (RK.drop 4) (first + 1)]
    · congr 1
      exact keys 0 (by omega)
    · intro i below
      have here := keys (i + 1) (by omega)
      rw [List.drop_drop, show 4 + 4 * i = 4 * (i + 1) by omega, here]
      congr 1
      omega

/-- With the round keys in the words, the tables compute the cipher. -/
theorem encrypt_cipher (ctx : AesContext) (m : Nat) (even : ctx.nr = 2 * m + 2)
    (key : Nat → State) (keys : ∀ i ≤ ctx.nr, keyState (ctx.rk.drop (4 * i)) = key i)
    (input : Bytes) :
    blockState (aes_crypt_ecb ctx .AES_ENCRYPT input) = cipher ctx.nr key (blockState input) := by
  have first := keys 0 (by omega)
  have middle := roundKeys_eq (ctx.rk.drop 4) key (ctx.nr - 1) 1 fun i below => by
    have here := keys (1 + i) (by omega)
    rw [List.drop_drop, show 4 + 4 * i = 4 * (1 + i) by omega, here]
  have final := keys ctx.nr le_rfl
  rw [List.drop_zero] at first
  rw [encrypt_eq ctx m even, encrypt, first, middle, final, List.foldl_map, cipher]
  simp only [mixColumns_eq]
  rfl

end rounds

section expansion

variable {key : Bytes} {Nk n : Nat} {a b : Word}

/-- A word that is column `n` of the expanded key. -/
def Matches (key : Bytes) (Nk n : Nat) (w : Word) : Prop := byteAt w = keyColumn key Nk n

theorem byteAt_add (a b : Word) : byteAt (a ^^^ b) = addWords (byteAt a) (byteAt b) := by
  funext k
  exact byteAt_xor a b k

theorem keyColumn_next (behind : Nk ≤ n) (positive : 0 < Nk) (old : Matches key Nk (n - Nk) a)
    (last : Matches key Nk (n - 1) b) :
    keyColumn key Nk n = addWords (byteAt a) (if n % Nk = 0 then
      addWords (subWord (rotWord (byteAt b))) (rcon (n / Nk))
      else if 6 < Nk ∧ n % Nk = 4 then subWord (byteAt b) else byteAt b) := by
  rw [Matches] at old last
  rw [keyColumn, if_neg (by omega), ← old, ← last]

/-- Where `n` is in its group of `Nk` columns. -/
theorem place (Nk i t : Nat) (below : t < Nk) :
    (Nk * i + Nk + t) % Nk = t ∧ Nk * i + Nk + t - Nk = Nk * i + t := by
  refine ⟨?_, by omega⟩
  rw [← Nat.mul_succ, Nat.mul_add_mod, Nat.mod_eq_of_lt below]

theorem matches_plain {i : Nat} (t : Nat) (range : 1 ≤ t ∧ t < Nk) (plain : ¬ (6 < Nk ∧ t = 4))
    (old : Matches key Nk (Nk * i + t) a) (last : Matches key Nk (Nk * i + Nk + t - 1) b) :
    Matches key Nk (Nk * i + Nk + t) (a ^^^ b) := by
  obtain ⟨rest, above⟩ := place Nk i t range.2
  rw [← above] at old
  rw [Matches, keyColumn_next (by omega) (by omega) old last, rest, if_neg (by omega), if_neg plain,
    byteAt_add]

theorem byteAt_rcon {i : Nat} (inside : i < 10) : byteAt (RCON.getD i 0) = rcon (i + 1) := by
  have listed : ∀ i < 10, ∀ k, byteAt (RCON.getD i 0) k = rcon (i + 1) k := by decide +kernel
  funext k
  exact listed i inside k

theorem byteAt_boxed_columns (w : Word) :
    byteAt (boxed FSb (octet w 0) (octet w 1) (octet w 2) (octet w 3)) = subWord (byteAt w) := by
  funext k
  rw [octet_eq _ 0 0 rfl, octet_eq _ 1 1 rfl, octet_eq _ 2 2 rfl, octet_eq _ 3 3 rfl]
  exact byteAt_boxed FSb sbox FSb_eq (byteAt w) k

theorem byteAt_rotatedBoxed (w : Word) :
    byteAt (rotatedBoxed w) = subWord (rotWord (byteAt w)) := by
  funext k
  rw [rotatedBoxed, octet_eq _ 0 0 rfl, octet_eq _ 1 1 rfl, octet_eq _ 2 2 rfl, octet_eq _ 3 3 rfl]
  exact byteAt_boxed FSb sbox FSb_eq (fun k => byteAt w (finRotate 4 k)) k

theorem matches_rotated {i : Nat} (inside : i < 10) (positive : 0 < Nk)
    (old : Matches key Nk (Nk * i) a) (last : Matches key Nk (Nk * i + Nk - 1) b) :
    Matches key Nk (Nk * i + Nk) (a ^^^ RCON.getD i 0 ^^^ rotatedBoxed b) := by
  obtain ⟨rest, above⟩ := place Nk i 0 positive
  simp only [add_zero] at rest above
  have count : (Nk * i + Nk) / Nk = i + 1 := by
    rw [← Nat.mul_succ, Nat.mul_div_cancel_left _ positive]
  rw [← above] at old
  rw [Matches, keyColumn_next (by omega) positive old last, rest, if_pos rfl, count,
    BitVec.xor_assoc, BitVec.xor_comm (RCON.getD i 0), byteAt_add, byteAt_add, byteAt_rotatedBoxed,
    byteAt_rcon inside]

theorem matches_boxed {i : Nat} (long : 6 < Nk) (old : Matches key Nk (Nk * i + 4) a)
    (last : Matches key Nk (Nk * i + Nk + 4 - 1) b) :
    Matches key Nk (Nk * i + Nk + 4)
      (a ^^^ boxed FSb (octet b 0) (octet b 1) (octet b 2) (octet b 3)) := by
  obtain ⟨rest, above⟩ := place Nk i 4 (by omega)
  rw [← above] at old
  rw [Matches, keyColumn_next (by omega) (by omega) old last, rest, if_neg (by omega),
    if_pos ⟨long, rfl⟩, byteAt_add, byteAt_boxed_columns]

/-- The words that are set are columns of the expanded key. -/
def Expanded (key : Bytes) (Nk : Nat) (rk : List Word) : Prop :=
  ∀ n < rk.length, Matches key Nk n (rk.getD n 0)

theorem expanded_append {rk more : List Word} (before : Expanded key Nk rk)
    (added : ∀ t < more.length, Matches key Nk (rk.length + t) (more.getD t 0)) :
    Expanded key Nk (rk ++ more) := by
  intro n below
  by_cases old : n < rk.length
  · rw [List.getD_append _ _ _ _ old]
    exact before n old
  · rw [List.length_append] at below
    have here := added (n - rk.length) (by omega)
    rw [List.getD_append_right _ _ _ _ (by omega)]
    rwa [show rk.length + (n - rk.length) = n by omega] at here

theorem expanded_128 {rk : List Word} {i : Nat} (inside : i < 10)
    (size : rk.length = 4 * (i + 1)) (before : Expanded key 4 rk) :
    Expanded key 4 (expand128 rk i) := by
  have old (t : Nat) (below : t < 4) : Matches key 4 (4 * i + t) (rk.getD (4 * i + t) 0) :=
    before _ (by omega)
  have m4 := matches_rotated inside (by decide) (old 0 (by decide)) (old 3 (by decide))
  have m5 := matches_plain 1 (by decide) (by decide) (old 1 (by decide)) m4
  have m6 := matches_plain 2 (by decide) (by decide) (old 2 (by decide)) m5
  have m7 := matches_plain 3 (by decide) (by decide) (old 3 (by decide)) m6
  apply expanded_append before
  intro t below
  change t < 4 at below
  rw [size]
  interval_cases t
  · exact m4
  · exact m5
  · exact m6
  · exact m7

theorem expanded_192 {rk : List Word} {i : Nat} (inside : i < 10)
    (size : rk.length = 6 * (i + 1)) (before : Expanded key 6 rk) :
    Expanded key 6 (expand192 rk i) := by
  have old (t : Nat) (below : t < 6) : Matches key 6 (6 * i + t) (rk.getD (6 * i + t) 0) :=
    before _ (by omega)
  have m6 := matches_rotated inside (by decide) (old 0 (by decide)) (old 5 (by decide))
  have m7 := matches_plain 1 (by decide) (by decide) (old 1 (by decide)) m6
  have m8 := matches_plain 2 (by decide) (by decide) (old 2 (by decide)) m7
  have m9 := matches_plain 3 (by decide) (by decide) (old 3 (by decide)) m8
  have m10 := matches_plain 4 (by decide) (by decide) (old 4 (by decide)) m9
  have m11 := matches_plain 5 (by decide) (by decide) (old 5 (by decide)) m10
  apply expanded_append before
  intro t below
  change t < 6 at below
  rw [size]
  interval_cases t
  · exact m6
  · exact m7
  · exact m8
  · exact m9
  · exact m10
  · exact m11

theorem expanded_256 {rk : List Word} {i : Nat} (inside : i < 10)
    (size : rk.length = 8 * (i + 1)) (before : Expanded key 8 rk) :
    Expanded key 8 (expand256 rk i) := by
  have old (t : Nat) (below : t < 8) : Matches key 8 (8 * i + t) (rk.getD (8 * i + t) 0) :=
    before _ (by omega)
  have m8 := matches_rotated inside (by decide) (old 0 (by decide)) (old 7 (by decide))
  have m9 := matches_plain 1 (by decide) (by decide) (old 1 (by decide)) m8
  have m10 := matches_plain 2 (by decide) (by decide) (old 2 (by decide)) m9
  have m11 := matches_plain 3 (by decide) (by decide) (old 3 (by decide)) m10
  have m12 := matches_boxed (by decide) (old 4 (by decide)) m11
  have m13 := matches_plain 5 (by decide) (by decide) (old 5 (by decide)) m12
  have m14 := matches_plain 6 (by decide) (by decide) (old 6 (by decide)) m13
  have m15 := matches_plain 7 (by decide) (by decide) (old 7 (by decide)) m14
  apply expanded_append before
  intro t below
  change t < 8 at below
  rw [size]
  interval_cases t
  · exact m8
  · exact m9
  · exact m10
  · exact m11
  · exact m12
  · exact m13
  · exact m14
  · exact m15

theorem expanded_words (key : Bytes) (Nk : Nat) :
    Expanded key Nk ((List.range Nk).map fun i => leWord (key.drop (4 * i))) := by
  intro n below
  rw [List.length_map, List.length_range] at below
  funext r
  rw [keyColumn, if_pos (.inl below), List.getD_eq_getElem?_getD, List.getElem?_map,
    List.getElem?_range below, Option.map_some, Option.getD_some, byteAt_leWord,
    List.getD_eq_getElem?_getD, List.getElem?_drop, List.getD_eq_getElem?_getD]

/-- The loop of `aes_setkey_enc`: each iteration appends the next `Nk` columns. -/
theorem expanded_loop (expand : List Word → Nat → List Word)
    (grows : ∀ rk i, (expand rk i).length = rk.length + Nk)
    (step : ∀ rk i, i < 10 → rk.length = Nk * (i + 1) → Expanded key Nk rk →
      Expanded key Nk (expand rk i)) {count : Nat} (few : count ≤ 10) :
    Expanded key Nk ((List.range count).foldl expand
      ((List.range Nk).map fun i => leWord (key.drop (4 * i)))) := by
  induction count with
  | zero => exact expanded_words key Nk
  | succ count ih =>
    rw [List.range_succ, List.foldl_append, List.foldl_cons, List.foldl_nil]
    refine step _ count (by omega) ?_ (ih (by omega))
    rw [length_foldl_expand expand Nk grows, List.length_map, List.length_range, List.length_range]
    ring

/-- The words of the context are the standard's columns, for as many rounds. -/
theorem setkey_enc_expanded (key : Bytes) {Nk : Nat} (size : Nk = 4 ∨ Nk = 6 ∨ Nk = 8) :
    ∃ ctx, aes_setkey_enc key (32 * Nk) = some ctx ∧ ctx.nr = Nk + 6 ∧ Expanded key Nk ctx.rk := by
  rcases size with rfl | rfl | rfl
  · exact ⟨_, rfl, rfl, expanded_loop expand128 (fun _ _ => by simp [expand128])
      (fun _ _ => expanded_128) (by decide)⟩
  · exact ⟨_, rfl, rfl, expanded_loop expand192 (fun _ _ => by simp [expand192])
      (fun _ _ => expanded_192) (by decide)⟩
  · exact ⟨_, rfl, rfl, expanded_loop expand256 (fun _ _ => by simp [expand256])
      (fun _ _ => expanded_256) (by decide)⟩

theorem keyState_expanded {rk : List Word} (columns : Expanded key Nk rk) {i : Nat}
    (inside : 4 * (i + 1) ≤ rk.length) : keyState (rk.drop (4 * i)) = roundKey key Nk i := by
  funext r c
  have column : Matches key Nk (4 * i + c) (rk.getD (4 * i + c) 0) := columns _ (by omega)
  rw [roundKey, ← column, keyState, List.getD_eq_getElem?_getD, List.getElem?_drop,
    List.getD_eq_getElem?_getD]

theorem octets_blockState {bs : Bytes} (whole : bs.length = 16) : octets (blockState bs) = bs := by
  apply blockState_injective rfl whole
  funext r c
  fin_cases c <;> fin_cases r <;> rfl

/-- For keys of four, six and eight columns `aes_setkey_enc` and `aes_crypt_ecb` compute the
standard's cipher, with ten, twelve and fourteen rounds. -/
theorem encrypts_cipher (key : Bytes) (Nk : Nat) (size : Nk = 4 ∨ Nk = 6 ∨ Nk = 8) :
    ∃ ctx, aes_setkey_enc key (32 * Nk) = some ctx ∧ ∀ input,
      aes_crypt_ecb ctx .AES_ENCRYPT input =
        octets (cipher (Nk + 6) (roundKey key Nk) (blockState input)) := by
  obtain ⟨ctx, set, rounds, columns⟩ := setkey_enc_expanded key size
  obtain ⟨⟨m, even⟩, enough⟩ := setkey_enc_sound set
  refine ⟨ctx, set, fun input => ?_⟩
  have keys (i : Nat) (below : i ≤ ctx.nr) : keyState (ctx.rk.drop (4 * i)) = roundKey key Nk i :=
    keyState_expanded columns (by omega)
  rw [← rounds, ← encrypt_cipher ctx m even _ keys, octets_blockState (length_crypt _ _ _)]

theorem encrypts_cipher_sample :
    ∃ ctx, aes_setkey_enc (List.replicate 24 0x2b) 192 = some ctx ∧ ∀ input,
      aes_crypt_ecb ctx .AES_ENCRYPT input =
        octets (cipher 12 (roundKey (List.replicate 24 0x2b) 6) (blockState input)) :=
  encrypts_cipher (List.replicate 24 0x2b) 6 (.inr (.inl rfl))

end expansion

end BlmLink.Guarantees.AesStandard
