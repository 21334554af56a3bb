import Mathlib
import BlmLink.Lib.KeyedRounds
import BlmLink.Guarantees.AesTables
import BlmLink.Source.Aes128Cipher

/-!
# The rounds of the block cipher

polarssl/library/aes.c:447-770. The state is an octet for each row and column, the columns the
words of the code. A round of the code with its tables is the substitution of the octets, the
shift of the rows, the product of each column with a matrix and the sum with a round key
(`forward_round`); the reverse tables do the inverse of each (`reverse_round`), and the keys of
`aes_setkey_dec` are those of `aes_setkey_enc` in the reverse order, those between the ends times
the inverse matrix. So decryption inverts encryption for keys of every size (`block_restored`).
-/
namespace BlmLink.Guarantees.AesRounds

open BlmLink.Lib.ByteField BlmLink.Lib.KeyedRounds BlmLink.Source BlmLink.Guarantees.AesTables

/-- An octet for each row and column. -/
abbrev State := Fin 4 → Fin 4 → Byte

section columns

/-- A column times the matrix with `coeff` as its first column, which is rotated for the others. -/
def combined (coeff column : Fin 4 → Byte) (r : Fin 4) : Byte :=
  (List.finRange 4).foldr (fun k sum => mul (coeff (r - k)) (column k) ^^^ sum) 0

theorem columns_back : ∀ c : Fin 4, c - 1 = c + 3 ∧ c - 2 = c + 2 ∧ c - 3 = c + 1 := by
  decide

theorem combined_eq (coeff column : Fin 4 → Byte) (r : Fin 4) :
    combined coeff column r = mul (coeff r) (column 0) ^^^ mul (coeff (r + 3)) (column 1) ^^^
      mul (coeff (r + 2)) (column 2) ^^^ mul (coeff (r + 1)) (column 3) := by
  have rows : List.finRange 4 = [0, 1, 2, 3] := rfl
  rw [combined, rows, List.foldr_cons, List.foldr_cons, List.foldr_cons, List.foldr_cons,
    List.foldr_nil, sub_zero, (columns_back r).1, (columns_back r).2.1, (columns_back r).2.2]
  simp only [BitVec.ofNat_eq_ofNat, BitVec.xor_zero, BitVec.xor_assoc]

theorem combined_xor (coeff a b : Fin 4 → Byte) (r : Fin 4) :
    combined coeff (fun k => a k ^^^ b k) r = combined coeff a r ^^^ combined coeff b r := by
  simp only [combined_eq, mul_xor]
  ac_rfl

/-- A row of the inverse matrix times a column of the matrix, `d` apart. -/
theorem row_column (d : Fin 4) (b : Byte) :
    mul (unmixed d) (mul (mixed 0) b) ^^^ mul (unmixed (d + 3)) (mul (mixed 1) b) ^^^
      mul (unmixed (d + 2)) (mul (mixed 2) b) ^^^ mul (unmixed (d + 1)) (mul (mixed 3) b) =
        if d = 0 then b else 0 := by
  -- Every product is a sum of some of `b` to `x ^ 4 * b`, and these cancel bit by bit.
  fin_cases d
  all_goals
    simp only [unmixed, mixed, Matrix.cons_val, BitVec.ofNat_eq_ofNat, one_times, two_times,
      three_times, nine_times, eleven_times, thirteen_times, fourteen_times, xtime_xor, Fin.isValue,
      Fin.reduceFinMk, Fin.reduceAdd]
    generalize xtime (xtime (xtime (xtime b))) = b₄
    generalize xtime (xtime (xtime b)) = b₃
    generalize xtime (xtime b) = b₂
    generalize xtime b = b₁
    ext i below
    simp
    cases b[i] <;> cases b₁[i] <;> cases b₂[i] <;> cases b₃[i] <;> cases b₄[i] <;> rfl

theorem combined_unmixed_mixed (a : Fin 4 → Byte) (r : Fin 4) :
    combined unmixed (combined mixed a) r = a r := by
  have first := row_column r (a 0)
  have second := row_column (r + 3) (a 1)
  have third := row_column (r + 2) (a 2)
  have fourth := row_column (r + 1) (a 3)
  simp only [add_assoc, Fin.isValue, Fin.reduceAdd, add_zero] at second third fourth
  have whole : combined unmixed (combined mixed a) r =
      (mul (unmixed r) (mul (mixed 0) (a 0)) ^^^ mul (unmixed (r + 3)) (mul (mixed 1) (a 0)) ^^^
        mul (unmixed (r + 2)) (mul (mixed 2) (a 0)) ^^^ mul (unmixed (r + 1)) (mul (mixed 3) (a 0))) ^^^
      (mul (unmixed (r + 3)) (mul (mixed 0) (a 1)) ^^^ mul (unmixed (r + 2)) (mul (mixed 1) (a 1)) ^^^
        mul (unmixed (r + 1)) (mul (mixed 2) (a 1)) ^^^ mul (unmixed r) (mul (mixed 3) (a 1))) ^^^
      (mul (unmixed (r + 2)) (mul (mixed 0) (a 2)) ^^^ mul (unmixed (r + 1)) (mul (mixed 1) (a 2)) ^^^
        mul (unmixed r) (mul (mixed 2) (a 2)) ^^^ mul (unmixed (r + 3)) (mul (mixed 3) (a 2))) ^^^
      (mul (unmixed (r + 1)) (mul (mixed 0) (a 3)) ^^^ mul (unmixed r) (mul (mixed 1) (a 3)) ^^^
        mul (unmixed (r + 3)) (mul (mixed 2) (a 3)) ^^^
        mul (unmixed (r + 2)) (mul (mixed 3) (a 3))) := by
    simp only [combined_eq, mul_xor, Fin.isValue, Fin.reduceAdd, zero_add]
    ac_rfl
  rw [whole, first, second, third, fourth]
  fin_cases r <;> simp

end columns

section layers

/-- The layers of a round: `sub` substitutes the octets and shifts the rows. -/
def layers : Layers State where
  add s k r c := s r c ^^^ k r c
  sub s r c := sbox (s r (c + r))
  unsub s r c := unbox (s r (c - r))
  mix s r c := combined mixed (fun k => s k c) r
  unmix s r c := combined unmixed (fun k => s k c) r
  cancel x k := by
    funext r c
    rw [BitVec.xor_assoc, BitVec.xor_self, BitVec.xor_zero]
  unsub_sub x := by
    funext r c
    rw [unbox_sbox, sub_add_cancel]
  unmix_mix x := by
    funext r c
    exact combined_unmixed_mixed _ r
  unmix_add x y := by
    funext r c
    exact combined_xor unmixed _ _ r

/-- The state in four words. -/
def toState (X : Quad) : State := fun r c => byteAt (X.get c) r

/-- The round key at the front of the words. -/
def keyState (RK : List Word) : State := fun r c => byteAt (RK.getD c 0) r

theorem get_of (word : Fin 4 → Word) (j : Fin 4) : (Quad.of word).get j = word j := by
  fin_cases j <;> rfl

theorem forward_round (RK : List Word) (Y : Quad) :
    toState (AES_FROUND RK Y) = layers.round (toState Y) (keyState RK) := by
  funext r c
  change byteAt ((AES_FROUND RK Y).get c) r =
    combined mixed (fun k => sbox (byteAt (Y.get (c + k)) k)) r ^^^ byteAt (RK.getD c 0) r
  rw [AES_FROUND, get_of, octet_eq _ 0 0 rfl, octet_eq _ 1 1 rfl, octet_eq _ 2 2 rfl,
    octet_eq _ 3 3 rfl, byteAt_xor, byteAt_xor, byteAt_xor, byteAt_xor, byteAt_FT0, byteAt_FT1,
    byteAt_FT2, byteAt_FT3, combined_eq, add_zero]
  ac_rfl

theorem reverse_round (RK : List Word) (Y : Quad) :
    toState (AES_RROUND RK Y) = layers.add (layers.unmix (layers.unsub (toState Y))) (keyState RK) := by
  funext r c
  change byteAt ((AES_RROUND RK Y).get c) r =
    combined unmixed (fun k => unbox (byteAt (Y.get (c - k)) k)) r ^^^ byteAt (RK.getD c 0) r
  rw [AES_RROUND, get_of, octet_eq _ 0 0 rfl, octet_eq _ 1 1 rfl, octet_eq _ 2 2 rfl,
    octet_eq _ 3 3 rfl, byteAt_xor, byteAt_xor, byteAt_xor, byteAt_xor, byteAt_RT0, byteAt_RT1,
    byteAt_RT2, byteAt_RT3, combined_eq, sub_zero]
  rw [(columns_back c).1, (columns_back c).2.1, (columns_back c).2.2]
  ac_rfl

theorem byteAt_boxed (box : List Nat) (f : Byte → Byte)
    (listed : ∀ b : Byte, box.getD b.toNat 0 = (f b).toNat) (b : Fin 4 → Byte) (k : Fin 4) :
    byteAt (boxed box (b 0).toNat (b 1).toNat (b 2).toNat (b 3).toNat) k = f (b k) := by
  rw [boxed, listed, listed, listed, listed]
  exact byteAt_assembled (fun k => f (b k)) k

theorem forward_last (RK : List Word) (Y : Quad) :
    toState (lastForward RK Y) = layers.add (layers.sub (toState Y)) (keyState RK) := by
  funext r c
  change byteAt ((lastForward RK Y).get c) r =
    sbox (byteAt (Y.get (c + r)) r) ^^^ byteAt (RK.getD c 0) r
  rw [lastForward, get_of, octet_eq _ 0 0 rfl, octet_eq _ 1 1 rfl, octet_eq _ 2 2 rfl,
    octet_eq _ 3 3 rfl, byteAt_xor, BitVec.xor_comm]
  congr 1
  have boxes := byteAt_boxed FSb sbox FSb_eq (fun k => byteAt (Y.get (c + k)) k) r
  rw [add_zero] at boxes
  exact boxes

theorem reverse_last (RK : List Word) (Y : Quad) :
    toState (lastReverse RK Y) = layers.add (layers.unsub (toState Y)) (keyState RK) := by
  have boxes (c r : Fin 4) := byteAt_boxed RSb unbox RSb_eq (fun k => byteAt (Y.get (c - k)) k) r
  funext r c
  change byteAt ((lastReverse RK Y).get c) r =
    unbox (byteAt (Y.get (c - r)) r) ^^^ byteAt (RK.getD c 0) r
  rw [lastReverse, get_of, octet_eq _ 0 0 rfl, octet_eq _ 1 1 rfl, octet_eq _ 2 2 rfl,
    octet_eq _ 3 3 rfl, byteAt_xor, BitVec.xor_comm, ← (columns_back c).1, ← (columns_back c).2.1,
    ← (columns_back c).2.2, ← boxes, sub_zero]

end layers

section runs

/-- The round keys in the words from the front on, `n` of them. -/
def roundKeys : (n : Nat) → (RK : List Word) → List State
  | 0, _ => []
  | n + 1, RK => keyState RK :: roundKeys n (RK.drop 4)

theorem roundKeys_append (m n : Nat) (RK : List Word) :
    roundKeys (m + n) RK = roundKeys m RK ++ roundKeys n (RK.drop (4 * m)) := by
  induction m generalizing RK with
  | zero => simp [roundKeys]
  | succ m ih =>
    rw [show m + 1 + n = (m + n) + 1 by omega, roundKeys, ih, List.drop_drop]
    simp only [roundKeys, List.cons_append]
    rw [show 4 + 4 * m = 4 * (m + 1) by omega]

/-- The octets of a block, column by column. -/
def blockState (input : Bytes) : State := fun r c => input.getD (4 * (c : Nat) + (r : Nat)) 0

theorem getLsbD_octets (b₃ b₂ b₁ b₀ : Byte) (i : Nat) :
    (b₃ ++ b₂ ++ b₁ ++ b₀ : BitVec (8 + 8 + 8 + 8)).getLsbD i =
      if i < 8 then b₀.getLsbD i else if i < 16 then b₁.getLsbD (i - 8)
        else if i < 24 then b₂.getLsbD (i - 16) else b₃.getLsbD (i - 24) := by
  simp only [BitVec.getLsbD_append]
  grind

theorem byteAt_leWord (bs : Bytes) (r : Fin 4) : byteAt (leWord bs) r = bs.getD r 0 := by
  apply BitVec.eq_of_getLsbD_eq
  intro i below
  have spread := getLsbD_octets (bs.getD 3 0) (bs.getD 2 0) (bs.getD 1 0) (bs.getD 0 0) (8 * r + i)
  rw [byteAt, leWord, BitVec.getLsbD_extractLsb', spread, decide_eq_true below, Bool.true_and]
  clear spread
  fin_cases r
  · simp [below]
  · simp [below, show 8 + i < 16 by omega]
  · simp [below, show ¬ 16 + i < 8 by omega, show ¬ 16 + i < 16 by omega, show 16 + i < 24 by omega]
  · simp [below, show ¬ 24 + i < 8 by omega, show ¬ 24 + i < 16 by omega,
      show ¬ 24 + i < 24 by omega]

theorem leBytes_eq (w : Word) : leBytes w = [byteAt w 0, byteAt w 1, byteAt w 2, byteAt w 3] := rfl

variable {round last : List Word → Quad → Quad} {step final : State → State → State}

theorem roundPairs_eq (rounds : ∀ RK Y, toState (round RK Y) = step (toState Y) (keyState RK))
    (i : Nat) (RK : List Word) (X : Quad) :
    toState (roundPairs round i RK X).1 = (roundKeys (2 * i) RK).foldl step (toState X) ∧
      (roundPairs round i RK X).2 = RK.drop (8 * i) := by
  induction i generalizing RK X with
  | zero => exact ⟨rfl, rfl⟩
  | succ i ih =>
    obtain ⟨state, position⟩ := ih (RK.drop 8) (round (RK.drop 4) (round RK X))
    rw [roundPairs]
    refine ⟨?_, ?_⟩
    · rw [state, rounds, rounds, show 2 * (i + 1) = (2 * i + 1) + 1 by omega, roundKeys, roundKeys,
        List.drop_drop, List.foldl_cons, List.foldl_cons]
    · rw [position, List.drop_drop]
      congr 1
      omega

/-- The octets that are written from the words. -/
theorem blockState_words (X : Quad) :
    blockState (leBytes X.X0 ++ leBytes X.X1 ++ leBytes X.X2 ++ leBytes X.X3) = toState X := by
  funext r c
  simp only [blockState, toState, leBytes_eq, List.cons_append, List.nil_append]
  fin_cases c <;> fin_cases r <;> rfl

theorem length_crypt (ctx : AesContext) (mode : AesMode) (input : Bytes) :
    (aes_crypt_ecb ctx mode input).length = 16 := by
  cases mode <;> rfl

theorem blockState_injective {a b : Bytes} (whole : a.length = 16) (whole' : b.length = 16)
    (same : blockState a = blockState b) : a = b := by
  apply List.ext_getElem (whole.trans whole'.symm)
  intro i below below'
  have inside : i % 4 < 4 := Nat.mod_lt _ (by decide)
  have here : a.getD (4 * (i / 4) + i % 4) 0 = b.getD (4 * (i / 4) + i % 4) 0 :=
    congrFun (congrFun same ⟨i % 4, inside⟩) ⟨i / 4, by omega⟩
  rw [Nat.div_add_mod] at here
  simpa [List.getD_eq_getElem?_getD, below, below'] using here

/-- What `aes_crypt_ecb` computes with the rounds of a mode. -/
theorem cryptEcb_eq (rounds : ∀ RK Y, toState (round RK Y) = step (toState Y) (keyState RK))
    (lasts : ∀ RK Y, toState (last RK Y) = final (toState Y) (keyState RK))
    (ctx : AesContext) (m : Nat) (even : ctx.nr = 2 * m + 2) (input : Bytes) :
    blockState (cryptEcb round last ctx input) =
      final ((roundKeys (ctx.nr - 1) (ctx.rk.drop 4)).foldl step
        (layers.add (blockState input) (keyState ctx.rk))) (keyState (ctx.rk.drop (4 * ctx.nr))) := by
  have start : toState (.of fun j => leWord (input.drop (4 * j)) ^^^ ctx.rk.getD j 0) =
      layers.add (blockState input) (keyState ctx.rk) := by
    funext r c
    change byteAt ((Quad.of _).get c) r = blockState input r c ^^^ keyState ctx.rk r c
    rw [get_of, byteAt_xor, byteAt_leWord]
    simp only [blockState, keyState, List.getD_eq_getElem?_getD, List.getElem?_drop]
  obtain ⟨state, position⟩ := roundPairs_eq rounds (ctx.nr / 2 - 1) (ctx.rk.drop 4)
    (.of fun j => leWord (input.drop (4 * j)) ^^^ ctx.rk.getD j 0)
  have pairs : ctx.nr / 2 - 1 = m := by omega
  have count : ctx.nr - 1 = 2 * m + 1 := by omega
  rw [cryptEcb, blockState_words, lasts, rounds, state, position, start, pairs, count,
    roundKeys_append, List.foldl_append, roundKeys, roundKeys, List.foldl_cons, List.foldl_nil,
    List.drop_drop, List.drop_drop, List.drop_drop, even,
    show 4 + 4 * (2 * m) = 4 + 8 * m by omega, show 4 * (2 * m + 2) = 4 + 8 * m + 4 by omega]

end runs

section schedule

theorem byteAt_unmixedKey (w : Word) (r : Fin 4) :
    byteAt (unmixedKey w) r = combined unmixed (byteAt w) r := by
  rw [unmixedKey, octet_eq _ 0 0 rfl, octet_eq _ 1 1 rfl, octet_eq _ 2 2 rfl, octet_eq _ 3 3 rfl,
    FSb_eq, FSb_eq, FSb_eq, FSb_eq, byteAt_xor, byteAt_xor, byteAt_xor, byteAt_RT0, byteAt_RT1,
    byteAt_RT2, byteAt_RT3, unbox_sbox, unbox_sbox, unbox_sbox, unbox_sbox, combined_eq]

variable (sk : List Word) (at_ : Nat)

theorem length_fourWords (inside : at_ + 4 ≤ sk.length) : (fourWords sk at_).length = 4 := by
  rw [fourWords, List.length_take, List.length_drop]
  omega

theorem fourWords_getElem? (c : Fin 4) :
    (fourWords sk at_)[(c : Nat)]? = (sk.drop at_)[(c : Nat)]? := by
  rw [fourWords, List.getElem?_take_of_lt c.isLt]

theorem keyState_fourWords (inside : at_ + 4 ≤ sk.length) (rest : List Word) :
    keyState (fourWords sk at_ ++ rest) = keyState (sk.drop at_) := by
  have four := length_fourWords sk at_ inside
  funext r c
  rw [keyState, keyState, List.getD_eq_getElem?_getD, List.getD_eq_getElem?_getD,
    List.getElem?_append_left (by omega), fourWords_getElem?]

theorem keyState_unmixed (inside : at_ + 4 ≤ sk.length) (rest : List Word) :
    keyState ((fourWords sk at_).map unmixedKey ++ rest) = layers.unmix (keyState (sk.drop at_)) := by
  have four := length_fourWords sk at_ inside
  funext r c
  have column : (sk.drop at_)[(c : Nat)]? = some ((sk.drop at_).getD c 0) := by
    have below : (c : Nat) < (sk.drop at_).length := by
      rw [List.length_drop]
      omega
    rw [List.getD_eq_getElem?_getD, List.getElem?_eq_getElem below, Option.getD_some]
  change byteAt _ r = combined unmixed (fun k => byteAt ((sk.drop at_).getD c 0) k) r
  rw [List.getD_eq_getElem?_getD, List.getElem?_append_left (by rw [List.length_map]; omega),
    List.getElem?_map, fourWords_getElem?, column, Option.map_some, Option.getD_some,
    byteAt_unmixedKey]

theorem drop_four (words rest : List Word) (four : words.length = 4) : (words ++ rest).drop 4 = rest :=
  List.drop_left' four

/-- The keys that the loop of `aes_setkey_dec` writes. -/
theorem roundKeys_unmixKeys (i : Nat) (inside : 4 * (i + 1) ≤ sk.length) (rest : List Word) :
    roundKeys i (unmixKeys sk i ++ rest) = (roundKeys i (sk.drop 4)).reverse.map layers.unmix ∧
      (unmixKeys sk i ++ rest).drop (4 * i) = rest := by
  induction i with
  | zero => exact ⟨rfl, rfl⟩
  | succ i ih =>
    obtain ⟨keys, behind⟩ := ih (by omega)
    have four : ((fourWords sk (4 * (i + 1))).map unmixedKey).length = 4 := by
      rw [List.length_map, length_fourWords sk _ (by omega)]
    have tail := drop_four _ (unmixKeys sk i ++ rest) four
    rw [unmixKeys, List.append_assoc]
    refine ⟨?_, ?_⟩
    · rw [roundKeys, tail, keys, keyState_unmixed sk _ (by omega), roundKeys_append, List.reverse_append,
        List.map_append, roundKeys, roundKeys, List.reverse_singleton, List.map_singleton,
        List.drop_drop, List.singleton_append]
      congr 4
      omega
    · have behindFour := congrArg (List.drop (4 * i)) tail
      rwa [List.drop_drop, behind, show 4 + 4 * i = 4 * (i + 1) by omega] at behindFour

theorem length_foldl_expand (expand : List Word → Nat → List Word) (more : Nat)
    (grows : ∀ rk i, (expand rk i).length = rk.length + more) (rounds : List Nat) (rk : List Word) :
    (rounds.foldl expand rk).length = rk.length + more * rounds.length := by
  induction rounds generalizing rk with
  | nil => rfl
  | cons i rounds ih =>
    rw [List.foldl_cons, ih, grows, List.length_cons]
    ring

/-- The rounds are even in number and there is a key for each, and one before the first. -/
theorem setkey_enc_sound {key : Bytes} {keysize : Nat} {ctx : AesContext}
    (set : aes_setkey_enc key keysize = some ctx) :
    (∃ m, ctx.nr = 2 * m + 2) ∧ 4 * (ctx.nr + 1) ≤ ctx.rk.length := by
  unfold aes_setkey_enc at set
  split at set
  next size =>
    subst size
    cases set
    exact ⟨⟨4, rfl⟩, by
      rw [length_foldl_expand expand128 4 (fun rk i => by simp [expand128])]
      simp⟩
  next =>
    split at set
    next size =>
      subst size
      cases set
      exact ⟨⟨5, rfl⟩, by
        rw [length_foldl_expand expand192 6 (fun rk i => by simp [expand192])]
        simp⟩
    next =>
      split at set
      next size =>
        subst size
        cases set
        exact ⟨⟨6, rfl⟩, by
          rw [length_foldl_expand expand256 8 (fun rk i => by simp [expand256])]
          simp⟩
      next => cases set

theorem setkey_enc_some_iff (key : Bytes) (keysize : Nat) :
    (aes_setkey_enc key keysize).isSome ↔ keysize = 128 ∨ keysize = 192 ∨ keysize = 256 := by
  unfold aes_setkey_enc
  grind

/-- The round keys of decryption are those of encryption from the last to the first. -/
theorem setkey_dec_keys {enc : AesContext} (enough : 4 * (enc.nr + 1) ≤ enc.rk.length)
    (present : 1 ≤ enc.nr) {rk : List Word}
    (words : rk = fourWords enc.rk (4 * enc.nr) ++ unmixKeys enc.rk (enc.nr - 1) ++
      fourWords enc.rk 0) :
    keyState rk = keyState (enc.rk.drop (4 * enc.nr)) ∧
      roundKeys (enc.nr - 1) (rk.drop 4) =
        (roundKeys (enc.nr - 1) (enc.rk.drop 4)).reverse.map layers.unmix ∧
      keyState (rk.drop (4 * enc.nr)) = keyState enc.rk := by
  subst words
  have lastFour := length_fourWords enc.rk (4 * enc.nr) (by omega)
  have behind := drop_four _ (unmixKeys enc.rk (enc.nr - 1) ++ fourWords enc.rk 0) lastFour
  obtain ⟨keys, rest⟩ := roundKeys_unmixKeys enc.rk (enc.nr - 1) (by omega)
    (fourWords enc.rk 0)
  rw [List.append_assoc]
  refine ⟨keyState_fourWords _ _ (by omega) _, by rw [behind, keys], ?_⟩
  have front := keyState_fourWords enc.rk 0 (by omega) []
  rw [List.append_nil, List.drop_zero] at front
  have end_ := congrArg (List.drop (4 * (enc.nr - 1))) behind
  rw [List.drop_drop, rest, show 4 + 4 * (enc.nr - 1) = 4 * enc.nr by omega] at end_
  rw [end_, front]

theorem encrypt_eq (ctx : AesContext) (m : Nat) (even : ctx.nr = 2 * m + 2) (input : Bytes) :
    blockState (aes_crypt_ecb ctx .AES_ENCRYPT input) =
      encrypt layers (keyState ctx.rk) (roundKeys (ctx.nr - 1) (ctx.rk.drop 4))
        (keyState (ctx.rk.drop (4 * ctx.nr))) (blockState input) :=
  @cryptEcb_eq AES_FROUND lastForward layers.round (fun s k => layers.add (layers.sub s) k)
    forward_round forward_last ctx m even input

theorem decrypt_eq (ctx : AesContext) (m : Nat) (even : ctx.nr = 2 * m + 2) (input : Bytes) :
    blockState (aes_crypt_ecb ctx .AES_DECRYPT input) =
      layers.add (layers.unsub ((roundKeys (ctx.nr - 1) (ctx.rk.drop 4)).foldl
        (fun s k => layers.add (layers.unmix (layers.unsub s)) k)
        (layers.add (blockState input) (keyState ctx.rk)))) (keyState (ctx.rk.drop (4 * ctx.nr))) :=
  @cryptEcb_eq AES_RROUND lastReverse (fun s k => layers.add (layers.unmix (layers.unsub s)) k)
    (fun s k => layers.add (layers.unsub s) k) reverse_round reverse_last ctx m even input

/-- Decryption with the words of `aes_setkey_dec` is the inverse of encryption with the words it
made them from. -/
theorem crypt_restored {key : Bytes} {keysize : Nat} {enc dec : AesContext}
    (encSet : aes_setkey_enc key keysize = some enc) (decSet : aes_setkey_dec key keysize = some dec)
    (input : Bytes) (whole : input.length = 16) :
    aes_crypt_ecb dec .AES_DECRYPT (aes_crypt_ecb enc .AES_ENCRYPT input) = input := by
  obtain ⟨⟨m, even⟩, enough⟩ := setkey_enc_sound encSet
  rw [aes_setkey_dec, encSet, Option.map_some, Option.some.injEq] at decSet
  have same : dec.nr = enc.nr := by rw [← decSet]
  have words : dec.rk = fourWords enc.rk (4 * enc.nr) ++ unmixKeys enc.rk (enc.nr - 1) ++
      fourWords enc.rk 0 := by
    rw [← decSet]
  obtain ⟨firstKey, keys, lastKey⟩ := setkey_dec_keys enough (by omega) words
  apply blockState_injective (length_crypt _ _ _) whole
  rw [decrypt_eq dec m (same.trans even), encrypt_eq enc m even, same, firstKey, keys, lastKey,
    List.foldl_map]
  exact decrypt_encrypt layers _ _ _ _

/-- Keys of 128, 192 and 256 bits are taken, and then decryption gives back every block that was
encrypted; others are refused for both. -/
theorem block_restored (key : Bytes) (keysize : Nat) :
    if keysize = 128 ∨ keysize = 192 ∨ keysize = 256 then
      ∃ enc dec, aes_setkey_enc key keysize = some enc ∧ aes_setkey_dec key keysize = some dec ∧
        ∀ input, input.length = 16 →
          aes_crypt_ecb dec .AES_DECRYPT (aes_crypt_ecb enc .AES_ENCRYPT input) = input
    else aes_setkey_enc key keysize = none ∧ aes_setkey_dec key keysize = none := by
  have taken := setkey_enc_some_iff key keysize
  split
  next size =>
    obtain ⟨enc, encSet⟩ := Option.isSome_iff_exists.mp (taken.mpr size)
    have decSet : (aes_setkey_dec key keysize).isSome := by
      rw [aes_setkey_dec, encSet]
      rfl
    obtain ⟨dec, decSet⟩ := Option.isSome_iff_exists.mp decSet
    exact ⟨enc, dec, encSet, decSet, crypt_restored encSet decSet⟩
  next size =>
    have refused : aes_setkey_enc key keysize = none := by
      rw [← Option.not_isSome_iff_eq_none, taken]
      exact size
    exact ⟨refused, by rw [aes_setkey_dec, refused]; rfl⟩

end schedule

section product

/-- `aes_crypt_ecb` as `doAES128` calls it, under the schedules of a key of 128 bits. -/
def aes128 : AesEcb where
  enc key x := ⟨aes_crypt_ecb ((aes_setkey_enc key.val 128).getD ⟨0, []⟩) .AES_ENCRYPT x.val,
    length_crypt _ _ _⟩
  dec key x := ⟨aes_crypt_ecb ((aes_setkey_dec key.val 128).getD ⟨0, []⟩) .AES_DECRYPT x.val,
    length_crypt _ _ _⟩
  dec_enc key x := by
    have restored := block_restored key.val 128
    rw [if_pos (.inl rfl)] at restored
    obtain ⟨enc, dec, encSet, decSet, inverse⟩ := restored
    apply Subtype.ext
    rw [encSet, decSet, Option.getD_some, Option.getD_some]
    exact inverse x.val x.property

/-- `AES128Cipher::decrypt` gives back what `AES128Cipher::encrypt` was given, whatever the octets
and whatever the output blocks held. -/
theorem product_restored (key : Block) (mem mem' : FreshMem) (x : Bytes) :
    ∃ cipher, AES128Cipher.encrypt aes128 key mem x = .ok cipher ∧
      AES128Cipher.decrypt aes128 key mem' cipher = .ok x :=
  AES128Cipher.decrypt_encrypt aes128 key mem mem' x

end product

end BlmLink.Guarantees.AesRounds
