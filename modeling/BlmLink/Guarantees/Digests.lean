import Mathlib
import BlmLink.Lib.BlockStream
import BlmLink.Source.Hash

/-!
# MD5 and SHA-1

polarssl/library/md5.c, sha1.c and blmutil.cpp:70-80. A context stands for the message taken so
far (`Represents`), however it was cut into calls of `update` and whatever the buffer held
before. With the padding the message ends in a whole block, so `finish` returns the digest of
RFC 1321 or FIPS 180 (`md5_of_chunks`, `sha1_of_chunks`). The blocks are processed as there,
though the code has other forms of the functions and, for SHA-1, keeps 16 of the 80 words of the
schedule (`sha1_process_eq`). A call of `update` counts `ilen` modulo 2 ^ 32.
-/
namespace BlmLink.Guarantees.Digests

open BlmLink.Lib.BlockStream BlmLink.Source

section stream

variable {σ : Type} {process : σ → Bytes → σ} {iv : σ}

/-- The octets of `total[0] & 0x3F`. -/
theorem left_eq (n : Nat) : (BitVec.ofNat 32 n &&& (0x3F : Word)).toNat = n % 64 := by
  have mask : (0x3F : Word).toNat = 2 ^ 6 - 1 := rfl
  rw [BitVec.toNat_and, mask, Nat.and_two_pow_sub_one_eq_mod, BitVec.toNat_ofNat]
  omega

theorem length_overlay {buffer input : Bytes} {left : Nat}
    (fits : left + input.length ≤ buffer.length) :
    (overlay buffer left input).length = buffer.length := by
  rw [overlay, List.length_append, List.length_append, List.length_take, List.length_drop]
  omega

theorem take_overlay {buffer input : Bytes} {left : Nat} (inside : left ≤ buffer.length) :
    (overlay buffer left input).take (left + input.length) = buffer.take left ++ input := by
  rw [overlay, List.take_append_of_le_length]
  · rw [List.take_of_length_le]
    rw [List.length_append, List.length_take]
    omega
  · rw [List.length_append, List.length_take]
    omega

/-- A buffer that is filled to its end. -/
theorem overlay_full {buffer input : Bytes} {left : Nat}
    (full : left + input.length = buffer.length) :
    overlay buffer left input = buffer.take left ++ input := by
  rw [overlay, List.drop_of_length_le (Nat.le_of_eq full.symm), List.append_nil]

/-- The loop over the blocks of the input. -/
theorem processBlocks_eq {fuel : Nat} {input : Bytes} (enough : input.length ≤ fuel) (state : σ) :
    processBlocks process fuel state input =
      (absorbed 64 process state input, pending 64 input) := by
  induction fuel generalizing state input with
  | zero =>
    have none : input.length < 64 := by omega
    rw [processBlocks, absorbed_short none, pending_short none]
  | succ fuel ih =>
    rw [processBlocks]
    split
    next long =>
      have shorter : (input.drop 64).length ≤ fuel := by
        rw [List.length_drop]
        omega
      rw [ih shorter, ← absorbed_block (by decide) long, ← pending_block (by decide) long]
    next short =>
      rw [Nat.not_le] at short
      rw [absorbed_short short, pending_short short]

/-- The context has taken `msg`. -/
structure Represents (process : σ → Bytes → σ) (iv : σ) (ctx : HashContext σ) (msg : Bytes) :
    Prop where
  low : ctx.total0 = BitVec.ofNat 32 msg.length
  high : ctx.total1 = BitVec.ofNat 32 (msg.length / 2 ^ 32)
  state : ctx.state = absorbed 64 process iv msg
  size : ctx.buffer.length = 64
  buffered : ctx.buffer.take (msg.length % 64) = pending 64 msg

theorem represents_nil {buffer : Bytes} (size : buffer.length = 64) :
    Represents process iv ⟨0, 0, iv, buffer⟩ [] where
  low := rfl
  high := rfl
  state := rfl
  size := size
  buffered := rfl

/-- The carry of the two words that count the octets. -/
theorem total_carry {n k : Nat} (short : k < 2 ^ 32) :
    (if (BitVec.ofNat 32 n + BitVec.ofNat 32 k : Word) < BitVec.ofNat 32 k
      then BitVec.ofNat 32 (n / 2 ^ 32) + 1 else BitVec.ofNat 32 (n / 2 ^ 32) : Word) =
      BitVec.ofNat 32 ((n + k) / 2 ^ 32) := by
  have sum : (BitVec.ofNat 32 n + BitVec.ofNat 32 k : Word).toNat = (n % 2 ^ 32 + k) % 2 ^ 32 := by
    rw [BitVec.toNat_add, BitVec.toNat_ofNat, BitVec.toNat_ofNat]
    omega
  have count : (BitVec.ofNat 32 k : Word).toNat = k := by
    rw [BitVec.toNat_ofNat]
    omega
  simp only [BitVec.lt_def, sum, count]
  split
  next carried =>
    have next : (n + k) / 2 ^ 32 = n / 2 ^ 32 + 1 := by omega
    rw [next, BitVec.ofNat_add]
    rfl
  next kept =>
    have same : (n + k) / 2 ^ 32 = n / 2 ^ 32 := by omega
    rw [same]

/-- The state and the buffer behind the calls of `process`, the rest put behind `left` octets. -/
theorem represents_rest {ctx : HashContext σ} {msg input rest : Bytes}
    (before : Represents process iv ctx msg) (short : input.length < 2 ^ 32) {buffer : Bytes}
    {state : σ} {left : Nat} (taken : state = absorbed 64 process iv (msg ++ input))
    (size : buffer.length = 64) (inside : left + rest.length < 64)
    (kept : buffer.take left ++ rest = pending 64 (msg ++ input)) :
    Represents process iv
      ⟨ctx.total0 + BitVec.ofNat 32 input.length,
        if ctx.total0 + BitVec.ofNat 32 input.length < BitVec.ofNat 32 input.length
          then ctx.total1 + 1 else ctx.total1,
        state, overlay buffer left rest⟩ (msg ++ input) where
  low := by rw [before.low, List.length_append, BitVec.ofNat_add]
  high := by
    rw [before.low, before.high, List.length_append]
    exact total_carry short
  state := taken
  size := by rw [length_overlay (by omega), size]
  buffered := by
    have count : left + rest.length = (msg ++ input).length % 64 := by
      rw [← length_pending, ← kept, List.length_append, List.length_take]
      omega
    rw [← count, take_overlay (by omega), kept]

/-- A call of `update` takes its input, whatever its size. -/
theorem represents_update {ctx : HashContext σ} {msg : Bytes} (before : Represents process iv ctx msg)
    (input : Bytes) (short : input.length < 2 ^ 32) :
    Represents process iv (updateContext process ctx input) (msg ++ input) := by
  have left : (ctx.total0 &&& 0x3F).toNat = msg.length % 64 := by rw [before.low, left_eq]
  have below : msg.length % 64 < 64 := Nat.mod_lt _ (by decide)
  have waiting := length_pending 64 msg
  have absorbs : absorbed 64 process iv (msg ++ input) =
      absorbed 64 process (absorbed 64 process iv msg) (pending 64 msg ++ input) :=
    absorbed_append (by decide) iv msg input
  have leaves := pending_append (by decide : 0 < 64) msg input
  unfold updateContext
  split
  next none =>
    rw [List.length_eq_zero_iff.mp none, List.append_nil]
    exact before
  next some =>
    dsimp only
    rw [left]
    split
    next full =>
      have first : overlay ctx.buffer (msg.length % 64) (input.take (64 - msg.length % 64)) =
          pending 64 msg ++ input.take (64 - msg.length % 64) := by
        have size : msg.length % 64 + (input.take (64 - msg.length % 64)).length = 64 := by
          rw [List.length_take]
          omega
        rw [overlay_full (by rw [size, before.size]), before.buffered]
      have block : (pending 64 msg ++ input).take 64 =
          pending 64 msg ++ input.take (64 - msg.length % 64) := by
        rw [List.take_append, waiting, List.take_of_length_le (by rw [waiting]; omega)]
      have behind : (pending 64 msg ++ input).drop 64 = input.drop (64 - msg.length % 64) := by
        rw [List.drop_append, waiting, List.drop_of_length_le (by rw [waiting]; omega),
          List.nil_append]
      have long : 64 ≤ (pending 64 msg ++ input).length := by
        rw [List.length_append, waiting]
        omega
      rw [absorbed_block (by decide) long, block, behind] at absorbs
      rw [pending_block (by decide) long, behind] at leaves
      have inner : (input.drop (64 - msg.length % 64)).length ≤ input.length := by
        rw [List.length_drop]
        omega
      rw [processBlocks_eq inner, first, before.state]
      dsimp only
      apply represents_rest before short absorbs.symm
      · rw [← block, List.length_take]
        omega
      · rw [Nat.zero_add, length_pending]
        exact Nat.mod_lt _ (by decide)
      · rw [List.take_zero, List.nil_append, leaves]
    next partial_ =>
      rw [processBlocks_eq (Nat.le_refl _), before.state]
      dsimp only
      by_cases empty : msg.length % 64 = 0
      · have nothing : pending 64 msg = [] := List.length_eq_zero_iff.mp (by rw [waiting, empty])
        rw [nothing, List.nil_append] at absorbs leaves
        rw [empty]
        apply represents_rest before short absorbs.symm before.size
        · rw [Nat.zero_add, length_pending]
          exact Nat.mod_lt _ (by decide)
        · rw [List.take_zero, List.nil_append, leaves]
      · have little : msg.length % 64 + input.length < 64 := by omega
        have both : (pending 64 msg ++ input).length < 64 := by
          rw [List.length_append, waiting]
          exact little
        rw [absorbed_short both] at absorbs
        rw [pending_short both] at leaves
        rw [absorbed_short (by omega), pending_short (by omega)]
        apply represents_rest before short absorbs.symm before.size little
        rw [before.buffered, leaves]

theorem represents_updates {ctx : HashContext σ} {msg : Bytes} (before : Represents process iv ctx msg)
    {chunks : List Bytes} (short : ∀ chunk ∈ chunks, chunk.length < 2 ^ 32) :
    Represents process iv (chunks.foldl (updateContext process) ctx) (msg ++ chunks.flatten) := by
  induction chunks generalizing ctx msg with
  | nil =>
    rw [List.flatten_nil, List.append_nil]
    exact before
  | cons chunk chunks ih =>
    rw [List.forall_mem_cons] at short
    rw [List.foldl_cons, List.flatten_cons, ← List.append_assoc]
    exact ih (represents_update before chunk short.1) short.2

/-- The message with its padding: a one bit, zeros up to eight octets below a whole block, and
the number of its bits modulo 2 ^ 64. -/
def padded (lengthOctets : BitVec 64 → Bytes) (msg : Bytes) : Bytes :=
  msg ++ (0x80 :: List.replicate ((119 - msg.length % 64) % 64) 0) ++
    lengthOctets (BitVec.ofNat 64 (8 * msg.length))

/-- The octets of a 64-bit number, the least significant first. -/
def le64 (v : BitVec 64) : Bytes := (List.range 8).map fun i => v.extractLsb' (8 * i) 8

/-- The most significant first. -/
def be64 (v : BitVec 64) : Bytes := (le64 v).reverse

theorem padding_take {n : Nat} (below : n < 64) :
    padding.take (if n < 56 then 56 - n else 120 - n) =
      0x80 :: List.replicate ((119 - n) % 64) 0 := by
  have count : (if n < 56 then 56 - n else 120 - n) = (119 - n) % 64 + 1 := by
    split <;> omega
  have short : (119 - n) % 64 ≤ 63 := Nat.le_of_lt_succ (Nat.mod_lt _ (by decide))
  rw [count, padding, List.take_succ_cons, List.take_replicate, Nat.min_eq_left short]

theorem extract_half (v : BitVec 64) (half start : Nat) (inside : start + 8 ≤ 32) :
    (v.extractLsb' half 32).extractLsb' start 8 = v.extractLsb' (half + start) 8 := by
  ext i below
  have within : start + i < 32 := by omega
  simp [within, Nat.add_assoc]

/-- The two halves of a number, one after the other. -/
theorem halves_le (v : BitVec 64) :
    leBytes (v.extractLsb' 0 32) ++ leBytes (v.extractLsb' 32 32) = le64 v := by
  simp only [leBytes, extract_half _ _ _ (by decide : 0 + 8 ≤ 32),
    extract_half _ _ _ (by decide : 8 + 8 ≤ 32), extract_half _ _ _ (by decide : 16 + 8 ≤ 32),
    extract_half _ _ _ (by decide : 24 + 8 ≤ 32)]
  rfl

theorem halves_be (v : BitVec 64) :
    beBytes (v.extractLsb' 32 32) ++ beBytes (v.extractLsb' 0 32) = be64 v := by
  rw [be64, ← halves_le, List.reverse_append]
  rfl

theorem length_le64 (v : BitVec 64) : (le64 v).length = 8 := rfl

theorem length_be64 (v : BitVec 64) : (be64 v).length = 8 := rfl

theorem length_fresh (mem : FreshMem) : (mem.bytes 64).length = 64 := by
  rw [FreshMem.bytes, List.length_map, List.length_range]

/-- `low` is the lower half of the number of bits. -/
theorem low_half (n : Nat) :
    (BitVec.ofNat 32 n : Word) <<< 3 = (BitVec.ofNat 64 (8 * n)).extractLsb' 0 32 := by
  apply BitVec.eq_of_getLsbD_eq
  intro i below
  have eight : 8 * n = 2 ^ 3 * n := rfl
  have wide : i < 64 := by omega
  rw [BitVec.getLsbD_shiftLeft, BitVec.getLsbD_extractLsb', BitVec.getLsbD_ofNat,
    BitVec.getLsbD_ofNat, eight, Nat.zero_add, Nat.testBit_two_pow_mul]
  by_cases small : i < 3
  · simp [small, below]
  · have inner : i - 3 < 32 := by omega
    simp [small, below, wide, inner]
    omega

/-- `high` is the upper half. -/
theorem high_half (n : Nat) :
    ((BitVec.ofNat 32 n : Word) >>> 29 ||| (BitVec.ofNat 32 (n / 2 ^ 32) : Word) <<< 3) =
      (BitVec.ofNat 64 (8 * n)).extractLsb' 32 32 := by
  apply BitVec.eq_of_getLsbD_eq
  intro i below
  have eight : 8 * n = 2 ^ 3 * n := rfl
  have wide : 32 + i < 64 := by omega
  have above : 3 ≤ 32 + i := by omega
  rw [BitVec.getLsbD_or, BitVec.getLsbD_shiftLeft, BitVec.getLsbD_ushiftRight,
    BitVec.getLsbD_extractLsb', BitVec.getLsbD_ofNat, BitVec.getLsbD_ofNat, BitVec.getLsbD_ofNat,
    eight, Nat.testBit_two_pow_mul, Nat.testBit_div_two_pow]
  by_cases small : i < 3
  · have inner : 29 + i < 32 := by omega
    have same : 32 + i - 3 = 29 + i := by omega
    simp [small, below, wide, above, inner, same]
  · have outer : ¬ 29 + i < 32 := by omega
    have inner : i - 3 < 32 := by omega
    have same : i - 3 + 32 = 32 + i - 3 := by omega
    simp [small, below, wide, above, outer, inner, same]

/-- `finish` processes the padded message to its end. -/
theorem finishState_eq {ctx : HashContext σ} {msg : Bytes} (before : Represents process iv ctx msg)
    {msglen : Word → Word → Bytes} {lengthOctets : BitVec 64 → Bytes}
    (written : ∀ v : BitVec 64, msglen (v.extractLsb' 0 32) (v.extractLsb' 32 32) = lengthOctets v)
    (eight : ∀ v, (lengthOctets v).length = 8) :
    finishState process msglen ctx = absorbed 64 process iv (padded lengthOctets msg) := by
  have below : msg.length % 64 < 64 := Nat.mod_lt _ (by decide)
  have count : (0x80 :: List.replicate ((119 - msg.length % 64) % 64) (0 : Byte)).length < 2 ^ 32 := by
    rw [List.length_cons, List.length_replicate]
    omega
  unfold finishState
  dsimp only
  rw [before.low, before.high, left_eq, low_half, high_half, written, padding_take below]
  have ended := represents_update (represents_update before _ count)
    (lengthOctets (BitVec.ofNat 64 (8 * msg.length))) (by rw [eight]; decide)
  exact ended.state

end stream

theorem rotated_eq (x : Word) {n : Nat} (below : n < 32) : rotated x n = x.rotateLeft n := by
  have all : x &&& 0xFFFFFFFF = x := by
    have ones : (0xFFFFFFFF : Word) = BitVec.allOnes 32 := rfl
    rw [ones, BitVec.and_allOnes]
  rw [rotated, all, BitVec.rotateLeft, Nat.mod_eq_of_lt below, BitVec.rotateLeftAux]

section md5

/-- `F`, `G`, `H` and `I` of RFC 1321, by the number of the operation. -/
def md5Function (i : Nat) (x y z : Word) : Word :=
  if i < 16 then (x &&& y) ||| (~~~x &&& z)
  else if i < 32 then (x &&& z) ||| (y &&& ~~~z)
  else if i < 48 then x ^^^ y ^^^ z
  else y ^^^ (x ||| ~~~z)

/-- The word of the block that an operation takes. -/
def md5Index (i : Nat) : Nat :=
  if i < 16 then i else if i < 32 then (5 * i + 1) % 16 else if i < 48 then (3 * i + 5) % 16
  else 7 * i % 16

def md5Shift (i : Nat) : Nat :=
  (if i < 16 then [7, 12, 17, 22] else if i < 32 then [5, 9, 14, 20]
    else if i < 48 then [4, 11, 16, 23] else [6, 10, 15, 21]).getD (i % 4) 0

/-- The table `T`, which is not computed here. -/
def md5Table : List Word := (md5Round1 ++ md5Round2 ++ md5Round3 ++ md5Round4).map (·.2.2)

def md5Operation (block : Bytes) (v : Md5State) (i : Nat) : Md5State :=
  ⟨v.D, v.B + (v.A + md5Function i v.B v.C v.D + leWord (block.drop (4 * md5Index i)) +
    md5Table.getD i 0).rotateLeft (md5Shift i), v.B, v.C⟩

def md5Compress (state : Md5State) (block : Bytes) : Md5State :=
  let v := (List.range 64).foldl (md5Operation block) state
  ⟨state.A + v.A, state.B + v.B, state.C + v.C, state.D + v.D⟩

/-- The digest of RFC 1321. -/
def rfc1321 (msg : Bytes) : Bytes :=
  let state := absorbed 64 md5Compress ⟨0x67452301, 0xEFCDAB89, 0x98BADCFE, 0x10325476⟩
    (padded le64 msg)
  leBytes state.A ++ leBytes state.B ++ leBytes state.C ++ leBytes state.D

theorem selects (x y z : Word) : z ^^^ (x &&& (y ^^^ z)) = (x &&& y) ||| (~~~x &&& z) := by
  ext i below
  simp only [BitVec.getElem_xor, BitVec.getElem_and, BitVec.getElem_or, BitVec.getElem_not]
  cases x[i] <;> cases y[i] <;> cases z[i] <;> rfl

theorem selects_third (x y z : Word) : y ^^^ (z &&& (x ^^^ y)) = (x &&& z) ||| (y &&& ~~~z) := by
  ext i below
  simp only [BitVec.getElem_xor, BitVec.getElem_and, BitVec.getElem_or, BitVec.getElem_not]
  cases x[i] <;> cases y[i] <;> cases z[i] <;> rfl

/-- What a row of the source has for an operation. -/
def md5Row (i : Nat) : Nat × Nat × Word := (md5Index i, md5Shift i, md5Table.getD i 0)

theorem md5Shift_lt : ∀ i < 64, md5Shift i < 32 := by decide

/-- A round of the source: sixteen operations with the same function. -/
theorem md5_round (block : Bytes) {F : Word → Word → Word → Word} {rows : List (Nat × Nat × Word)}
    {first : Nat} (inside : first + 16 ≤ 64) (listed : rows = (List.range' first 16).map md5Row)
    (same : ∀ i, first ≤ i → i < first + 16 → ∀ x y z, F x y z = md5Function i x y z)
    (v : Md5State) :
    rows.foldl (md5P F fun k => leWord (block.drop (4 * k))) v =
      (List.range' first 16).foldl (md5Operation block) v := by
  rw [listed, List.foldl_map]
  apply List.foldl_ext
  intro v i among
  rw [List.mem_range'_1] at among
  rw [md5P, md5Operation, md5Row, same i among.1 among.2,
    rotated_eq _ (md5Shift_lt i (by omega))]
  congr 1
  rw [BitVec.add_comm _ v.B]
  congr 2
  rw [← BitVec.add_assoc, ← BitVec.add_assoc]

theorem md5_process_eq (state : Md5State) (block : Bytes) :
    md5_process state block = md5Compress state block := by
  have whole : List.range 64 =
      List.range' 0 16 ++ List.range' 16 16 ++ List.range' 32 16 ++ List.range' 48 16 := by decide
  unfold md5_process md5Compress
  dsimp only
  rw [whole, List.foldl_append, List.foldl_append, List.foldl_append]
  rw [md5_round block (by decide) (by decide : md5Round1 = (List.range' 0 16).map md5Row),
    md5_round block (by decide) (by decide : md5Round2 = (List.range' 16 16).map md5Row),
    md5_round block (by decide) (by decide : md5Round3 = (List.range' 32 16).map md5Row),
    md5_round block (by decide) (by decide : md5Round4 = (List.range' 48 16).map md5Row)]
  · intro i low high x y z
    rw [md5Function, if_neg (by omega), if_neg (by omega), if_neg (by omega)]
  · intro i low high x y z
    rw [md5Function, if_neg (by omega), if_neg (by omega), if_pos high]
  · intro i low high x y z
    rw [md5Function, if_neg (by omega), if_pos high, selects_third]
  · intro i low high x y z
    rw [md5Function, if_pos high, selects]

theorem md5_finish_eq {ctx : HashContext Md5State} {msg : Bytes}
    (taken : Represents md5_process ⟨0x67452301, 0xEFCDAB89, 0x98BADCFE, 0x10325476⟩ ctx msg) :
    md5_finish ctx = rfc1321 msg := by
  have same : md5_process = md5Compress := funext fun state => funext (md5_process_eq state)
  unfold md5_finish
  dsimp only
  rw [finishState_eq taken (fun v => halves_le v) length_le64, same]
  rfl

/-- Where the message is cut into calls of `md5_update`, and what the buffer held before, make
no difference, and the digest is that of RFC 1321. `Hash::md5` takes the message in one call. -/
theorem md5_of_chunks (mem : FreshMem) (chunks : List Bytes)
    (short : ∀ chunk ∈ chunks, chunk.length < 2 ^ 32) :
    md5_finish (chunks.foldl md5_update (md5_starts mem)) = rfc1321 chunks.flatten ∧
      (chunks.flatten.length < 2 ^ 31 → Hash.md5 mem chunks.flatten = rfc1321 chunks.flatten) := by
  have start : Represents md5_process _ (md5_starts mem) [] := represents_nil (length_fresh mem)
  constructor
  · exact md5_finish_eq (represents_updates start short)
  · intro fits
    exact md5_finish_eq (represents_update start _ (Nat.lt_trans fits (by decide)))

theorem md5_of_chunks_sample :
    md5_finish ([[chr 'a'], [chr 'b', chr 'c']].foldl md5_update (md5_starts fun _ => 7)) =
        rfc1321 [chr 'a', chr 'b', chr 'c'] ∧
      (([[chr 'a'], [chr 'b', chr 'c']] : List Bytes).flatten.length < 2 ^ 31 →
        Hash.md5 (fun _ => 7) [chr 'a', chr 'b', chr 'c'] = rfc1321 [chr 'a', chr 'b', chr 'c']) :=
  md5_of_chunks (fun _ => 7) [[chr 'a'], [chr 'b', chr 'c']] (by decide)

/-- The first test value of RFC 1321. -/
example : Hash.md5 (fun _ => 7) [] = [0xd4, 0x1d, 0x8c, 0xd9, 0x8f, 0x00, 0xb2, 0x04, 0xe9, 0x80,
    0x09, 0x98, 0xec, 0xf8, 0x42, 0x7e] := by
  decide +kernel

end md5

section sha1

/-- `Ch`, `Parity` and `Maj` of FIPS 180, by the number of the step. -/
def sha1Function (t : Nat) (x y z : Word) : Word :=
  if t < 20 then (x &&& y) ||| (~~~x &&& z)
  else if t < 40 then x ^^^ y ^^^ z
  else if t < 60 then (x &&& y) ^^^ (x &&& z) ^^^ (y &&& z)
  else x ^^^ y ^^^ z

def sha1Constant (t : Nat) : Word :=
  if t < 20 then 0x5A827999 else if t < 40 then 0x6ED9EBA1 else if t < 60 then 0x8F1BBCDC
  else 0xCA62C1D6

/-- The words `W` of the message schedule. -/
def sha1Schedule (block : Bytes) (t : Nat) : Word :=
  if _first : t < 16 then beWord (block.drop (4 * t))
  else (sha1Schedule block (t - 3) ^^^ sha1Schedule block (t - 8) ^^^ sha1Schedule block (t - 14) ^^^
    sha1Schedule block (t - 16)).rotateLeft 1
  termination_by t
  decreasing_by all_goals omega

def sha1Step (block : Bytes) (v : Sha1State) (t : Nat) : Sha1State :=
  ⟨v.A.rotateLeft 5 + sha1Function t v.B v.C v.D + v.E + sha1Constant t + sha1Schedule block t,
    v.A, v.B.rotateLeft 30, v.C, v.D⟩

def sha1Compress (state : Sha1State) (block : Bytes) : Sha1State :=
  let v := (List.range 80).foldl (sha1Step block) state
  ⟨state.A + v.A, state.B + v.B, state.C + v.C, state.D + v.D, state.E + v.E⟩

/-- The digest of FIPS 180. -/
def fips180 (msg : Bytes) : Bytes :=
  let state := absorbed 64 sha1Compress
    ⟨0x67452301, 0xEFCDAB89, 0x98BADCFE, 0x10325476, 0xC3D2E1F0⟩ (padded be64 msg)
  beBytes state.A ++ beBytes state.B ++ beBytes state.C ++ beBytes state.D ++ beBytes state.E

theorem majority (x y z : Word) :
    (x &&& y) ||| (z &&& (x ||| y)) = (x &&& y) ^^^ (x &&& z) ^^^ (y &&& z) := by
  ext i below
  simp only [BitVec.getElem_xor, BitVec.getElem_and, BitVec.getElem_or]
  cases x[i] <;> cases y[i] <;> cases z[i] <;> rfl

/-- Before step `t`, `W` has the last sixteen words of the schedule, each at its number modulo
sixteen; up to step 16 these are those of the block. -/
structure Recent (block : Bytes) (W : List Word) (t : Nat) : Prop where
  size : W.length = 16
  words : ∀ s, s < max t 16 → max t 16 ≤ s + 16 → W.getD (s % 16) 0 = sha1Schedule block s

theorem recent_block (block : Bytes) :
    Recent block ((List.range 16).map fun k => beWord (block.drop (4 * k))) 0 where
  size := rfl
  words s below _ := by
    have first : s < 16 := below
    rw [Nat.mod_eq_of_lt first, sha1Schedule, dif_pos first]
    simp [List.getD_eq_getElem?_getD, first]

theorem recent_next {block : Bytes} {W : List Word} {t : Nat} (recent : Recent block W t) :
    Recent block (if t < 16 then W else sha1R W t) (t + 1) := by
  split
  next first =>
    refine ⟨recent.size, fun s below above => recent.words s ?_ ?_⟩
    · omega
    · omega
  next later =>
    have temp : sha1Schedule block t = rotated (W.getD ((t - 3) % 16) 0 ^^^
        W.getD ((t - 8) % 16) 0 ^^^ W.getD ((t - 14) % 16) 0 ^^^ W.getD (t % 16) 0) 1 := by
      have wrapped : t % 16 = (t - 16) % 16 := by omega
      rw [rotated_eq _ (by decide), wrapped, recent.words (t - 3) (by omega) (by omega),
        recent.words (t - 8) (by omega) (by omega), recent.words (t - 14) (by omega) (by omega),
        recent.words (t - 16) (by omega) (by omega), sha1Schedule, dif_neg later]
    unfold sha1R
    dsimp only
    rw [← temp]
    refine ⟨by rw [List.length_set, recent.size], fun s below above => ?_⟩
    by_cases newest : s = t
    · subst newest
      rw [List.getD_eq_getElem?_getD, List.getElem?_set_self, Option.getD_some]
      rw [recent.size]
      exact Nat.mod_lt _ (by decide)
    · rw [List.getD_eq_getElem?_getD, List.getElem?_set_ne (by omega), ← List.getD_eq_getElem?_getD]
      exact recent.words s (by omega) (by omega)

/-- A run of calls of `P` with the same function and constant. -/
theorem sha1_calls {block : Bytes} {F : Word → Word → Word → Word} {K : Word} (count : Nat)
    {first : Nat} {W : List Word} (recent : Recent block W first)
    (same : ∀ t, first ≤ t → t < first + count → K = sha1Constant t ∧
      ∀ x y z, F x y z = sha1Function t x y z) (v : Sha1State) :
    ∃ W', (List.range' first count).foldl (sha1Call F K) (W, v) =
        (W', (List.range' first count).foldl (sha1Step block) v) ∧
      Recent block W' (first + count) := by
  induction count generalizing first W v with
  | zero => exact ⟨W, rfl, recent⟩
  | succ count ih =>
    have next := recent_next recent
    have word : (if first < 16 then W else sha1R W first).getD (first % 16) 0 =
        sha1Schedule block first := next.words first (by omega) (by omega)
    have here := same first (Nat.le_refl _) (by omega)
    have step : sha1Call F K (W, v) first =
        (if first < 16 then W else sha1R W first, sha1Step block v first) := by
      rw [sha1Call]
      dsimp only
      rw [word, sha1P, here.1, here.2, rotated_eq _ (by decide), rotated_eq _ (by decide), sha1Step]
      congr 2
      ac_rfl
    rw [List.range'_succ, List.foldl_cons, List.foldl_cons, step]
    obtain ⟨W', ran, recent'⟩ := ih next (fun t low high => same t (by omega) (by omega))
      (sha1Step block v first)
    refine ⟨W', ran, ?_⟩
    rw [Nat.add_right_comm] at recent'
    exact recent'

theorem sha1_process_eq (state : Sha1State) (block : Bytes) :
    sha1_process state block = sha1Compress state block := by
  have whole : List.range 80 =
      List.range' 0 20 ++ List.range' 20 20 ++ List.range' 40 20 ++ List.range' 60 20 := by decide
  obtain ⟨W₁, ran₁, recent₁⟩ := sha1_calls 20 (recent_block block)
    (F := fun x y z => z ^^^ (x &&& (y ^^^ z))) (K := 0x5A827999) (fun t low high => by
      rw [sha1Constant, if_pos (by omega)]
      refine ⟨rfl, fun x y z => ?_⟩
      rw [sha1Function, if_pos (by omega), selects]) state
  obtain ⟨W₂, ran₂, recent₂⟩ := sha1_calls 20 recent₁
    (F := fun x y z => x ^^^ y ^^^ z) (K := 0x6ED9EBA1) (fun t low high => by
      rw [sha1Constant, if_neg (by omega), if_pos (by omega)]
      refine ⟨rfl, fun x y z => ?_⟩
      rw [sha1Function, if_neg (by omega), if_pos (by omega)])
    ((List.range' 0 20).foldl (sha1Step block) state)
  obtain ⟨W₃, ran₃, recent₃⟩ := sha1_calls 20 recent₂
    (F := fun x y z => (x &&& y) ||| (z &&& (x ||| y))) (K := 0x8F1BBCDC) (fun t low high => by
      rw [sha1Constant, if_neg (by omega), if_neg (by omega), if_pos (by omega)]
      refine ⟨rfl, fun x y z => ?_⟩
      rw [sha1Function, if_neg (by omega), if_neg (by omega), if_pos (by omega), majority])
    ((List.range' 20 20).foldl (sha1Step block) ((List.range' 0 20).foldl (sha1Step block) state))
  obtain ⟨W₄, ran₄, -⟩ := sha1_calls 20 recent₃
    (F := fun x y z => x ^^^ y ^^^ z) (K := 0xCA62C1D6) (fun t low high => by
      rw [sha1Constant, if_neg (by omega), if_neg (by omega), if_neg (by omega)]
      refine ⟨rfl, fun x y z => ?_⟩
      rw [sha1Function, if_neg (by omega), if_neg (by omega), if_neg (by omega)])
    ((List.range' 40 20).foldl (sha1Step block) ((List.range' 20 20).foldl (sha1Step block)
      ((List.range' 0 20).foldl (sha1Step block) state)))
  unfold sha1_process sha1Compress
  dsimp only
  rw [ran₁, ran₂, ran₃, ran₄, whole, List.foldl_append, List.foldl_append, List.foldl_append]

theorem sha1_finish_eq {ctx : HashContext Sha1State} {msg : Bytes}
    (taken : Represents sha1_process
      ⟨0x67452301, 0xEFCDAB89, 0x98BADCFE, 0x10325476, 0xC3D2E1F0⟩ ctx msg) :
    sha1_finish ctx = fips180 msg := by
  have same : sha1_process = sha1Compress := funext fun state => funext (sha1_process_eq state)
  unfold sha1_finish
  dsimp only
  rw [finishState_eq taken (fun v => halves_be v) length_be64, same]
  rfl

/-- The same of SHA-1, whose digest is that of FIPS 180. -/
theorem sha1_of_chunks (mem : FreshMem) (chunks : List Bytes)
    (short : ∀ chunk ∈ chunks, chunk.length < 2 ^ 32) :
    sha1_finish (chunks.foldl sha1_update (sha1_starts mem)) = fips180 chunks.flatten ∧
      (chunks.flatten.length < 2 ^ 31 → Hash.sha1 mem chunks.flatten = fips180 chunks.flatten) := by
  have start : Represents sha1_process _ (sha1_starts mem) [] := represents_nil (length_fresh mem)
  constructor
  · exact sha1_finish_eq (represents_updates start short)
  · intro fits
    exact sha1_finish_eq (represents_update start _ (Nat.lt_trans fits (by decide)))

theorem sha1_of_chunks_sample :
    sha1_finish ([[chr 'a'], [chr 'b', chr 'c']].foldl sha1_update (sha1_starts fun _ => 7)) =
        fips180 [chr 'a', chr 'b', chr 'c'] ∧
      (([[chr 'a'], [chr 'b', chr 'c']] : List Bytes).flatten.length < 2 ^ 31 →
        Hash.sha1 (fun _ => 7) [chr 'a', chr 'b', chr 'c'] = fips180 [chr 'a', chr 'b', chr 'c']) :=
  sha1_of_chunks (fun _ => 7) [[chr 'a'], [chr 'b', chr 'c']] (by decide)

example : Hash.sha1 (fun _ => 7) [] = [0xda, 0x39, 0xa3, 0xee, 0x5e, 0x6b, 0x4b, 0x0d, 0x32, 0x55,
    0xbf, 0xef, 0x95, 0x60, 0x18, 0x90, 0xaf, 0xd8, 0x07, 0x09] := by
  decide +kernel

end sha1

end BlmLink.Guarantees.Digests
