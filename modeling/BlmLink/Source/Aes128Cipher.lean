import BlmLink.Lib.Cbc
import BlmLink.Source.Bytes

/-!
# `AES128Cipher::doAES128`

blmutil.cpp:96-123 over `aes_crypt_cbc`, polarssl/library/aes.c:773-832. The
block permutation of `aes_crypt_ecb` under the schedules of `aes_setkey_enc` and
`aes_setkey_dec` is a parameter (`AesEcb`); padding, chaining, the fixed zero IV
and the unpadding are the source's. On decryption the source ignores the return
value of `aes_crypt_cbc`, which writes nothing when the length is not a multiple
of 16, and it subtracts whatever the last octet says.
-/
namespace BlmLink.Source

open Lib

/-- `unsigned char[16]`: an AES block, and also the key of an `AES128Cipher`. -/
abbrev Block := { bs : Bytes // bs.length = 16 }

def Block.xor (a b : Block) : Block :=
  ⟨List.zipWith (· ^^^ ·) a.val b.val, by simp [a.property, b.property]⟩

private theorem zipWith_xor_cancel (a b : Bytes) (same : a.length = b.length) :
    List.zipWith (· ^^^ ·) (List.zipWith (· ^^^ ·) a b) b = a := by
  induction a generalizing b with
  | nil => simp
  | cons x rest ih =>
    cases b with
    | nil => simp at same
    | cons y more =>
      simp only [List.zipWith_cons_cons, List.cons.injEq]
      refine ⟨?_, ih more (by simpa using same)⟩
      rw [BitVec.xor_assoc, BitVec.xor_self, BitVec.xor_zero]

theorem Block.xor_cancel (a b : Block) : (a.xor b).xor b = a :=
  Subtype.ext (zipWith_xor_cancel a.val b.val (by rw [a.property, b.property]))

/-- `aes_crypt_ecb` in both directions. Decryption with the schedule of a key
inverts encryption with the schedule of the same key. -/
structure AesEcb where
  enc : Block → Block → Block
  dec : Block → Block → Block
  dec_enc : ∀ key x, dec key (enc key x) = x

/-- The first `n` blocks of a buffer. -/
def blocksOf : Nat → Bytes → List Block
  | 0, _ => []
  | n + 1, bs =>
    if h : (bs.take 16).length = 16 then ⟨bs.take 16, h⟩ :: blocksOf n (bs.drop 16) else []

def joinBlocks (blocks : List Block) : Bytes := blocks.flatMap Subtype.val

@[simp] theorem length_joinBlocks (blocks : List Block) :
    (joinBlocks blocks).length = 16 * blocks.length := by
  induction blocks with
  | nil => rfl
  | cons b rest ih =>
    change (b.val ++ joinBlocks rest).length = 16 * (rest.length + 1)
    simp only [List.length_append, b.property, ih]
    omega

theorem joinBlocks_blocksOf (n : Nat) (bs : Bytes) (whole : bs.length = 16 * n) :
    joinBlocks (blocksOf n bs) = bs := by
  induction n generalizing bs with
  | zero =>
    have empty : bs = [] := List.eq_nil_of_length_eq_zero (by omega)
    simp [blocksOf, joinBlocks, empty]
  | succ n ih =>
    have full : (bs.take 16).length = 16 := by
      rw [List.length_take]
      omega
    have rest := ih (bs.drop 16) (by rw [List.length_drop]; omega)
    simp only [blocksOf, full, ↓reduceDIte]
    change bs.take 16 ++ joinBlocks (blocksOf n (bs.drop 16)) = bs
    rw [rest, List.take_append_drop]

theorem blocksOf_joinBlocks (blocks : List Block) :
    blocksOf blocks.length (joinBlocks blocks) = blocks := by
  induction blocks with
  | nil => rfl
  | cons b rest ih =>
    have head : (b.val ++ joinBlocks rest).take 16 = b.val := List.take_left' b.property
    have tail : (b.val ++ joinBlocks rest).drop 16 = joinBlocks rest := List.drop_left' b.property
    change blocksOf (rest.length + 1) (b.val ++ joinBlocks rest) = b :: rest
    simp only [blocksOf, head, b.property, ↓reduceDIte, tail, ih]

/-- `iv1`: sixteen zero octets, fresh for every call. -/
def iv1 : Block := ⟨List.replicate 16 0, by simp⟩

/-- `aes_crypt_cbc`: `none` is `POLARSSL_ERR_AES_INVALID_INPUT_LENGTH`, with the
output left as it was. -/
def aesCryptCbc (aes : AesEcb) (key : Block) (encrypt : Bool) (iv : Block) (input : Bytes) :
    Option Bytes :=
  if input.length % 16 ≠ 0 then none
  else
    let blocks := blocksOf (input.length / 16) input
    some (joinBlocks (if encrypt then Cbc.encrypt Block.xor (aes.enc key) iv blocks
      else Cbc.decrypt Block.xor (aes.dec key) iv blocks))

/-- `AES128Cipher::doAES128`; `mem` is what the output block `po` holds at first. -/
def doAES128 (aes : AesEcb) (key : Block) (mem : FreshMem) (input : Bytes) (encrypt : Bool) :
    Except Fault Bytes :=
  if input = [] then .ok []
  else if encrypt then
    let paded := 16 - input.length % 16
    let pin := input ++ List.replicate paded (BitVec.ofNat 8 paded)
    .ok ((aesCryptCbc aes key true iv1 pin).getD (mem.bytes pin.length))
  else
    let po := (aesCryptCbc aes key false iv1 input).getD (mem.bytes input.length)
    let paded := (po.getD (input.length - 1) 0).toNat
    if input.length < paded then .error .badRange else .ok (po.take (input.length - paded))

namespace AES128Cipher

variable (aes : AesEcb) (key : Block)

def encrypt (mem : FreshMem) (cont : Bytes) : Except Fault Bytes := doAES128 aes key mem cont true

def decrypt (mem : FreshMem) (cont : Bytes) : Except Fault Bytes := doAES128 aes key mem cont false

/-- Decrypting what chaining makes of a whole number of blocks gives the blocks
back, less the octets the last one counts. -/
theorem decrypt_cbc (mem : FreshMem) (plain cipher : Bytes) (nonempty : plain ≠ [])
    (chained : aesCryptCbc aes key true iv1 plain = some cipher)
    (fits : (plain.getD (plain.length - 1) 0).toNat ≤ plain.length) :
    cipher.length = plain.length ∧ decrypt aes key mem cipher =
      .ok (plain.take (plain.length - (plain.getD (plain.length - 1) 0).toNat)) := by
  unfold aesCryptCbc at chained
  split at chained
  · cases chained
  next whole =>
    have exact16 : plain.length = 16 * (plain.length / 16) := by omega
    simp only [↓reduceIte, Option.some.injEq] at chained
    have parts := joinBlocks_blocksOf _ plain exact16
    generalize blocksOf (plain.length / 16) plain = blocks at chained parts
    subst parts
    subst chained
    have same : (joinBlocks (Cbc.encrypt Block.xor (aes.enc key) iv1 blocks)).length =
        (joinBlocks blocks).length := by simp
    have nonzero : (joinBlocks blocks).length ≠ 0 :=
      fun zero => nonempty (List.eq_nil_of_length_eq_zero zero)
    have undone : aesCryptCbc aes key false iv1
        (joinBlocks (Cbc.encrypt Block.xor (aes.enc key) iv1 blocks)) = some (joinBlocks blocks) := by
      have back := blocksOf_joinBlocks (Cbc.encrypt Block.xor (aes.enc key) iv1 blocks)
      rw [Cbc.length_encrypt] at back
      simp [aesCryptCbc, back, Cbc.decrypt_encrypt _ _ _ (aes.dec_enc key) Block.xor_cancel]
    refine ⟨same, ?_⟩
    have cipherNonempty : joinBlocks (Cbc.encrypt Block.xor (aes.enc key) iv1 blocks) ≠ [] := by
      intro empty
      rw [empty] at same
      exact nonzero same.symm
    simp only [decrypt, doAES128, if_neg cipherNonempty, Bool.false_eq_true, ↓reduceIte, undone,
      Option.getD_some, same, if_neg (Nat.not_lt.mpr fits)]

/-- The padded plaintext is a whole number of blocks, so encryption never falls
back on what the output block held. -/
theorem encrypt_nonempty (mem : FreshMem) (x : Bytes) (nonempty : x ≠ []) :
    ∃ cipher, encrypt aes key mem x = .ok cipher ∧
      aesCryptCbc aes key true iv1 (x ++ List.replicate (16 - x.length % 16)
        (BitVec.ofNat 8 (16 - x.length % 16))) = some cipher := by
  have whole : (x ++ List.replicate (16 - x.length % 16)
      (BitVec.ofNat 8 (16 - x.length % 16) : Byte)).length % 16 = 0 := by
    rw [List.length_append, List.length_replicate]
    omega
  refine ⟨_, ?_, by rw [aesCryptCbc, if_neg (by omega)]⟩
  simp only [encrypt, doAES128, if_neg nonempty, ↓reduceIte, aesCryptCbc, whole, ne_eq,
    not_true_eq_false, Option.getD_some]

/-- Unpadding reads the count that padding wrote, for every length. -/
theorem decrypt_encrypt (mem mem' : FreshMem) (x : Bytes) :
    ∃ cipher, encrypt aes key mem x = .ok cipher ∧ decrypt aes key mem' cipher = .ok x := by
  by_cases empty : x = []
  · subst empty
    exact ⟨[], rfl, rfl⟩
  obtain ⟨cipher, encrypted, chained⟩ := encrypt_nonempty aes key mem x empty
  refine ⟨cipher, encrypted, ?_⟩
  generalize padedEq : 16 - x.length % 16 = paded at chained
  have range : 1 ≤ paded ∧ paded ≤ 16 := by omega
  have last : ((x ++ List.replicate paded (BitVec.ofNat 8 paded : Byte)).getD
      ((x ++ List.replicate paded (BitVec.ofNat 8 paded : Byte)).length - 1) 0).toNat = paded := by
    rw [List.getD_eq_getElem?_getD, List.getElem?_append_right (by simp; omega),
      List.getElem?_replicate, if_pos (by simp; omega)]
    simp only [Option.getD_some, BitVec.toNat_ofNat]
    exact Nat.mod_eq_of_lt (by omega)
  have undone := (decrypt_cbc aes key mem' _ cipher (by simp [empty]) chained
    (by rw [last]; simp)).2
  rw [last] at undone
  simpa using undone

/-- A ciphertext of a nonempty text is nonempty and a whole number of blocks. -/
theorem length_encrypt_nonempty (mem : FreshMem) (x cipher : Bytes) (nonempty : x ≠ [])
    (encrypted : encrypt aes key mem x = .ok cipher) :
    cipher.length = x.length + (16 - x.length % 16) := by
  obtain ⟨cipher', encrypted', chained⟩ := encrypt_nonempty aes key mem x nonempty
  rw [encrypted] at encrypted'
  cases encrypted'
  unfold aesCryptCbc at chained
  split at chained
  · cases chained
  next whole =>
    simp only [↓reduceIte, Option.some.injEq] at chained
    have exact16 : ∀ bs : Bytes, bs.length % 16 = 0 → (blocksOf (bs.length / 16) bs).length =
        bs.length / 16 := by
      intro bs multiple
      have joined := congrArg List.length (joinBlocks_blocksOf (bs.length / 16) bs (by omega))
      rw [length_joinBlocks] at joined
      omega
    rw [← chained, length_joinBlocks, Cbc.length_encrypt, exact16 _ (by omega)]
    simp only [List.length_append, List.length_replicate] at whole ⊢
    omega

end AES128Cipher

end BlmLink.Source
