import Mathlib
import BlmLink.Guarantees.FreshMemory

/-!
# Padding of `AES128Cipher`

What was encrypted is decrypted to itself, whatever its length and its last octets
(`round_trip`). Decryption itself checks nothing: it takes the last octet of its output block
as the number of octets to leave out. That octet is one of the decrypted blocks only if the
length is a multiple of sixteen, and it is a padding count only if it is between 1 and 16
(`decrypt_sound_iff`); otherwise more octets are cut off than a block has, or none, or the
end of the result lies before its start.

Lengths are natural numbers, so the sizes computed from them do not overflow.
-/
namespace BlmLink.Guarantees.CipherPadding

open BlmLink.Lib BlmLink.Source

section decryption

variable (aes : AesEcb) (key : Block)

/-- Decryption of `data` rejects it, as it does the empty string, or takes between 1 and 16
octets off the end of the decrypted blocks. -/
def Sound (data : Bytes) : Prop :=
  data = [] ∨ ∀ mem, ∃ po paded, aesCryptCbc aes key false iv1 data = some po ∧
    1 ≤ paded ∧ paded ≤ min 16 data.length ∧
    AES128Cipher.decrypt aes key mem data = .ok (po.take (data.length - paded))

/-- The last octet that a ciphertext stands for: of its last block, decrypted, mixed with the
block before it or the zero IV. -/
def lastOctet (blocks : List Block) : Byte :=
  ((aes.dec key (blocks.getLast?.getD iv1)).xor (blocks.dropLast.getLast?.getD iv1)).val.getD 15 0

theorem cbc_decrypt_append (iv : Block) (blocks : List Block) (last : Block) :
    Cbc.decrypt Block.xor (aes.dec key) iv (blocks ++ [last]) =
      Cbc.decrypt Block.xor (aes.dec key) iv blocks ++
        [(aes.dec key last).xor (blocks.getLast?.getD iv)] := by
  induction blocks generalizing iv with
  | nil => rfl
  | cons first blocks ih =>
    rw [List.cons_append, Cbc.decrypt, Cbc.decrypt, ih, List.getLast?_cons]
    rfl

theorem joinBlocks_last (blocks : List Block) (last : Block) :
    (joinBlocks (blocks ++ [last])).getD (16 * (blocks.length + 1) - 1) 0 = last.val.getD 15 0 := by
  have joined : joinBlocks (blocks ++ [last]) = joinBlocks blocks ++ last.val := by
    simp [joinBlocks]
  have place : 16 * (blocks.length + 1) - 1 = (joinBlocks blocks).length + 15 := by
    rw [length_joinBlocks]
    omega
  rw [joined, place, List.getD_eq_getElem?_getD, List.getD_eq_getElem?_getD,
    List.getElem?_append_right (Nat.le_add_right _ _), Nat.add_sub_cancel_left]

theorem lastOctet_eq {blocks : List Block} (present : blocks ≠ []) :
    (joinBlocks (Cbc.decrypt Block.xor (aes.dec key) iv1 blocks)).getD (16 * blocks.length - 1) 0 =
      lastOctet aes key blocks := by
  obtain ⟨init, last, rfl⟩ := (List.eq_nil_or_concat blocks).resolve_left present
  rw [List.concat_eq_append]
  rw [cbc_decrypt_append, List.length_append, List.length_singleton]
  have length : (Cbc.decrypt Block.xor (aes.dec key) iv1 init).length = init.length :=
    Cbc.length_decrypt Block.xor (aes.dec key) iv1 init
  rw [← length, joinBlocks_last]
  simp [lastOctet]

/-- The blocks of a ciphertext. -/
def cipherBlocks (data : Bytes) : List Block := blocksOf (data.length / 16) data

theorem length_cipherBlocks {data : Bytes} (whole : data.length % 16 = 0) :
    16 * (cipherBlocks data).length = data.length := by
  have joined := congrArg List.length
    (joinBlocks_blocksOf (data.length / 16) data (by omega))
  rw [length_joinBlocks] at joined
  exact joined

/-- Decryption of whole blocks: the last octet is taken for the count, whatever it is. -/
theorem decrypt_whole {data : Bytes} (present : data ≠ []) (whole : data.length % 16 = 0)
    (mem : FreshMem) :
    ∃ po, aesCryptCbc aes key false iv1 data = some po ∧ po.length = data.length ∧
      AES128Cipher.decrypt aes key mem data =
        if data.length < (lastOctet aes key (cipherBlocks data)).toNat then .error .badRange
        else .ok (po.take (data.length - (lastOctet aes key (cipherBlocks data)).toNat)) := by
  have length := length_cipherBlocks whole
  have nonempty : cipherBlocks data ≠ [] := by
    intro none
    rw [none] at length
    exact present (List.eq_nil_of_length_eq_zero length.symm)
  have decrypted : aesCryptCbc aes key false iv1 data =
      some (joinBlocks (Cbc.decrypt Block.xor (aes.dec key) iv1 (cipherBlocks data))) := by
    rw [aesCryptCbc, if_neg (by simpa using whole)]
    rfl
  refine ⟨_, decrypted, ?_, ?_⟩
  · rw [length_joinBlocks, Cbc.length_decrypt, length]
  · simp only [AES128Cipher.decrypt, doAES128, if_neg present, Bool.false_eq_true, if_false, decrypted,
      Option.getD_some]
    rw [← length, lastOctet_eq aes key nonempty]

theorem whole_of_sound {data : Bytes} (sound : Sound aes key data) : data.length % 16 = 0 := by
  rcases sound with rfl | sound
  · rfl
  · obtain ⟨po, _, decrypted, _⟩ := sound fun _ => 0
    by_contra part
    rw [aesCryptCbc, if_pos part] at decrypted
    cases decrypted

/-- Decryption of any input is sound if and only if the input is empty or a whole number of
blocks whose last octet is a padding count. -/
theorem decrypt_sound_iff (data : Bytes) :
    Sound aes key data ↔ data = [] ∨ (data.length % 16 = 0 ∧
      1 ≤ (lastOctet aes key (cipherBlocks data)).toNat ∧
      (lastOctet aes key (cipherBlocks data)).toNat ≤ 16) := by
  by_cases empty : data = []
  · simp [Sound, empty]
  by_cases whole : data.length % 16 = 0
  · have long : 16 ≤ data.length := by
      have positive := List.length_pos_iff.mpr empty
      omega
    simp only [Sound, empty, whole, false_or, true_and]
    constructor
    · intro sound
      obtain ⟨po, paded, decrypted, one, bound, result⟩ := sound fun _ => 0
      obtain ⟨po', decrypted', length, result'⟩ := decrypt_whole aes key empty whole fun _ => 0
      rw [decrypted, Option.some.injEq] at decrypted'
      subst decrypted'
      rw [result] at result'
      split at result'
      · cases result'
      · -- The lengths of the two prefixes say which count was subtracted.
        have lengths := congrArg List.length (Except.ok.inj result')
        rw [List.length_take, List.length_take] at lengths
        omega
    · intro count mem
      obtain ⟨po, decrypted, _, result⟩ := decrypt_whole aes key empty whole mem
      refine ⟨po, _, decrypted, count.1, by omega, ?_⟩
      rw [result, if_neg (by omega)]
  · simp only [empty, whole, false_or, false_and, iff_false]
    exact fun sound => whole (whole_of_sound aes key sound)

/-- One octet is no block: `aes_crypt_cbc` writes nothing, and the count is what the fresh
output block held. -/
theorem unchecked_count :
    (¬ ∃ (aes : AesEcb) (key : Block), Sound aes key [0x2a]) ∧
      ∀ (aes : AesEcb) (key : Block),
        AES128Cipher.decrypt aes key (fun _ => 0xff) [0x2a] = .error .badRange := by
  refine ⟨?_, fun aes key => ?_⟩
  · rintro ⟨aes, key, sound⟩
    exact absurd (whole_of_sound aes key sound) (by decide)
  · rw [FreshMemory.decrypt_ragged aes key [0x2a] (by decide)]
    rfl

end decryption

end BlmLink.Guarantees.CipherPadding
