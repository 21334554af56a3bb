import Mathlib
import BlmLink.Source.Aes128Cipher
import BlmLink.Source.Base64
import BlmLink.Source.Zlib

/-!
# Which results contain uninitialised memory

`Zlib`, `Base64` and `AES128Cipher` build their results from a block made with
`new` and a length, also when the library call failed and wrote nothing. For each
function the inputs on which its result does not depend on what the block held at
first are determined exactly (`fresh_memory_unread_iff`). The others are inputs a
peer can choose: octets that are no zlib stream, text that is not base64, and
ciphertext of a length that is no multiple of 16.
-/
namespace BlmLink.Guarantees.FreshMemory

open BlmLink.Source

/-- The result is the same whatever the fresh output block held. -/
def Unread {α : Type} (run : FreshMem → α) : Prop := ∀ mem mem', run mem = run mem'

/-- A block that is read somewhere can be told apart. -/
theorem bytes_differ {n : Nat} (positive : 0 < n) :
    FreshMem.bytes (fun _ => 0) n ≠ FreshMem.bytes (fun _ => 1) n := by
  intro same
  have heads := congrArg List.head? same
  obtain ⟨m, rfl⟩ := Nat.exists_eq_succ_of_ne_zero (Nat.ne_of_gt positive)
  simp [FreshMem.bytes, List.range_succ_eq_map] at heads

section zlib

variable {call : Nat → ZRet} {start : Nat}

/-- The capacities before the last one were too small. -/
theorem growLoop_first {fuel reslen : Nat} {ret : ZRet}
    (ended : Zlib.growLoop call fuel start = .ok (reslen, ret)) :
    ∃ k, reslen = start * 2 ^ k ∧ ∀ j < k, call (start * 2 ^ j) = .bufError := by
  induction fuel generalizing start with
  | zero => cases ended
  | succ fuel ih =>
    unfold Zlib.growLoop at ended
    split at ended
    next small =>
      obtain ⟨k, grown, before⟩ := ih ended
      refine ⟨k + 1, ?_, ?_⟩
      · rw [grown, Nat.pow_succ, Nat.mul_assoc, Nat.mul_comm 2]
      · intro j below
        cases j with
        | zero => rwa [Nat.pow_zero, Nat.mul_one]
        | succ j =>
          have earlier := before j (by omega)
          rwa [Nat.mul_assoc, Nat.mul_comm 2, ← Nat.pow_succ] at earlier
    · cases ended
      exact ⟨0, by simp, by simp⟩

theorem growLoop_of_first {k : Nat} {ret : ZRet}
    (before : ∀ j < k, call (start * 2 ^ j) = .bufError) (answer : call (start * 2 ^ k) = ret)
    (settled : ret ≠ .bufError) : Zlib.growLoop call (k + 1) start = .ok (start * 2 ^ k, ret) := by
  induction k generalizing start with
  | zero =>
    rw [Nat.pow_zero, Nat.mul_one] at answer ⊢
    unfold Zlib.growLoop
    rw [answer]
    cases ret with
    | bufError => exact absurd rfl settled
    | ok out => rfl
    | error code => rfl
  | succ k ih =>
    have doubled : ∀ j, start * 2 * 2 ^ j = start * 2 ^ (j + 1) := by
      intro j
      rw [Nat.mul_assoc, Nat.mul_comm 2, ← Nat.pow_succ]
    have small : call start = .bufError := by
      simpa using before 0 (Nat.succ_pos k)
    have rest : Zlib.growLoop call (k + 1) (start * 2) = .ok (start * 2 * 2 ^ k, ret) :=
      ih (fun j below => by rw [doubled]; exact before (j + 1) (by omega))
        (by rw [doubled]; exact answer)
    unfold Zlib.growLoop
    rw [small, ← doubled]
    exact rest

/-- No capacity the loop comes to is answered with an error other than `Z_BUF_ERROR`. -/
def NeverFails (call : Nat → ZRet) (start : Nat) : Prop :=
  ∀ k code, (∀ j < k, call (start * 2 ^ j) = .bufError) → call (start * 2 ^ k) ≠ .error code

theorem grow_unread_iff :
    (∀ fuel, Unread fun mem => (Zlib.growLoop call fuel start).map (Zlib.takeResult mem)) ↔
      start = 0 ∨ NeverFails call start := by
  constructor
  · intro unread
    by_contra failing
    obtain ⟨positive, failing⟩ := not_or.mp failing
    simp only [NeverFails, not_forall, not_not] at failing
    obtain ⟨k, code, before, answer⟩ := failing
    have same := unread (k + 1) (fun _ => 0) (fun _ => 1)
    simp only [growLoop_of_first before answer (by simp), Except.map, Except.ok.injEq] at same
    exact bytes_differ (Nat.mul_pos (Nat.pos_of_ne_zero positive) (Nat.two_pow_pos k)) same
  · intro condition fuel mem mem'
    cases ended : Zlib.growLoop call fuel start with
    | error reason => rfl
    | ok result =>
      obtain ⟨reslen, ret⟩ := result
      obtain ⟨answer, settled, -⟩ := Zlib.growLoop_ok _ _ _ _ _ ended
      obtain ⟨k, grown, before⟩ := growLoop_first ended
      cases ret with
      | ok out => rfl
      | bufError => exact absurd rfl settled
      | error code =>
        rcases condition with rfl | never
        · rw [Nat.zero_mul] at grown
          subst grown
          rfl
        · exact absurd (grown ▸ answer) (never k code before)

end zlib

section aes

/-- A ciphertext that is no whole number of blocks is not decrypted at all. -/
theorem decrypt_ragged (aes : AesEcb) (key : Block) (data : Bytes) (part : data.length % 16 ≠ 0)
    (mem : FreshMem) : AES128Cipher.decrypt aes key mem data =
      if data.length < (mem (data.length - 1)).toNat then .error .badRange
      else .ok ((mem.bytes data.length).take (data.length - (mem (data.length - 1)).toNat)) := by
  have nonempty : data ≠ [] := by
    intro empty
    simp [empty] at part
  have last : (mem.bytes data.length).getD (data.length - 1) 0 = mem (data.length - 1) := by
    have inside : data.length - 1 < data.length := by
      have := List.length_pos_iff.mpr nonempty
      omega
    simp [FreshMem.bytes, inside]
  simp only [AES128Cipher.decrypt, doAES128, if_neg nonempty, Bool.false_eq_true, if_false,
    aesCryptCbc, if_pos part, Option.getD_none, last]

theorem decrypt_unread_iff (aes : AesEcb) (key : Block) (data : Bytes) :
    (Unread fun mem => AES128Cipher.decrypt aes key mem data) ↔ data.length % 16 = 0 := by
  constructor
  · intro unread
    by_contra part
    have positive : ¬ data.length < (1 : Byte).toNat := by
      rw [show (1 : Byte).toNat = 1 from rfl]
      omega
    have same := unread (fun _ => 0) (fun _ => 1)
    simp only [decrypt_ragged aes key data part] at same
    rw [if_neg (by simp), if_neg positive] at same
    have lengths := congrArg List.length (Except.ok.inj same)
    simp only [List.length_take, FreshMem.length_bytes, show (1 : Byte).toNat = 1 from rfl,
      show (0 : Byte).toNat = 0 from rfl] at lengths
    omega
  · intro whole mem mem'
    simp only [AES128Cipher.decrypt, doAES128, aesCryptCbc, whole]
    rfl

end aes

section base64

/-- A library call that set the length to what it wrote. -/
theorem result_written {size : Nat} {called : Base64Ret} {out more : Bytes}
    (wrote : called.written = out ++ more) (len : called.dlen = out.length) (mem beyond : FreshMem) :
    base64Result size mem beyond called = out := by
  simp only [base64Result, wrote, len, List.append_assoc, List.take_left]

/-- A library call that wrote nothing. -/
theorem result_unwritten {size : Nat} {called : Base64Ret} (none : called.written = [])
    (positive : 0 < size) (some : 0 < called.dlen) (beyond : FreshMem) :
    ¬ Unread fun mem => base64Result size mem beyond called := by
  intro unread
  have same := congrArg List.head? (unread (fun _ => 0) (fun _ => 1))
  obtain ⟨n, rfl⟩ := Nat.exists_eq_succ_of_ne_zero (Nat.ne_of_gt positive)
  obtain ⟨m, len⟩ := Nat.exists_eq_succ_of_ne_zero (Nat.ne_of_gt some)
  simp [base64Result, none, len, FreshMem.bytes, List.range_succ_eq_map] at same

theorem encodedLength_le {n : Nat} (two : 2 ≤ n) : encodedLength n + 1 ≤ n * 2 + 2 := by
  simp only [encodedLength]
  split <;> omega

theorem encode_unread_iff (data : Bytes) :
    (∀ beyond, Unread fun mem => Base64.encode mem beyond data) ↔ 2 ≤ data.length := by
  constructor
  · intro unread
    by_contra short
    have called : (base64_encode (data.length * 2 + 2) data).written = [] ∧
        0 < (base64_encode (data.length * 2 + 2) data).dlen := by
      unfold base64_encode
      split
      · exact ⟨rfl, Nat.succ_pos _⟩
      · have one : data.length = 1 := by omega
        rw [one, if_pos (by decide)]
        exact ⟨rfl, by decide⟩
    exact result_unwritten called.1 (Nat.succ_pos _) called.2 (fun _ => 0) (unread fun _ => 0)
  · intro two beyond mem mem'
    have fits := encodedLength_le two
    have called : base64_encode (data.length * 2 + 2) data =
        ⟨0, (encodeGroups data).length, encodeGroups data ++ [0]⟩ := by
      unfold base64_encode
      rw [if_neg (by omega), if_neg (by omega)]
    simp only [Base64.encode, called]
    rw [result_written rfl rfl, result_written rfl rfl]

/-- The characters that count: all but the line breaks. -/
def significant (data : Bytes) : Bytes := data.filter fun c => c ≠ chr '\r' ∧ c ≠ chr '\n'

/-- Every carriage return stands before a line feed. -/
def Paired : Bytes → Prop
  | [] => True
  | c :: src => (c = chr '\r' → src.head? = some (chr '\n')) ∧ Paired src

/-- Letters of the base64 alphabet and then `=`, at most two with the `j` that came before;
after one of these no letter. -/
def Padded (j : Nat) (text : Bytes) : Prop :=
  ∃ letters pads, text = letters ++ List.replicate pads (chr '=') ∧
    (∀ c ∈ letters, c ∈ base64_enc_map) ∧ j + pads ≤ 2 ∧ (j ≠ 0 → letters = [])

/-- Base64 text: line breaks, letters and at most two `=` at the end. -/
def IsText (data : Bytes) : Prop := Paired data ∧ Padded 0 (significant data)

/-- The codes of the letters, in the order of their values. -/
def letterCodes : List Nat :=
  List.range' 65 26 ++ List.range' 97 26 ++ List.range' 48 10 ++ [43, 47]

theorem enc_map_codes : base64_enc_map = letterCodes.map (BitVec.ofNat 8) := rfl

theorem code_small : ∀ n ∈ letterCodes, n ≤ 127 ∧ base64_dec_map.getD n 127 < 64 := by decide

theorem code_cases : ∀ n < 128, base64_dec_map.getD n 127 = 127 ∨
    (base64_dec_map.getD n 127 < 64 ∧ n ∈ letterCodes) ∨
    (base64_dec_map.getD n 127 = 64 ∧ n = 61) := by
  decide

theorem letter_decVal {c : Byte} (letter : c ∈ base64_enc_map) : c.toNat ≤ 127 ∧ decVal c < 64 := by
  rw [enc_map_codes, List.mem_map] at letter
  obtain ⟨n, code, rfl⟩ := letter
  have value := code_small n code
  rw [decVal, BitVec.toNat_ofNat, Nat.mod_eq_of_lt (by omega)]
  exact value

/-- What the table says of a character that `scan` does not skip. -/
theorem char_cases (c : Byte) : (127 < c.toNat ∨ decVal c = 127) ∨
    (c.toNat ≤ 127 ∧ decVal c < 64 ∧ c ∈ base64_enc_map) ∨ c = chr '=' := by
  by_cases high : 127 < c.toNat
  · exact .inl (.inl high)
  · have same : BitVec.ofNat 8 c.toNat = c := by simp
    rcases code_cases c.toNat (by omega) with none | ⟨small, code⟩ | ⟨-, pad⟩
    · exact .inl (.inr none)
    · refine .inr (.inl ⟨by omega, small, ?_⟩)
      rw [enc_map_codes, List.mem_map]
      exact ⟨c.toNat, code, same⟩
    · right
      right
      rw [← same, pad]
      rfl

theorem pad_not_letter : chr '=' ∉ base64_enc_map := by
  intro letter
  exact absurd (letter_decVal letter).2 (by decide)

/-- A text that begins with `c` begins with a letter or with `=`. -/
theorem padded_cons {j : Nat} {c : Byte} {text : Bytes} :
    Padded j (c :: text) ↔ (c ∈ base64_enc_map ∧ j = 0 ∧ Padded 0 text) ∨
      (c = chr '=' ∧ j + 1 ≤ 2 ∧ Padded (j + 1) text) := by
  constructor
  · rintro ⟨letters, pads, split, alphabet, few, first⟩
    cases letters with
    | nil =>
      cases pads with
      | zero => cases split
      | succ pads =>
        cases split
        exact .inr ⟨rfl, by omega, [], pads, rfl, by simp, by omega, by simp⟩
    | cons letter letters =>
      cases split
      have none : j = 0 := by
        by_contra nonzero
        cases first nonzero
      subst none
      have rest : ∀ c ∈ letters, c ∈ base64_enc_map :=
        fun c member => alphabet c (List.mem_cons_of_mem _ member)
      exact .inl ⟨alphabet c List.mem_cons_self, rfl, letters, pads, rfl, rest, few, by simp⟩
  · rintro (⟨letter, rfl, letters, pads, rfl, alphabet, few, -⟩ |
      ⟨rfl, few, letters, pads, rfl, alphabet, few', first⟩)
    · refine ⟨c :: letters, pads, rfl, ?_, few, by simp⟩
      intro c' member
      rcases List.mem_cons.mp member with rfl | member
      · exact letter
      · exact alphabet c' member
    · cases first (Nat.succ_ne_zero j)
      exact ⟨[], pads + 1, rfl, by simp, by omega, by simp⟩

theorem significant_skip {c : Byte} {src : Bytes} (break' : c = chr '\r' ∨ c = chr '\n') :
    significant (c :: src) = significant src := by
  unfold significant
  rcases break' with rfl | rfl <;> rfl

theorem significant_keep {c : Byte} {src : Bytes} (cr : c ≠ chr '\r') (lf : c ≠ chr '\n') :
    significant (c :: src) = c :: significant src := by
  unfold significant
  rw [List.filter_cons_of_pos (by simp [cr, lf])]

/-- One turn of the first loop on a character it does not skip. -/
theorem scan_char {j n : Nat} {c : Byte} {src : Bytes} (few : j ≤ 2)
    (cr : ¬ (c = chr '\r' ∧ src.head? = some (chr '\n'))) (lf : c ≠ chr '\n') :
    scan j n (c :: src) =
      if c = chr '=' then if j + 1 ≤ 2 then scan (j + 1) (n + 1) src else none
      else if c ∈ base64_enc_map ∧ j = 0 then scan 0 (n + 1) src else none := by
  have small : ¬ 2 < j := by omega
  rw [scan, if_neg cr, if_neg lf]
  rcases char_cases c with invalid | ⟨low, value, letter⟩ | rfl
  · have notPad : c ≠ chr '=' := by
      rintro rfl
      exact absurd invalid (by decide)
    have notLetter : ¬ (c ∈ base64_enc_map ∧ j = 0) := by
      rintro ⟨letter, -⟩
      obtain ⟨low, value⟩ := letter_decVal letter
      omega
    simp only [if_neg notPad, if_neg notLetter, if_neg small, if_pos invalid]
  · have notPad : c ≠ chr '=' := by
      rintro rfl
      exact pad_not_letter letter
    have valid : ¬ (127 < c.toNat ∨ decVal c = 127) := by omega
    simp only [if_neg notPad, if_neg small, if_neg valid, value, letter, true_and]
    by_cases none : j = 0
    · simp [none]
    · simp [none]
  · have valid : ¬ (127 < (chr '=').toNat ∨ decVal (chr '=') = 127) := by decide
    have notLetter : ¬ decVal (chr '=') < 64 := by decide
    simp only [if_pos, if_neg valid, notLetter, false_and, if_false]
    by_cases more : j + 1 ≤ 2
    · rw [if_pos more, if_neg (by omega)]
    · rw [if_neg more, if_pos (by omega)]

/-- The first loop accepts base64 text, and counts what is no line break. -/
theorem scan_iff (data : Bytes) (j n m : Nat) (few : j ≤ 2) :
    scan j n data = some m ↔
      (Paired data ∧ Padded j (significant data)) ∧ m = n + (significant data).length := by
  induction data generalizing j n with
  | nil =>
    have padded : Padded j [] := ⟨[], 0, rfl, by simp, few, by simp⟩
    simp only [scan, Paired, significant, List.filter_nil, padded, Option.some.injEq]
    simp [eq_comm]
  | cons c src ih =>
    by_cases lf : c = chr '\n'
    · have notCr : c ≠ chr '\r' := by
        rw [lf]
        decide
      unfold Paired
      rw [scan, significant_skip (.inr lf), if_neg (by simp [notCr]), if_pos lf, ih j n few]
      simp [notCr]
    · by_cases cr : c = chr '\r'
      · unfold Paired
        rw [significant_skip (.inl cr)]
        by_cases next : src.head? = some (chr '\n')
        · rw [scan, if_pos ⟨cr, next⟩, ih j n few]
          simp [next]
        · have notPad : c ≠ chr '=' := by
            rw [cr]
            decide
          have notLetter : c ∉ base64_enc_map := by
            intro letter
            have value := (letter_decVal letter).2
            rw [cr] at value
            exact absurd value (by decide)
          rw [scan_char few (by simp [next]) lf, if_neg notPad, if_neg (by simp [notLetter])]
          simp [cr, next]
      · have count : n + (c :: significant src).length = n + 1 + (significant src).length := by
          rw [List.length_cons]
          omega
        have paired : Paired (c :: src) ↔ Paired src := by simp [Paired, cr]
        rw [scan_char few (by simp [cr]) lf, significant_keep cr lf, padded_cons, count, paired]
        by_cases pad : c = chr '='
        · rw [if_pos pad]
          by_cases more : j + 1 ≤ 2
          · rw [if_pos more, ih (j + 1) (n + 1) more]
            simp [pad, pad_not_letter, more]
          · rw [if_neg more]
            simp [pad, pad_not_letter, more]
        · rw [if_neg pad]
          by_cases letter : c ∈ base64_enc_map ∧ j = 0
          · obtain ⟨letter, rfl⟩ := letter
            rw [if_pos ⟨letter, rfl⟩, ih 0 (n + 1) (by omega)]
            simp [pad, letter]
          · rw [if_neg letter]
            simp only [pad, false_and, or_false, ← and_assoc, letter, and_false]
            simp

theorem significant_length_le (data : Bytes) : (significant data).length ≤ data.length :=
  List.length_filter_le _ _

theorem decode_unread_iff (data : Bytes) :
    (∀ beyond, Unread fun mem => Base64.decode mem beyond data) ↔
      IsText data ∧ significant data ≠ [] := by
  constructor
  · intro unread
    by_contra invalid
    have called : (base64_decode (data.length + 2) data).written = [] ∧
        0 < (base64_decode (data.length + 2) data).dlen := by
      unfold base64_decode
      split
      · exact ⟨rfl, Nat.succ_pos _⟩
      · exact ⟨rfl, Nat.succ_pos _⟩
      next n positive scanned =>
        obtain ⟨text, count⟩ := (scan_iff data 0 0 n (by omega)).mp scanned
        have some : significant data ≠ [] := by
          intro none
          rw [none] at count
          exact positive count
        exact absurd ⟨text, some⟩ invalid
    exact result_unwritten called.1 (Nat.succ_pos _) called.2 (fun _ => 0) (unread fun _ => 0)
  · rintro ⟨text, some⟩ beyond mem mem'
    have scanned := (scan_iff data 0 0 _ (by omega)).mpr ⟨text, rfl⟩
    have called : base64_decode (data.length + 2) data =
        ⟨0, (decodeLoop 3 0 0 data).length, decodeLoop 3 0 0 data⟩ := by
      have bound := significant_length_le data
      have positive := List.length_pos_iff.mpr some
      obtain ⟨n, count⟩ := Nat.exists_eq_succ_of_ne_zero (Nat.ne_of_gt positive)
      unfold base64_decode
      rw [scanned, Nat.zero_add, count]
      exact if_neg (by omega)
    simp only [Base64.decode, called]
    rw [result_written (List.append_nil _).symm rfl, result_written (List.append_nil _).symm rfl]

end base64

end BlmLink.Guarantees.FreshMemory
