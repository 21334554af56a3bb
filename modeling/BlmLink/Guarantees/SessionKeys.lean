import BlmLink.Source.UtilFun

/-!
# What `randomBuf` fills

The loop of `randomBuf` runs to the size of a pointer, whatever the size of the buffer. A
buffer of that size is filled; a longer one keeps its last octets as they were, and behind
a shorter one other memory is written (`filled_iff`). The keys of sixteen and thirty-two
octets are longer than a pointer of four or eight, so part of a session key is what the
memory of the object held before (`randomBuf_exact`).
-/
namespace BlmLink.Guarantees.SessionKeys

open BlmLink.Source

section memory

variable (w : Nat) (rand : Nat → Nat) (mem : Memory) (data : Nat) (sz : Int)

theorem randomBuf_apply (a : Nat) :
    randomBuf w rand mem data sz a =
      if data ≤ a ∧ a < data + w then randomByte rand (a - data) else mem a := by
  unfold randomBuf
  induction w with
  | zero =>
    rw [if_neg (by omega)]
    rfl
  | succ w ih =>
    rw [List.range_succ, List.foldl_append, List.foldl_cons, List.foldl_nil, Memory.set]
    by_cases last : a = data + w
    · rw [if_pos last, if_pos (by omega), last, Nat.add_sub_cancel_left]
    · rw [if_neg last, ih]
      by_cases inside : data ≤ a ∧ a < data + w
      · rw [if_pos inside, if_pos (by omega)]
      · rw [if_neg inside, if_neg (by omega)]

theorem randomBuf_inside {i : Nat} (inside : i < w) :
    randomBuf w rand mem data sz (data + i) = randomByte rand i := by
  rw [randomBuf_apply, if_pos (by omega), Nat.add_sub_cancel_left]

theorem randomBuf_behind {i : Nat} (behind : w ≤ i) :
    randomBuf w rand mem data sz (data + i) = mem (data + i) := by
  rw [randomBuf_apply, if_neg (by omega)]

end memory

/-- Octet `i` of the buffer is output `i` modulo 256, and no other octet is changed. -/
structure Filled (rand : Nat → Nat) (mem mem' : Memory) (data : Nat) (sz : Int) : Prop where
  inside : ∀ i : Nat, (i : Int) < sz → mem' (data + i) = randomByte rand i
  outside : ∀ a, (∀ i : Nat, (i : Int) < sz → a ≠ data + i) → mem' a = mem a

section fill

variable {w : Nat} {rand : Nat → Nat} {mem : Memory} {data : Nat} {sz : Int}

theorem filled_of_size (size : sz.toNat = w) :
    Filled rand mem (randomBuf w rand mem data sz) data sz where
  inside := fun i below => randomBuf_inside w rand mem data sz (by omega)
  outside := by
    intro a other
    rw [randomBuf_apply, if_neg]
    intro inside
    exact other (a - data) (by omega) (by omega)

/-- A buffer longer than a pointer keeps the octet behind the first `w`. -/
theorem not_filled_long (long : (w : Int) < sz) (differs : mem (data + w) ≠ randomByte rand w) :
    ¬ Filled rand mem (randomBuf w rand mem data sz) data sz := by
  intro filled
  have set := filled.inside w long
  rw [randomBuf_behind w rand mem data sz (Nat.le_refl w)] at set
  exact differs set

/-- Behind a shorter one the next octet is written. -/
theorem not_filled_short (short : sz.toNat < w)
    (differs : mem (data + sz.toNat) ≠ randomByte rand sz.toNat) :
    ¬ Filled rand mem (randomBuf w rand mem data sz) data sz := by
  intro filled
  have kept := filled.outside (data + sz.toNat) (fun i below same => by omega)
  rw [randomBuf_inside w rand mem data sz short] at kept
  exact differs kept.symm

end fill

theorem filled_iff (w : Nat) (sz : Int) :
    (∀ rand mem data, Filled rand mem (randomBuf w rand mem data sz) data sz) ↔
      sz.toNat = w := by
  constructor
  · intro filled
    have always := filled (fun _ => 0) (fun _ => 1) 0
    rcases Nat.lt_trichotomy sz.toNat w with short | same | long
    · exact absurd always (not_filled_short short (by simp [randomByte]))
    · exact same
    · exact absurd always (not_filled_long (by omega) (by simp [randomByte]))
  · intro size rand mem data
    exact filled_of_size size

/-- The key that a constructor leaves is the same in any two runs with the same outputs,
wherever the object is and whatever the memory held. -/
def Reproducible (key : (Nat → Nat) → Memory → Nat → Bytes) : Prop :=
  ∀ rand mem mem' address address', key rand mem address = key rand mem' address'

/-- The key of a constructor that calls `randomBuf(key, n)`. -/
theorem reproducible_iff (w n : Nat) :
    Reproducible (fun rand mem key => (randomBuf w rand mem key n).read key n) ↔ n ≤ w := by
  constructor
  · intro same
    by_contra shorter
    have keys := same (fun _ => 0) (fun _ => 0) (fun _ => 1) 0 0
    have octet := congrArg (·[w]?) keys
    have inside : w < n := by omega
    simp only [Memory.read, List.getElem?_map, List.getElem?_range inside, Option.map_some,
      Option.some.injEq, randomBuf_behind _ _ _ _ _ (Nat.le_refl w)] at octet
    exact absurd octet (by decide)
  · intro covered rand mem mem' address address'
    refine List.map_congr_left fun i member => ?_
    have below : i < w := Nat.lt_of_lt_of_le (List.mem_range.mp member) covered
    rw [randomBuf_inside _ _ _ _ _ below, randomBuf_inside _ _ _ _ _ below]

/-- `randomBuf` fills buffers of the size of a pointer and no others; the key of an
`AES128Cipher` or an `RC4` is the outputs of `rand()` only if a pointer is as long. -/
theorem randomBuf_exact (w : Nat) :
    (∀ sz : Int, (∀ rand mem data, Filled rand mem (randomBuf w rand mem data sz) data sz) ↔
        sz.toNat = w) ∧
      (Reproducible (AES128Cipher.defaultKey w) ↔ 16 ≤ w) ∧
      (Reproducible (RC4.defaultKey w) ↔ 32 ≤ w) :=
  ⟨filled_iff w, reproducible_iff w 16, reproducible_iff w 32⟩

/-- With pointers of eight octets the second half of an AES key is not written. -/
theorem aesKey_unwritten :
    ¬ Filled (fun _ => 0) (fun _ => 1) (randomBuf 8 (fun _ => 0) (fun _ => 1) 0 16) 0 16 ∧
      AES128Cipher.defaultKey 8 (fun _ => 0) (fun _ => 0) 0 ≠
        AES128Cipher.defaultKey 8 (fun _ => 0) (fun _ => 1) 0 := by
  refine ⟨not_filled_long (by decide) (by decide), by decide⟩

end BlmLink.Guarantees.SessionKeys
