import BlmLink.Guarantees.TimerDelay

/-!
# The range of the tick arithmetic

`Time::getTickDiff` and `addTick`, blmbase.cpp:104-105, and `TimerObj::operator<`,
blmcomm.cpp:33-47. `addTimerCallback` takes any `int` as an interval. The sum with the
milliseconds of the tick, and the difference of the seconds times 1000, are `int`
expressions; a negative sum is divided towards zero and leaves negative milliseconds.
`ticks_exact_iff` says for which intervals and which pairs of timers the result is right,
in terms of the exact timeouts; `ticks_overflow` is a timer for which it is not.
-/
namespace BlmLink.Guarantees.TickArithmetic

open BlmLink.Source TimerHeap TimerDelay

/-- A tick as `pj_gettickcount` gives it. -/
structure Tick where
  time : Time
  sec_nonneg : 0 ≤ time.sec.toInt
  msec_nonneg : 0 ≤ time.msec.toInt
  msec_lt : time.msec.toInt < 1000

/-- A timer is set: `addTick` of an interval to a tick. -/
structure Setting where
  now : Tick
  interval : CInt

namespace Setting

def timer (s : Setting) (cb : Callback) : TimerObj := .make s.interval cb s.now.time

/-- The exact timeout in milliseconds. -/
def due (s : Setting) : Int := ms s.now.time + s.interval.toInt

end Setting

/-- Nothing overflows, and the timeout is the exact one with milliseconds in range. -/
structure Exact (s : Setting) : Prop where
  fits : AddFits s.now.time s.interval
  later : ms (s.now.time.addTick s.interval) = s.due
  msec_nonneg : 0 ≤ (s.now.time.addTick s.interval).msec.toInt
  msec_lt : (s.now.time.addTick s.interval).msec.toInt < 1000

/-- The `int` operations of `getTickDiff` and `operator<`, from left to right. -/
structure DiffFits (tv1 tv2 : Time) : Prop where
  seconds : Fits (tv1.sec.toInt - tv2.sec.toInt)
  scaled : Fits ((tv1.sec.toInt - tv2.sec.toInt) * 1000)
  sum : Fits ((tv1.sec.toInt - tv2.sec.toInt) * 1000 + tv1.msec.toInt)
  difference : Fits ((tv1.sec.toInt - tv2.sec.toInt) * 1000 + tv1.msec.toInt - tv2.msec.toInt)

/-- Nothing overflows, and `operator<` is the order of the exact timeouts. -/
structure Compared (s₁ s₂ : Setting) : Prop where
  fits : DiffFits (s₁.now.time.addTick s₁.interval) (s₂.now.time.addTick s₂.interval)
  order : ∀ cb₁ cb₂, (s₁.timer cb₁).lt (s₂.timer cb₂).timeout = true ↔ s₁.due < s₂.due

/-- The interval reaches neither the end of the `int` milliseconds nor that of the `int`
seconds, and does not end inside a second before the one it started from. -/
structure InRange (s : Setting) : Prop where
  sum : s.interval.toInt + s.now.time.msec.toInt < 2 ^ 31
  seconds : s.due < 2 ^ 31 * 1000
  carry : 0 ≤ s.interval.toInt + s.now.time.msec.toInt ∨
    1000 ∣ s.interval.toInt + s.now.time.msec.toInt

/-- The exact timeouts are less than about 24.8 days apart, counted from the whole second
at which the other one begins. -/
structure Comparable (s₁ s₂ : Setting) : Prop where
  above : s₁.due - (s₂.due - s₂.due % 1000) < 2 ^ 31
  below : -2 ^ 31 ≤ s₁.due - s₂.due
  seconds : -2 ^ 31 ≤ (s₁.due - s₁.due % 1000) - (s₂.due - s₂.due % 1000)

theorem addFits_iff (s : Setting) : AddFits s.now.time s.interval ↔
    s.interval.toInt + s.now.time.msec.toInt < 2 ^ 31 ∧ s.due < 2 ^ 31 * 1000 := by
  have sec := s.now.sec_nonneg
  have low := s.now.msec_nonneg
  have high := s.now.msec_lt
  have least := BitVec.le_toInt s.interval
  have most := BitVec.toInt_lt (x := s.now.time.sec)
  have parts := Int.mul_tdiv_add_tmod (s.interval.toInt + s.now.time.msec.toInt) 1000
  have above := Int.tmod_lt_of_pos (s.interval.toInt + s.now.time.msec.toInt) (b := 1000) (by decide)
  have below := Int.lt_tmod_of_pos (s.interval.toInt + s.now.time.msec.toInt) (b := 1000) (by decide)
  have sign : 0 ≤ s.interval.toInt + s.now.time.msec.toInt →
      0 ≤ (s.interval.toInt + s.now.time.msec.toInt).tmod 1000 := Int.tmod_nonneg 1000
  unfold AddFits Fits Setting.due ms
  simp only [Nat.reduceSub] at least most
  constructor
  · rintro ⟨⟨_, sum⟩, _, seconds⟩
    exact ⟨sum, by omega⟩
  · rintro ⟨sum, seconds⟩
    exact ⟨⟨by omega, sum⟩, by omega, by omega⟩

theorem msec_addTick (s : Setting) (fits : AddFits s.now.time s.interval) :
    (s.now.time.addTick s.interval).msec.toInt =
      (s.interval.toInt + s.now.time.msec.toInt).tmod 1000 := by
  simp only [Time.addTick]
  rw [BitVec.toInt_srem, BitVec.add_comm, BitVec.toInt_add, bmod_of_fits fits.1]
  rfl

/-- The remainder towards zero is negative exactly for a negative sum that is no whole
number of seconds. -/
theorem tmod_nonneg_iff (v : Int) : 0 ≤ v.tmod 1000 ↔ 0 ≤ v ∨ 1000 ∣ v := by
  constructor
  · intro nonneg
    by_cases sign : 0 ≤ v
    · exact .inl sign
    · refine .inr (Int.dvd_of_tmod_eq_zero ?_)
      have flipped : (-v).tmod 1000 = -v.tmod 1000 := Int.neg_tmod v 1000
      have other : 0 ≤ (-v).tmod 1000 := Int.tmod_nonneg 1000 (by omega)
      omega
  · rintro (sign | whole)
    · exact Int.tmod_nonneg 1000 sign
    · exact Int.le_of_eq (Int.tmod_eq_zero_of_dvd whole).symm

theorem exact_iff (s : Setting) : Exact s ↔ InRange s := by
  constructor
  · intro exact
    obtain ⟨sum, seconds⟩ := (addFits_iff s).mp exact.fits
    have msec := exact.msec_nonneg
    rw [msec_addTick s exact.fits, tmod_nonneg_iff] at msec
    exact ⟨sum, seconds, msec⟩
  · intro range
    have fits := (addFits_iff s).mpr ⟨range.sum, range.seconds⟩
    refine ⟨fits, ms_addTick fits, ?_, ?_⟩
    · rw [msec_addTick s fits, tmod_nonneg_iff]
      exact range.carry
    · rw [msec_addTick s fits]
      exact Int.tmod_lt_of_pos _ (by decide)

/-- Whole seconds and milliseconds of an exact timeout. -/
theorem Exact.parts {s : Setting} (exact : Exact s) :
    (s.now.time.addTick s.interval).sec.toInt * 1000 = s.due - s.due % 1000 ∧
      (s.now.time.addTick s.interval).msec.toInt = s.due % 1000 := by
  have later := exact.later
  have low := exact.msec_nonneg
  have high := exact.msec_lt
  unfold ms at later
  constructor <;> omega

theorem diffFits_iff {s₁ s₂ : Setting} (first : Exact s₁) (second : Exact s₂) :
    DiffFits (s₁.now.time.addTick s₁.interval) (s₂.now.time.addTick s₂.interval) ↔
      Comparable s₁ s₂ := by
  obtain ⟨sec₁, msec₁⟩ := first.parts
  obtain ⟨sec₂, msec₂⟩ := second.parts
  constructor
  · rintro ⟨_, scaled, sum, difference⟩
    unfold Fits at scaled sum difference
    exact ⟨by omega, by omega, by omega⟩
  · rintro ⟨above, below, seconds⟩
    constructor <;> unfold Fits <;> omega

/-- Two timers with comparable timeouts are compared by their milliseconds. -/
theorem compared_of_fits {s₁ s₂ : Setting} (first : Exact s₁) (second : Exact s₂)
    (fits : DiffFits (s₁.now.time.addTick s₁.interval) (s₂.now.time.addTick s₂.interval)) :
    Compared s₁ s₂ := by
  refine ⟨fits, ?_⟩
  intro cb₁ cb₂
  have value : Fits (ms (s₁.now.time.addTick s₁.interval) - ms (s₂.now.time.addTick s₂.interval)) := by
    have difference := fits.difference
    unfold Fits at difference ⊢
    unfold ms
    omega
  show decide _ = true ↔ _
  rw [decide_eq_true_eq, ← first.later, ← second.later]
  show ((s₁.now.time.addTick s₁.interval).getTickDiff (s₂.now.time.addTick s₂.interval)).toInt < 0 ↔ _
  rw [toInt_getTickDiff_bmod, bmod_of_fits value]
  omega

/-- For all intervals and all ticks: two timers are set and compared without overflow, to
the exact timeouts and in their order, if and only if both intervals are in range and the
timeouts can be compared. -/
theorem ticks_exact_iff (s₁ s₂ : Setting) :
    (Exact s₁ ∧ Exact s₂ ∧ Compared s₁ s₂) ↔
      (InRange s₁ ∧ InRange s₂ ∧ Comparable s₁ s₂) := by
  rw [← exact_iff, ← exact_iff]
  constructor
  · rintro ⟨first, second, compared⟩
    exact ⟨first, second, (diffFits_iff first second).mp compared.fits⟩
  · rintro ⟨first, second, comparable⟩
    exact ⟨first, second, compared_of_fits first second ((diffFits_iff first second).mpr comparable)⟩

/-- The longest interval, from a tick that is not on a whole second. -/
def longest : Setting := ⟨⟨⟨0, 1⟩, by decide, by decide, by decide⟩, 2147483647⟩

/-- `millisec + tv->msec` overflows. -/
theorem ticks_overflow : ¬ ∀ s₁ s₂ : Setting, Exact s₁ ∧ Exact s₂ ∧ Compared s₁ s₂ := by
  intro claim
  have fits := (claim longest longest).1.fits
  exact absurd fits (by decide)

end BlmLink.Guarantees.TickArithmetic
