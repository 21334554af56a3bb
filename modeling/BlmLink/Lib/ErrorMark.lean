import Mathlib

/-!
# Computations that leave a mark when they return nothing

The convention of a variable beside the result: a computation that returns nothing is
expected to have left its reason there, and one that returns a value to have left the
variable alone. Nothing in the computation itself enforces it, since the caller of one
that returned nothing returns nothing as well and sets no mark of its own. `Honest` is
the convention with a postcondition on the value, and `Follows` says that a computation
answers as one in which the failure carries the reason. One rule for each way the models
are composed.
-/
namespace BlmLink.Lib

variable {φ ε δ α β : Type}

/-- What is returned, if anything, and the mark afterwards. -/
def Marking (φ ε α : Type) := (mark : Option ε) → Except φ (Option α × Option ε)

namespace Marking

def ret (value : α) : Marking φ ε α := fun mark => .ok (some value, mark)

/-- Leaves the reason and returns nothing. -/
def fail (reason : ε) : Marking φ ε α := fun _ => .ok (none, some reason)

/-- The run ends altogether. -/
def fault (stop : φ) : Marking φ ε α := fun _ => .error stop

/-- Continues with the value; without one, returns nothing and sets nothing. -/
def andThen (x : Marking φ ε α) (f : α → Marking φ ε β) : Marking φ ε β := fun mark =>
  match x mark with
  | .error stop => .error stop
  | .ok (none, mark) => .ok (none, mark)
  | .ok (some value, mark) => f value mark

instance : Monad (Marking φ ε) where
  pure := ret
  bind := andThen

section andThen

variable {x : Marking φ ε α} {f : α → Marking φ ε β}

theorem andThen_value {mark after : Option ε} {value : α}
    (run : x mark = .ok (some value, after)) : (x >>= f) mark = f value after := by
  change andThen x f mark = _
  unfold andThen
  rw [run]

theorem andThen_nothing {mark after : Option ε}
    (run : x mark = .ok (none, after)) : (x >>= f) mark = .ok (none, after) := by
  change andThen x f mark = _
  unfold andThen
  rw [run]

theorem andThen_fault {mark : Option ε} {stop : φ}
    (run : x mark = .error stop) : (x >>= f) mark = .error stop := by
  change andThen x f mark = _
  unfold andThen
  rw [run]

end andThen

/-- Nothing is returned exactly with a mark, a value leaves the mark alone and satisfies
`post`, and only `allowed` faults end the run. -/
def Honest (allowed : φ → Prop) (x : Marking φ ε α) (post : α → Prop) : Prop :=
  ∀ mark, match x mark with
    | .error stop => allowed stop
    | .ok (none, after) => after ≠ none
    | .ok (some value, after) => after = mark ∧ post value

section honest

variable {allowed : φ → Prop} {x : Marking φ ε α} {f : α → Marking φ ε β} {P Q : α → Prop}

theorem honest_ret {value : α} (holds : P value) : Honest allowed (ret value : Marking φ ε α) P :=
  fun _ => ⟨rfl, holds⟩

theorem honest_fail (reason : ε) : Honest allowed (fail reason : Marking φ ε α) P :=
  fun _ => Option.some_ne_none reason

theorem honest_fault {stop : φ} (fine : allowed stop) :
    Honest allowed (fault stop : Marking φ ε α) P :=
  fun _ => fine

theorem honest_ite {c : Prop} [Decidable c] {x' : Marking φ ε α} (yes : c → Honest allowed x P)
    (no : ¬ c → Honest allowed x' P) : Honest allowed (if c then x else x') P := by
  by_cases holds : c
  · rw [if_pos holds]
    exact yes holds
  · rw [if_neg holds]
    exact no holds

theorem Honest.imp (honest : Honest allowed x P) (weaker : ∀ value, P value → Q value) :
    Honest allowed x Q := by
  intro mark
  have here := honest mark
  split
  next stop run => rwa [run] at here
  next after run => rwa [run] at here
  next value after run =>
    rw [run] at here
    exact ⟨here.1, weaker value here.2⟩

theorem Honest.bind {Q : β → Prop} (first : Honest allowed x P)
    (rest : ∀ value, P value → Honest allowed (f value) Q) : Honest allowed (x >>= f) Q := by
  intro mark
  have here := first mark
  match run : x mark with
  | .error stop =>
    rw [run] at here
    rwa [andThen_fault run]
  | .ok (none, after) =>
    rw [run] at here
    rwa [andThen_nothing run]
  | .ok (some value, after) =>
    rw [run] at here
    obtain ⟨rfl, holds⟩ := here
    rw [andThen_value run]
    exact rest value holds after

/-- Whatever the mark was, afterwards there is one exactly if nothing is returned. -/
theorem Honest.none_iff (honest : Honest allowed x P) {result : Option α} {after : Option ε}
    (run : x none = .ok (result, after)) : result = none ↔ after ≠ none := by
  have here := honest none
  rw [run] at here
  cases result with
  | none => exact ⟨fun _ => here, fun _ => rfl⟩
  | some value => exact ⟨nofun, fun marked => absurd here.1 marked⟩

end honest

/-- `x` answers as `y`, whose failures stand for a reason or a fault; of a failure that
stands for neither nothing is said. -/
structure Follows (meaning : δ → Option (Except φ ε)) (x : Marking φ ε α) (y : Except δ α) :
    Prop where
  returns : ∀ {value} mark, y = .ok value → x mark = .ok (some value, mark)
  fails : ∀ {failure reason} mark, y = .error failure → meaning failure = some (.ok reason) →
    x mark = .ok (none, some reason)
  stops : ∀ {failure stop} mark, y = .error failure → meaning failure = some (.error stop) →
    x mark = .error stop

section follows

variable {meaning : δ → Option (Except φ ε)} {x x' : Marking φ ε α} {y y' : Except δ α}

theorem follows_ret (value : α) : Follows meaning (ret value : Marking φ ε α) (.ok value) where
  returns _ same := by cases same; rfl
  fails _ same := by cases same
  stops _ same := by cases same

theorem follows_fail {reason : ε} {failure : δ} (means : meaning failure = some (.ok reason)) :
    Follows meaning (fail reason : Marking φ ε α) (.error failure) where
  returns _ same := by cases same
  fails _ same means' := by
    cases same
    cases means.symm.trans means'
    rfl
  stops _ same means' := by
    cases same
    cases means.symm.trans means'

theorem follows_fault {stop : φ} {failure : δ} (means : meaning failure = some (.error stop)) :
    Follows meaning (fault stop : Marking φ ε α) (.error failure) where
  returns _ same := by cases same
  fails _ same means' := by
    cases same
    cases means.symm.trans means'
  stops _ same means' := by
    cases same
    cases means.symm.trans means'
    rfl

theorem follows_silent {failure : δ} (silent : meaning failure = none) :
    Follows meaning x (.error failure) where
  returns _ same := by cases same
  fails _ same means := by
    cases same
    cases silent.symm.trans means
  stops _ same means := by
    cases same
    cases silent.symm.trans means

theorem follows_ite {c : Prop} [Decidable c] (yes : Follows meaning x y)
    (no : Follows meaning x' y') :
    Follows meaning (if c then x else x') (if c then y else y') := by
  split
  · exact yes
  · exact no

theorem Follows.bind {f : α → Marking φ ε β} {g : α → Except δ β} (first : Follows meaning x y)
    (rest : ∀ value, Follows meaning (f value) (g value)) :
    Follows meaning (x >>= f) (y >>= g) := by
  cases y with
  | ok value =>
    have continued : ∀ mark, (x >>= f) mark = f value mark :=
      fun mark => andThen_value (first.returns mark rfl)
    constructor
    · intro result mark same
      rw [continued]
      exact (rest value).returns mark same
    · intro failure reason mark same means
      rw [continued]
      exact (rest value).fails mark same means
    · intro failure stop mark same means
      rw [continued]
      exact (rest value).stops mark same means
  | error failure =>
    constructor
    · intro result mark same
      cases same
    · intro _ reason mark same means
      cases same
      exact andThen_nothing (first.fails mark rfl means)
    · intro _ stop mark same means
      cases same
      exact andThen_fault (first.stops mark rfl means)

end follows

end Marking

end BlmLink.Lib
