import Mathlib

/-!
# Postconditions for computations that may fail

`Safe bad x post`: the computation `x` does not fail in a `bad` way, and what it
returns satisfies `post`. Other failures are allowed and end it. One rule for each
way the models are composed.
-/
namespace BlmLink.Lib

variable {φ α β : Type} {bad : φ → Prop}

structure Safe (bad : φ → Prop) (x : Except φ α) (post : α → Prop) : Prop where
  returns : ∀ {a}, x = .ok a → post a
  fails : ∀ {r}, x = .error r → ¬ bad r

namespace Safe

variable {x : Except φ α} {f : α → Except φ β} {P Q : α → Prop}

theorem ok {a : α} (holds : P a) : Safe bad (.ok a) P := by
  constructor
  · rintro _ ⟨⟩
    exact holds
  · rintro _ ⟨⟩

theorem error {r : φ} (allowed : ¬ bad r) : Safe bad (.error r) P := by
  constructor
  · rintro _ ⟨⟩
  · rintro _ ⟨⟩
    exact allowed

theorem imp (safe : Safe bad x P) (weaker : ∀ {a}, P a → Q a) : Safe bad x Q :=
  ⟨fun returned => weaker (safe.returns returned), safe.fails⟩

theorem bind {Q : β → Prop} (first : Safe bad x P) (rest : ∀ {a}, P a → Safe bad (f a) Q) :
    Safe bad (x >>= f) Q := by
  cases x with
  | ok a => exact rest (first.returns rfl)
  | error r => exact error (first.fails rfl)

theorem map {f : α → β} {Q : β → Prop} (safe : Safe bad x fun a => Q (f a)) :
    Safe bad (x.map f) Q := by
  cases x with
  | ok a => exact ok (safe.returns rfl)
  | error r => exact error (safe.fails rfl)

/-- Loop rule: what every round preserves holds after the loop. -/
theorem foldlM {σ : Type} {step : σ → α → Except φ σ} {P : σ → Prop} {items : List α}
    (round : ∀ {s a}, a ∈ items → P s → Safe bad (step s a) P) {s : σ} (initially : P s) :
    Safe bad (items.foldlM step s) P := by
  induction items generalizing s with
  | nil => exact ok initially
  | cons a items ih =>
    rw [List.foldlM_cons]
    apply bind (round List.mem_cons_self initially)
    intro s' after
    exact ih (fun member => round (List.mem_cons_of_mem _ member)) after

end Safe

end BlmLink.Lib
