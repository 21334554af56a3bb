import Mathlib

/-!
# Runs of a labelled transition system

A system is its step relation: state before, label, state after. Labels carry
whatever the environment decides, so a deterministic program with a given
environment is a step relation too (`ofOption`).
-/
namespace BlmLink.Lib.Trace

variable {σ ε : Type}

/-- The system of a partial step function. -/
def ofOption (next : σ → ε → Option σ) : σ → ε → σ → Prop :=
  fun s e s' => next s e = some s'

/-- The system of a partial step function that may also fail; a failed step has
no state after it. -/
def ofFallible {φ : Type} (next : σ → ε → Option (Except φ σ)) : σ → ε → σ → Prop :=
  fun s e s' => next s e = some (.ok s')

/-- The steps of a system whose state before and label meet a condition. -/
def Guarded (step : σ → ε → σ → Prop) (meets : σ → ε → Prop) : σ → ε → σ → Prop :=
  fun s e s' => step s e s' ∧ meets s e

/-- The state before and the label decide the state after. -/
def Functional (step : σ → ε → σ → Prop) : Prop :=
  ∀ s e s₁ s₂, step s e s₁ → step s e s₂ → s₁ = s₂

theorem functional_ofOption (next : σ → ε → Option σ) : Functional (ofOption next) := by
  intro s e s₁ s₂ first second
  exact Option.some.inj (first.symm.trans second)

theorem functional_ofFallible {φ : Type} (next : σ → ε → Option (Except φ σ)) :
    Functional (ofFallible next) := by
  intro s e s₁ s₂ first second
  exact Except.ok.inj (Option.some.inj (first.symm.trans second))

theorem Functional.guarded {step : σ → ε → σ → Prop} (functional : Functional step)
    (meets : σ → ε → Prop) : Functional (Guarded step meets) :=
  fun s e s₁ s₂ first second => functional s e s₁ s₂ first.1 second.1

inductive Run (step : σ → ε → σ → Prop) : σ → List ε → σ → Prop where
  | nil (s : σ) : Run step s [] s
  | cons {s s' s'' : σ} {e : ε} {es : List ε} (first : step s e s')
      (rest : Run step s' es s'') : Run step s (e :: es) s''

namespace Run

variable {step : σ → ε → σ → Prop} {s s' s'' : σ} {e : ε} {es : List ε}

theorem snoc (run : Run step s es s') (last : step s' e s'') : Run step s (es ++ [e]) s'' := by
  induction run with
  | nil s => exact .cons last (.nil _)
  | cons first _ ih => exact .cons first (ih last)

/-- What every step preserves holds along a run. -/
theorem invariant {P : σ → Prop} (run : Run step s es s') (initially : P s)
    (preserved : ∀ {s e s'}, P s → step s e s' → P s') : P s' := by
  induction run with
  | nil => exact initially
  | cons first _ ih => exact ih (preserved initially first)

/-- A run of guarded steps is a run. -/
theorem forget {meets : σ → ε → Prop} (run : Run (Guarded step meets) s es s') :
    Run step s es s' := by
  induction run with
  | nil s => exact .nil s
  | cons first _ ih => exact .cons first.1 ih

/-- A run is guarded when each step from a state with `P` to a state with `P` is, and
`P` holds in every state that the run passes through. `I` is an invariant of all runs. -/
theorem guarded_of_passed {meets : σ → ε → Prop} {I P : σ → Prop} (run : Run step s es s')
    (initially : I s) (preserved : ∀ {s e s'}, I s → step s e s' → I s')
    (passed : ∀ es₁ es₂ m, es = es₁ ++ es₂ → Run step s es₁ m → P m)
    (met : ∀ {s e s'}, I s → P s → step s e s' → P s' → meets s e) :
    Run (Guarded step meets) s es s' := by
  induction run with
  | nil s => exact .nil s
  | @cons s middle s' e es first _ ih =>
    have before : P s := passed [] (e :: es) s rfl (.nil s)
    have after : P middle := passed [e] es middle rfl (.cons first (.nil _))
    refine .cons ⟨first, met initially before first after⟩ (ih (preserved initially first) ?_)
    rintro es₁ es₂ m rfl reached
    exact passed (e :: es₁) es₂ m rfl (.cons first reached)

/-- A run of two pieces passes through a state between them. -/
theorem append_inv {es' : List ε} (run : Run step s (es ++ es') s'') :
    ∃ s', Run step s es s' ∧ Run step s' es' s'' := by
  induction es generalizing s with
  | nil => exact ⟨s, .nil s, run⟩
  | cons e es ih =>
    cases run with
    | cons first rest =>
      obtain ⟨s₁, front, back⟩ := ih rest
      exact ⟨s₁, .cons first front, back⟩

/-- A system whose steps have one result has one end for a run. -/
theorem unique (functional : Functional step) {s₁ s₂ : σ} (run : Run step s es s₁) (run' : Run step s es s₂) : s₁ = s₂ := by
  induction run with
  | nil =>
    cases run'
    rfl
  | cons first rest ih =>
    cases run' with
    | cons first' rest' =>
      cases functional _ _ _ _ first first'
      exact ih rest'

end Run

end BlmLink.Lib.Trace
