import Mathlib

/-!
# The pieces of a string between separators

A piece is a run without separators that a separator or an end of the string bounds on
each side, and that is not empty.
-/
namespace BlmLink.Lib

variable {α : Type}

structure Piece (sep : α) (s piece : List α) : Prop where
  nonempty : piece ≠ []
  unbroken : sep ∉ piece
  within : ∃ before after, s = before ++ piece ++ after ∧
    (∀ a, before.getLast? = some a → a = sep) ∧ (∀ a, after.head? = some a → a = sep)

namespace Piece

variable {sep : α} {s front rest piece : List α}

/-- The run at the beginning of a string is determined. -/
theorem run_unique {run run' tail tail' : List α} (unbroken : sep ∉ run) (unbroken' : sep ∉ run')
    (same : run ++ tail = run' ++ tail') (bound : ∀ a, tail.head? = some a → a = sep)
    (bound' : ∀ a, tail'.head? = some a → a = sep) : run = run' := by
  induction run generalizing run' with
  | nil =>
    cases run' with
    | nil => rfl
    | cons b run' =>
      subst same
      exact absurd (bound b rfl ▸ List.mem_cons_self) unbroken'
  | cons a run ih =>
    cases run' with
    | nil =>
      subst same
      exact absurd (bound' a rfl ▸ List.mem_cons_self) unbroken
    | cons b run' =>
      obtain ⟨rfl, later⟩ := List.cons.inj same
      rw [ih (List.not_mem_of_not_mem_cons unbroken) (List.not_mem_of_not_mem_cons unbroken') later]

/-- A run bounded by the ends of the string is its one piece. -/
theorem of_unbroken (unbroken : sep ∉ s) : Piece sep s piece ↔ piece = s ∧ s ≠ [] := by
  constructor
  · intro ⟨nonempty, _, before, after, split, left, right⟩
    subst split
    simp only [List.mem_append, not_or] at unbroken
    obtain ⟨⟨outsideLeft, _⟩, outsideRight⟩ := unbroken
    have noBefore : before = [] := by
      cases last : before.getLast? with
      | none => exact List.getLast?_eq_none_iff.mp last
      | some a => exact absurd (left a last ▸ List.mem_of_getLast? last) outsideLeft
    have noAfter : after = [] := by
      cases first : after.head? with
      | none => exact List.head?_eq_none_iff.mp first
      | some a => exact absurd (right a first ▸ List.mem_of_head? first) outsideRight
    subst noBefore noAfter
    simpa using nonempty
  · rintro ⟨rfl, nonempty⟩
    exact ⟨nonempty, unbroken, [], [], by simp, by simp, by simp⟩

/-- A separator that bounds the string adds no piece. -/
theorem of_behind (inside : Piece sep rest piece) : Piece sep (front ++ sep :: rest) piece := by
  obtain ⟨nonempty, unbroken, before, after, rfl, left, right⟩ := inside
  refine ⟨nonempty, unbroken, front ++ sep :: before, after, by simp, ?_, right⟩
  intro a last
  rw [List.getLast?_append, List.getLast?_cons] at last
  cases ending : before.getLast? with
  | none => simpa [ending] using last.symm
  | some b => simp_all

/-- The first separator parts the string in two. -/
theorem append_sep (unbroken : sep ∉ front) :
    Piece sep (front ++ sep :: rest) piece ↔ (piece = front ∧ front ≠ []) ∨ Piece sep rest piece := by
  constructor
  · intro ⟨nonempty, inner, before, after, split, left, right⟩
    rw [List.append_assoc] at split
    rcases List.append_eq_append_iff.mp split with ⟨behind, rfl, remaining⟩ | ⟨inside, rfl, remaining⟩
    · cases behind with
      | nil =>
        -- The piece would begin with the separator.
        cases piece with
        | nil => exact absurd rfl nonempty
        | cons first piece =>
          simp only [List.nil_append, List.cons_append, List.cons.injEq] at remaining
          exact absurd (by simp [remaining.1]) inner
      | cons a behind =>
        simp only [List.cons_append, List.cons.injEq] at remaining
        refine .inr ⟨nonempty, inner, behind, after, by rw [remaining.2, List.append_assoc], ?_, right⟩
        intro b last
        refine left b ?_
        rw [List.getLast?_append, List.getLast?_cons, last]
        rfl
    · -- What is before the piece is a part of `front`, and has no separator.
      have none : before = [] := by
        cases last : before.getLast? with
        | none => exact List.getLast?_eq_none_iff.mp last
        | some a =>
          have among := left a last ▸ List.mem_of_getLast? last
          exact absurd (List.mem_append_left _ among) unbroken
      subst none
      refine .inl ?_
      have same : piece = inside := run_unique inner unbroken remaining right (by simp)
      subst same
      exact ⟨rfl, nonempty⟩
  · rintro (⟨rfl, nonempty⟩ | inside)
    · exact ⟨nonempty, unbroken, [], sep :: rest, by simp, by simp, by simp⟩
    · exact inside.of_behind

end Piece

end BlmLink.Lib
