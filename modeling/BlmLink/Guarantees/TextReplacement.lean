import BlmLink.Source.UtilFun

/-!
# `replaceAll` replaces from left to right

The string is rewritten while it is searched. Up to the position of the loop it is
finished, from there on it is the original, and the search looks only there, so a
replacement is never searched again however long it is and whatever it contains.

The empty word is found at every position, and replacing it makes the string longer by as
much as the position moves, so the loop does not end (`replaceLoop_nil`).
-/
namespace BlmLink.Guarantees.TextReplacement

open BlmLink.Lib BlmLink.Lib.Substring BlmLink.Source

variable (oldVal newVal : Bytes)

theorem replaceAt_found (done front later : Bytes) :
    replaceAt (done ++ (front ++ oldVal ++ later)) (done ++ front).length oldVal.length newVal =
      (done ++ front ++ newVal) ++ later := by
  have parted : done ++ (front ++ oldVal ++ later) = (done ++ front) ++ (oldVal ++ later) := by
    simp only [List.append_assoc]
  rw [replaceAt, parted, List.take_left, ← List.drop_drop, List.drop_left, List.drop_left]

/-- The loop with `done` finished and `rest` to be searched. -/
theorem replaceLoop_spec {oldVal : Bytes} (nonempty : oldVal ≠ []) (newVal : Bytes) (fuel : Nat)
    (done rest : Bytes) (enough : rest.length < fuel) :
    ∃ out, replaceLoop oldVal newVal fuel (done ++ rest) done.length = some (done ++ out) ∧
      Replaced oldVal newVal rest out := by
  induction fuel generalizing done rest with
  | zero => exact absurd enough (Nat.not_lt_zero _)
  | succ fuel ih =>
    unfold replaceLoop
    by_cases more : done.length < (done ++ rest).length
    · rw [if_pos more]
      rcases find_rest oldVal done rest with ⟨found, absent⟩ | ⟨front, later, rfl, first, found⟩
      · exact ⟨rest, by rw [found], .none absent⟩
      · have shorter : later.length < fuel := by
          have positive := List.length_pos_iff.mpr nonempty
          simp only [List.length_append] at enough
          omega
        obtain ⟨out, ended, replaced⟩ := ih (done ++ front ++ newVal) later shorter
        refine ⟨front ++ newVal ++ out, ?_, .next first replaced⟩
        rw [found]
        simp only [replaceAt_found, ← List.length_append]
        rw [ended]
        simp only [List.append_assoc]
    · have none : rest = [] := by
        rw [List.length_append] at more
        exact List.eq_nil_of_length_eq_zero (by omega)
      subst none
      rw [if_neg more]
      exact ⟨[], rfl, .none (not_occursAt_nil nonempty)⟩

/-- `replaceAll` ends, and its result is the one string that replacing the leftmost
occurrences of `oldVal`, from left to right and without overlaps, can give. -/
theorem replaceAll_leftmost (str oldVal newVal : Bytes) (nonempty : oldVal ≠ []) :
    ∃ out, (∀ fuel, str.length < fuel → replaceAll fuel str oldVal newVal = some out) ∧
      ∀ result, Replaced oldVal newVal str result ↔ result = out := by
  obtain ⟨out, _, replaced⟩ :=
    replaceLoop_spec nonempty newVal (str.length + 1) [] str (Nat.lt_succ_self _)
  refine ⟨out, ?_, fun result => ⟨fun other => other.unique replaced, fun same => same ▸ replaced⟩⟩
  intro fuel enough
  obtain ⟨out', ended, replaced'⟩ := replaceLoop_spec nonempty newVal fuel [] str enough
  rw [replaced.unique replaced']
  exact ended

theorem replaceAll_leftmost_selfContaining :
    ∃ out, (∀ fuel, 4 < fuel →
        replaceAll fuel [1, 1, 1, 2] [1, 1] [1, 1, 1] = some out) ∧
      ∀ result, Replaced [1, 1] [1, 1, 1] ([1, 1, 1, 2] : Bytes) result ↔ result = out :=
  replaceAll_leftmost [1, 1, 1, 2] [1, 1] [1, 1, 1] (by decide)

theorem find_nil {str : Bytes} {pos : Nat} (inside : pos ≤ str.length) :
    find str [] pos = some pos :=
  find_eq_some.mpr ⟨Nat.le_refl pos, ⟨inside, List.nil_prefix⟩,
    fun _ behind before => absurd before (Nat.not_lt.mpr behind)⟩

theorem length_replaceAt_nil {str : Bytes} {pos : Nat} (inside : pos ≤ str.length) :
    (replaceAt str pos 0 newVal).length = str.length + newVal.length := by
  simp only [replaceAt, List.length_append, List.length_take, List.length_drop]
  omega

/-- The distance from the position to the end stays as it is, whatever is inserted. -/
theorem replaceLoop_nil (fuel : Nat) {str : Bytes} {pos : Nat} (inside : pos < str.length) :
    replaceLoop [] newVal fuel str pos = none := by
  induction fuel generalizing str pos with
  | zero => rfl
  | succ fuel ih =>
    unfold replaceLoop
    rw [if_pos inside, find_nil (Nat.le_of_lt inside)]
    dsimp only
    refine ih ?_
    rw [List.length_nil, length_replaceAt_nil newVal (Nat.le_of_lt inside)]
    exact Nat.add_lt_add_right inside _

/-- The loop of `replaceAll` ends exactly if there is a word to look for, or no text. -/
theorem replaceAll_ends_iff (str oldVal newVal : Bytes) :
    (∃ fuel out, replaceAll fuel str oldVal newVal = some out) ↔ oldVal ≠ [] ∨ str = [] := by
  constructor
  · rintro ⟨fuel, out, ended⟩
    by_contra neither
    obtain ⟨empty, text⟩ := not_or.mp neither
    rw [not_not.mp empty, replaceAll, replaceLoop_nil newVal fuel (List.length_pos_iff.mpr text)] at ended
    cases ended
  · rintro (word | rfl)
    · obtain ⟨out, ended, _⟩ :=
        replaceLoop_spec word newVal (str.length + 1) [] str (Nat.lt_succ_self _)
      exact ⟨str.length + 1, out, ended⟩
    · exact ⟨1, [], rfl⟩

/-- Replacing the empty string in `a` by the empty string. -/
theorem empty_word_loops : ¬ ∃ fuel out, replaceAll fuel [0x61] [] [] = some out := by
  rintro ⟨fuel, out, ended⟩
  rw [replaceAll, replaceLoop_nil [] fuel (by decide)] at ended
  cases ended

end BlmLink.Guarantees.TextReplacement
