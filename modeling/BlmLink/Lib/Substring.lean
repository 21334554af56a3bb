import Mathlib

/-!
# Occurrences of a word in a string

Searching from a position on, and what a scan from left to right makes that goes on behind
each occurrence it meets: the string with each occurrence replaced, or the pieces between
them.
-/
namespace BlmLink.Lib.Substring

variable {α : Type}

/-- `word` occurs in `s` at the position `p`. -/
def OccursAt (word s : List α) (p : Nat) : Prop := p ≤ s.length ∧ word <+: s.drop p

instance [DecidableEq α] (word s : List α) (p : Nat) : Decidable (OccursAt word s p) :=
  inferInstanceAs (Decidable (_ ∧ _))

section find
variable [DecidableEq α]

/-- The first position from `pos` on at which `word` occurs. -/
def find (s word : List α) (pos : Nat) : Option Nat :=
  (List.range (s.length + 1)).find? fun p => decide (pos ≤ p ∧ OccursAt word s p)

theorem find_eq_some {s word : List α} {pos p : Nat} :
    find s word pos = some p ↔
      pos ≤ p ∧ OccursAt word s p ∧ ∀ q, pos ≤ q → q < p → ¬ OccursAt word s q := by
  unfold find
  rw [List.find?_range_eq_some]
  simp only [decide_eq_true_eq, List.mem_range, Bool.not_eq_true', decide_eq_false_iff_not]
  constructor
  · intro ⟨⟨after, occurs⟩, _, first⟩
    exact ⟨after, occurs, fun q from_ before occurs => first q before ⟨from_, occurs⟩⟩
  · intro ⟨after, occurs, first⟩
    exact ⟨⟨after, occurs⟩, Nat.lt_succ_of_le occurs.1,
      fun q before occurs => first q occurs.1 before occurs.2⟩

theorem find_eq_none {s word : List α} {pos : Nat} :
    find s word pos = none ↔ ∀ q, pos ≤ q → ¬ OccursAt word s q := by
  unfold find
  rw [List.find?_range_eq_none]
  simp only [Bool.not_eq_true', decide_eq_false_iff_not]
  constructor
  · intro nowhere q from_ occurs
    exact nowhere q (Nat.lt_succ_of_le occurs.1) ⟨from_, occurs⟩
  · intro nowhere q _ occurs
    exact nowhere q occurs.1 occurs.2

end find

section occurrences

variable {word s front rest : List α} {p : Nat}

theorem occursAt_append_length (front word rest : List α) :
    OccursAt word (front ++ word ++ rest) front.length := by
  refine ⟨by simp, ?_⟩
  rw [List.append_assoc, List.drop_left]
  exact List.prefix_append word rest

/-- Behind a front part, a word occurs where it occurs in the rest. -/
theorem occursAt_append_add :
    OccursAt word (front ++ rest) (front.length + p) ↔ OccursAt word rest p := by
  rw [OccursAt, OccursAt, ← List.drop_drop, List.drop_left, List.length_append,
    Nat.add_le_add_iff_left]

theorem OccursAt.split (occurs : OccursAt word s p) :
    ∃ front rest, s = front ++ word ++ rest ∧ front.length = p := by
  obtain ⟨rest, joined⟩ := occurs.2
  refine ⟨s.take p, rest, ?_, List.length_take_of_le occurs.1⟩
  rw [List.append_assoc, joined, List.take_append_drop]

theorem not_occursAt_nil (nonempty : word ≠ []) (p : Nat) : ¬ OccursAt word [] p := by
  intro occurs
  simp [OccursAt, nonempty] at occurs

/-- A word occurs in a front part where it does in the whole. -/
theorem OccursAt.append (occurs : OccursAt word front p) : OccursAt word (front ++ rest) p := by
  refine ⟨Nat.le_trans occurs.1 (by simp), ?_⟩
  rw [List.drop_append_of_le_length occurs.1]
  exact occurs.2.trans (List.prefix_append _ _)

theorem OccursAt.add_length_le (occurs : OccursAt word s p) : p + word.length ≤ s.length := by
  have fits := occurs.2.length_le
  have inside := occurs.1
  rw [List.length_drop] at fits
  omega

theorem occursAt_singleton {a : α} : OccursAt [a] s p ↔ s[p]? = some a := by
  constructor
  · intro occurs
    obtain ⟨rest, same⟩ := occurs.2
    have head : (s.drop p)[0]? = some a := by rw [← same]; rfl
    simpa using head
  · intro there
    obtain ⟨inside, same⟩ := List.getElem?_eq_some_iff.mp there
    refine ⟨Nat.le_of_lt inside, ?_⟩
    rw [List.drop_eq_getElem_cons inside, same]
    exact List.prefix_append [a] _

theorem occursAt_of_mem {a : α} (member : a ∈ s) : ∃ p < s.length, OccursAt [a] s p := by
  obtain ⟨p, inside, there⟩ := List.getElem_of_mem member
  exact ⟨p, inside, occursAt_singleton.mpr (List.getElem?_eq_some_iff.mpr ⟨inside, there⟩)⟩

/-- The first occurrence is in one place. -/
theorem first_unique {front' rest' : List α}
    (whole : front ++ word ++ rest = front' ++ word ++ rest')
    (first : ∀ p < front.length, ¬ OccursAt word (front ++ word ++ rest) p)
    (first' : ∀ p < front'.length, ¬ OccursAt word (front' ++ word ++ rest') p) :
    front = front' ∧ rest = rest' := by
  have occurs := occursAt_append_length front word rest
  have occurs' := occursAt_append_length front' word rest'
  have same : front.length = front'.length := by
    rcases Nat.lt_trichotomy front.length front'.length with less | same | more
    · exact absurd (whole ▸ occurs) (first' _ less)
    · exact same
    · exact absurd (whole ▸ occurs') (first _ more)
  rw [List.append_assoc, List.append_assoc] at whole
  obtain ⟨rfl, tails⟩ := List.append_inj whole same
  exact ⟨rfl, List.append_cancel_left tails⟩

theorem find_append [DecidableEq α] (front rest word : List α) :
    find (front ++ rest) word front.length = (find rest word 0).map (front.length + ·) := by
  cases found : find rest word 0 with
  | none =>
    rw [find_eq_none] at found
    rw [Option.map_none, find_eq_none]
    intro q behind occurs
    obtain ⟨p, rfl⟩ := Nat.exists_eq_add_of_le behind
    exact found p (Nat.zero_le p) (occursAt_append_add.mp occurs)
  | some p =>
    obtain ⟨_, occurs, first⟩ := find_eq_some.mp found
    rw [Option.map_some, find_eq_some]
    refine ⟨Nat.le_add_right _ _, occursAt_append_add.mpr occurs, ?_⟩
    intro q behind before occurs'
    obtain ⟨p', rfl⟩ := Nat.exists_eq_add_of_le behind
    exact first p' (Nat.zero_le p') (Nat.lt_of_add_lt_add_left before)
      (occursAt_append_add.mp occurs')

/-- A search behind `done` finds the first occurrence in the rest, or the rest has none. -/
theorem find_rest [DecidableEq α] (word done rest : List α) :
    (find (done ++ rest) word done.length = none ∧ ∀ p, ¬ OccursAt word rest p) ∨
      ∃ front later, rest = front ++ word ++ later ∧
        (∀ p < front.length, ¬ OccursAt word rest p) ∧
        find (done ++ rest) word done.length = some (done ++ front).length := by
  rw [find_append]
  cases found : find rest word 0 with
  | none =>
    refine .inl ⟨rfl, fun p => ?_⟩
    exact find_eq_none.mp found p (Nat.zero_le p)
  | some p =>
    obtain ⟨_, occurs, first⟩ := find_eq_some.mp found
    obtain ⟨front, later, split, rfl⟩ := occurs.split
    refine .inr ⟨front, later, split, fun q before => first q (Nat.zero_le q) before, ?_⟩
    rw [Option.map_some, List.length_append]

end occurrences

/-- The string with its leftmost occurrences of `word`, found from left to right and not
overlapping, each replaced by `new`. -/
inductive Replaced (word new : List α) : List α → List α → Prop where
  | none {s : List α} (absent : ∀ p, ¬ OccursAt word s p) : Replaced word new s s
  | next {front rest out : List α}
      (first : ∀ p < front.length, ¬ OccursAt word (front ++ word ++ rest) p)
      (later : Replaced word new rest out) :
      Replaced word new (front ++ word ++ rest) (front ++ new ++ out)

/-- The pieces before the leftmost occurrences of `word`, found from left to right and not
overlapping, and what is behind the last of them. -/
inductive Cut (word : List α) : List α → List (List α) → List α → Prop where
  | none {s : List α} (absent : ∀ p, ¬ OccursAt word s p) : Cut word s [] s
  | next {front rest last : List α} {pieces : List (List α)}
      (first : ∀ p < front.length, ¬ OccursAt word (front ++ word ++ rest) p)
      (later : Cut word rest pieces last) :
      Cut word (front ++ word ++ rest) (front :: pieces) last

namespace Cut

variable {word s last last' : List α} {pieces pieces' : List (List α)}

theorem unique (cut : Cut word s pieces last) (cut' : Cut word s pieces' last') :
    pieces = pieces' ∧ last = last' := by
  induction cut generalizing pieces' last' with
  | none absent =>
    cases cut' with
    | none _ => exact ⟨rfl, rfl⟩
    | next _ _ => exact absurd (occursAt_append_length _ _ _) (absent _)
  | @next front rest last pieces first later ih =>
    generalize whole : front ++ word ++ rest = s at cut'
    cases cut' with
    | none absent =>
      subst whole
      exact absurd (occursAt_append_length _ _ _) (absent _)
    | @next front' rest' last' pieces' first' later' =>
      obtain ⟨rfl, rfl⟩ := first_unique whole first first'
      obtain ⟨rfl, rfl⟩ := ih later'
      exact ⟨rfl, rfl⟩

/-- The pieces, each with a word behind it, and the rest make the string. -/
theorem joined (cut : Cut word s pieces last) : pieces.flatMap (· ++ word) ++ last = s := by
  induction cut with
  | none => rfl
  | next _ _ ih => rw [List.flatMap_cons, List.append_assoc, ih, List.append_assoc]

/-- No piece has the word in it. -/
theorem absent (nonempty : word ≠ []) (cut : Cut word s pieces last) {piece : List α}
    (among : piece ∈ pieces ++ [last]) (p : Nat) : ¬ OccursAt word piece p := by
  induction cut with
  | none absent =>
    rw [List.nil_append, List.mem_singleton] at among
    exact among ▸ absent p
  | @next front rest last pieces first later ih =>
    rw [List.cons_append, List.mem_cons] at among
    rcases among with rfl | among
    · intro occurs
      have inside := occurs.add_length_le
      have positive := List.length_pos_iff.mpr nonempty
      refine first p (by omega) ?_
      rw [List.append_assoc]
      exact occurs.append
    · exact ih among

end Cut

namespace Replaced

variable {word new s out out' : List α}

/-- Replacing puts the new word behind each piece of the same scan. -/
theorem cut (replaced : Replaced word new s out) :
    ∃ pieces last, Cut word s pieces last ∧ out = pieces.flatMap (· ++ new) ++ last := by
  induction replaced with
  | none absent => exact ⟨[], _, .none absent, rfl⟩
  | @next front rest out first later ih =>
    obtain ⟨pieces, last, cut, rfl⟩ := ih
    refine ⟨front :: pieces, last, .next first cut, ?_⟩
    rw [List.flatMap_cons, List.append_assoc _ _ last]

/-- A string has one result. -/
theorem unique (replaced : Replaced word new s out) (replaced' : Replaced word new s out') :
    out = out' := by
  obtain ⟨pieces, last, cut, rfl⟩ := replaced.cut
  obtain ⟨pieces', last', cut', rfl⟩ := replaced'.cut
  obtain ⟨rfl, rfl⟩ := cut.unique cut'
  rfl

end Replaced

end BlmLink.Lib.Substring
