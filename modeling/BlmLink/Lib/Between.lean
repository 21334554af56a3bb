import Mathlib

/-!
# How often an entry occurs between two marks of a log

`AtMostOnce mark e log`: no stretch of the log without a `mark` has two `e`.
`NoneSince mark e log`: no `e` after the last `mark`. `Since mark kind log`: some
entry of the kind after the last `mark`. A log grows at its end.
-/
namespace BlmLink.Lib.Between

variable {ε : Type} {mark e entry : ε} {log : List ε}

def NoneSince (mark e : ε) (log : List ε) : Prop :=
  ∀ stretch, stretch <:+ log → mark ∉ stretch → e ∉ stretch

theorem noneSince_snoc (before : NoneSince mark e log) (other : entry ≠ e) :
    NoneSince mark e (log ++ [entry]) := by
  intro stretch isEnd unmarked occurs
  rcases List.suffix_concat_iff.mp isEnd with rfl | ⟨front, rfl, ends⟩
  · cases occurs
  · rw [List.mem_append, List.mem_singleton] at occurs
    rcases occurs with occurs | rfl
    · exact before front ends (fun marked => unmarked (by simp [marked])) occurs
    · exact other rfl

theorem noneSince_mark (log : List ε) : NoneSince mark e (log ++ [mark]) := by
  intro stretch isEnd unmarked occurs
  rcases List.suffix_concat_iff.mp isEnd with rfl | ⟨front, rfl, ends⟩
  · cases occurs
  · exact unmarked (by simp)

def Since (mark : ε) (kind : ε → Prop) (log : List ε) : Prop :=
  ∃ stretch, stretch <:+ log ∧ mark ∉ stretch ∧ ∃ e ∈ stretch, kind e

theorem since_snoc {kind : ε → Prop} :
    Since mark kind (log ++ [entry]) ↔ entry ≠ mark ∧ (kind entry ∨ Since mark kind log) := by
  constructor
  · rintro ⟨stretch, isEnd, unmarked, e, member, isKind⟩
    rcases List.suffix_concat_iff.mp isEnd with rfl | ⟨front, rfl, ends⟩
    · cases member
    · simp only [List.mem_append, List.mem_singleton, not_or] at unmarked member
      refine ⟨fun same => unmarked.2 same.symm, ?_⟩
      rcases member with member | rfl
      · exact .inr ⟨front, ends, unmarked.1, e, member, isKind⟩
      · exact .inl isKind
  · rintro ⟨other, isKind | ⟨stretch, isEnd, unmarked, e, member, isKind⟩⟩
    · refine ⟨[entry], List.suffix_append _ _, ?_, entry, List.mem_singleton_self _, isKind⟩
      exact fun marked => other (List.mem_singleton.mp marked).symm
    · refine ⟨stretch ++ [entry], ?_, ?_, e, List.mem_append_left _ member, isKind⟩
      · exact List.suffix_concat_iff.mpr (.inr ⟨stretch, rfl, isEnd⟩)
      · rw [List.mem_append, List.mem_singleton, not_or]
        exact ⟨unmarked, fun same => other same.symm⟩

/-- What happened since the last mark happened after each mark. -/
theorem Since.after {kind : ε → Prop} {before after : List ε}
    (since : Since mark kind (before ++ mark :: after)) : ∃ e ∈ after, kind e := by
  obtain ⟨stretch, isEnd, unmarked, e, member, isKind⟩ := since
  have shorter : stretch <:+ after := by
    rcases List.suffix_or_suffix_of_suffix isEnd (List.suffix_append before (mark :: after)) with
      inside | covers
    · rcases List.suffix_cons_iff.mp inside with rfl | inside
      · exact absurd List.mem_cons_self unmarked
      · exact inside
    · exact absurd (covers.subset List.mem_cons_self) unmarked
  exact ⟨e, shorter.subset member, isKind⟩

variable [DecidableEq ε]

def AtMostOnce (mark e : ε) (log : List ε) : Prop :=
  ∀ stretch, stretch <:+: log → mark ∉ stretch → stretch.count e ≤ 1

theorem atMostOnce_snoc (before : AtMostOnce mark e log)
    (first : entry = e → NoneSince mark e log) : AtMostOnce mark e (log ++ [entry]) := by
  intro stretch inside unmarked
  rcases List.infix_concat_iff.mp inside with isEnd | inside
  · rcases List.suffix_concat_iff.mp isEnd with rfl | ⟨front, rfl, ends⟩
    · simp
    · have unmarked' : mark ∉ front := fun marked => unmarked (by simp [marked])
      rw [List.count_append, List.count_singleton]
      by_cases same : entry = e
      · have none := List.count_eq_zero.mpr (first same front ends unmarked')
        rw [none]
        split <;> omega
      · have most := before front ends.isInfix unmarked'
        rw [if_neg (by simpa using same)]
        omega
  · exact before stretch inside unmarked

end BlmLink.Lib.Between
