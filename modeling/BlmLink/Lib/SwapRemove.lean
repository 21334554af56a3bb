import Mathlib

/-!
# Removing a vector element by moving the last one into its place
-/
namespace BlmLink.Lib

variable {α : Type}

/-- `swap(v[i], v.back()); v.pop_back();` -/
def swapRemove (v : List α) (i : Nat) : List α := (v.swap i (v.length - 1)).dropLast

/-- The element is gone and all others are still there. -/
theorem swapRemove_perm (v : List α) (i : Nat) (inside : i < v.length) :
    (v[i] :: swapRemove v i).Perm v := by
  have some : v.swap i (v.length - 1) ≠ [] := by
    rw [← List.length_pos_iff, List.length_swap]
    omega
  have last : (v.swap i (v.length - 1)).getLast some = v[i] := by
    simp only [List.getLast_eq_getElem, List.length_swap]
    rw [List.getElem_swap_right, dif_pos inside]
  calc (v[i] :: swapRemove v i).Perm (swapRemove v i ++ [v[i]]) :=
        (List.perm_append_singleton _ _).symm
    _ = v.swap i (v.length - 1) := by rw [← last]; exact List.dropLast_append_getLast some
    List.Perm _ v := List.swap_perm v i (v.length - 1)

theorem length_swapRemove (v : List α) (i : Nat) : (swapRemove v i).length = v.length - 1 := by
  rw [swapRemove, List.length_dropLast, List.length_swap]

/-- The last element takes the place of the one removed. -/
theorem swapRemove_eq_set {v : List α} {i : Nat} {last : α} (before : i < v.length - 1)
    (end_ : v[v.length - 1]? = some last) : swapRemove v i = v.dropLast.set i last := by
  obtain ⟨inside, value⟩ := List.getElem?_eq_some_iff.mp end_
  rw [swapRemove, List.swap_eq_of_lt (by omega) inside, value, List.dropLast_eq_take,
    List.dropLast_eq_take, List.length_set, List.length_set, List.take_set, List.take_set]
  exact List.set_eq_of_length_le (by simp)

/-- The same for an element that was searched for. -/
theorem swapRemove_found [BEq α] [LawfulBEq α] {v : List α} {a : α} {i : Nat}
    (found : v.idxOf? a = some i) : (a :: swapRemove v i).Perm v := by
  rw [List.idxOf?, List.findIdx?_eq_some_iff_getElem] at found
  obtain ⟨inside, matched, -⟩ := found
  rw [← eq_of_beq matched]
  exact swapRemove_perm v i inside

end BlmLink.Lib
