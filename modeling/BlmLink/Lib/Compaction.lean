import Mathlib

/-!
# Compaction in place

The loop that moves the kept entries of a list to its first nodes and then erases the
nodes behind them. One index reads, one writes, both in the same list, so an entry may
be written over before the loop ends; it never is before the loop has read it.
-/
namespace BlmLink.Lib

variable {α : Type}

/-- The list in the middle of the loop: `result` is the node to be written next. -/
structure Compaction (α : Type) where
  nodes : List α
  result : Nat
  dropped : List α
  removed : Int

namespace Compaction

/-- The loop is at the node `first`. -/
def visit (keep : α → Bool) (c : Compaction α) (first : Nat) : Compaction α :=
  match c.nodes[first]? with
  | none => c
  | some a =>
    if keep a then { c with nodes := c.nodes.set c.result a, result := c.result + 1 }
    else { c with dropped := c.dropped ++ [a], removed := c.removed + 1 }

/-- The loop over all nodes. -/
def run (keep : α → Bool) (as : List α) : Compaction α :=
  (List.range as.length).foldl (visit keep) ⟨as, 0, [], 0⟩

/-- Erases the nodes from `result` on. -/
def erase (c : Compaction α) : List α := c.nodes.take c.result

/-- The loop has read `front`, and `rest` is still in place. -/
structure Read (keep : α → Bool) (front rest : List α) (c : Compaction α) : Prop where
  unread : c.nodes.drop front.length = rest
  length : c.nodes.length = front.length + rest.length
  written : c.nodes.take c.result = front.filter keep
  behind : c.result ≤ front.length
  dropped : c.dropped = front.filter fun a => !keep a
  counted : c.removed = c.dropped.length

variable {keep : α → Bool} {front rest : List α} {a : α} {c : Compaction α}

theorem read_start (keep : α → Bool) (as : List α) : Read keep [] as ⟨as, 0, [], 0⟩ where
  unread := rfl
  length := (Nat.zero_add _).symm
  written := rfl
  behind := Nat.le_refl _
  dropped := rfl
  counted := rfl

theorem visit_kept {first : Nat} (current : c.nodes[first]? = some a) (kept : keep a = true) :
    visit keep c first =
      { c with nodes := c.nodes.set c.result a, result := c.result + 1 } := by
  simp [visit, current, kept]

theorem visit_dropped {first : Nat} (current : c.nodes[first]? = some a) (out : keep a = false) :
    visit keep c first = { c with dropped := c.dropped ++ [a], removed := c.removed + 1 } := by
  simp [visit, current, out]

theorem read_visit (read : Read keep front (a :: rest) c) :
    Read keep (front ++ [a]) rest (visit keep c front.length) := by
  obtain ⟨unread, length, written, behind, dropped, counted⟩ := read
  rw [List.length_cons] at length
  have current : c.nodes[front.length]? = some a := by
    rw [← Nat.add_zero front.length, ← List.getElem?_drop, unread]
    rfl
  have next : c.nodes.drop (front ++ [a]).length = rest := by
    rw [List.length_append, ← List.drop_drop, unread]
    rfl
  have total : c.nodes.length = (front ++ [a]).length + rest.length := by
    rw [List.length_append, List.length_singleton]
    omega
  have further : c.result + 1 ≤ (front ++ [a]).length := by
    rw [List.length_append]
    exact Nat.add_le_add_right behind 1
  cases kept : keep a with
  | true =>
    rw [visit_kept current kept]
    -- The node written is the one read or one before it, so the rest stays in place.
    refine ⟨?_, ?_, ?_, further, ?_, counted⟩
    · rw [List.drop_set_of_lt further, next]
    · rw [List.length_set, total]
    · rw [List.filter_append, ← written, List.filter_singleton, kept, List.take_add_one,
        List.take_set_of_le (Nat.le_refl _), List.getElem?_set_self (by omega)]
      rfl
    · simp [dropped, kept]
  | false =>
    rw [visit_dropped current kept]
    refine ⟨next, total, ?_, Nat.le_of_succ_le further, ?_, ?_⟩
    · simp [written, kept]
    · simp [dropped, kept]
    · simp [counted]

theorem read_foldl (keep : α → Bool) (as : List α) (k : Nat) (bound : k ≤ as.length) :
    Read keep (as.take k) (as.drop k) ((List.range k).foldl (visit keep) ⟨as, 0, [], 0⟩) := by
  induction k with
  | zero => exact read_start keep as
  | succ k ih =>
    have inside : k < as.length := bound
    have read := ih (Nat.le_of_lt inside)
    rw [List.drop_eq_getElem_cons inside] at read
    have step := read_visit read
    rw [List.length_take_of_le (Nat.le_of_lt inside), List.take_append_getElem inside] at step
    rw [List.range_succ, List.foldl_append]
    exact step

/-- The entries kept, in their order, are what is left of the list; the others are dropped
and counted. -/
theorem run_spec (keep : α → Bool) (as : List α) :
    (run keep as).erase = as.filter keep ∧
      (run keep as).dropped = as.filter (fun a => !keep a) ∧
      (run keep as).removed = (as.filter fun a => !keep a).length := by
  have read := read_foldl keep as as.length (Nat.le_refl _)
  rw [List.take_length] at read
  refine ⟨read.written, read.dropped, ?_⟩
  rw [← read.dropped]
  exact read.counted

end Compaction

end BlmLink.Lib
