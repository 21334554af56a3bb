import Mathlib

/-!
# Absorbing a text in blocks

A state takes the blocks of `n` at the front of a text one after another (`absorbed`); what is
left is shorter than a block (`pending`). A text that comes in two parts is absorbed like the
whole of it: what the first part has left goes in front of the second (`absorbed_append`,
`pending_append`).
-/
namespace BlmLink.Lib.BlockStream

variable {α σ : Type} {n : Nat} {process : σ → List α → σ}

/-- The state after `k` blocks. -/
def absorb (n : Nat) (process : σ → List α → σ) : Nat → σ → List α → σ
  | 0, state, _ => state
  | k + 1, state, text => absorb n process k (process state (text.take n)) (text.drop n)

/-- The state after the blocks of a text. -/
def absorbed (n : Nat) (process : σ → List α → σ) (state : σ) (text : List α) : σ :=
  absorb n process (text.length / n) state text

/-- What is left of a text behind its blocks. -/
def pending (n : Nat) (text : List α) : List α := text.drop (n * (text.length / n))

theorem length_pending (n : Nat) (text : List α) : (pending n text).length = text.length % n := by
  rw [pending, List.length_drop, Nat.mod_eq_sub_mul_div]

theorem absorb_front (k : Nat) (state : σ) {text : List α} (inside : n * k ≤ text.length)
    (more : List α) : absorb n process k state (text ++ more) = absorb n process k state text := by
  induction k generalizing state text with
  | zero => rfl
  | succ k ih =>
    rw [Nat.mul_succ] at inside
    rw [absorb, absorb, List.take_append_of_le_length (by omega),
      List.drop_append_of_le_length (by omega), ih]
    rw [List.length_drop]
    omega

theorem absorb_add (j k : Nat) (state : σ) (text : List α) :
    absorb n process (j + k) state text =
      absorb n process k (absorb n process j state text) (text.drop (n * j)) := by
  induction j generalizing state text with
  | zero => rw [Nat.zero_add, Nat.mul_zero, List.drop_zero, absorb]
  | succ j ih =>
    rw [Nat.succ_add_eq_add_succ, Nat.add_succ, absorb, ih, absorb, List.drop_drop, Nat.mul_succ,
      Nat.add_comm n]

theorem drop_append_pending (text more : List α) :
    (text ++ more).drop (n * (text.length / n)) = pending n text ++ more := by
  rw [List.drop_append_of_le_length (Nat.mul_div_le _ _), pending]

/-- The blocks of a text and a second one are those of the first, and those of what the first
has left and the second. -/
theorem blocks_append (positive : 0 < n) (text more : List α) :
    (text ++ more).length / n = text.length / n + (pending n text ++ more).length / n := by
  rw [List.length_append, List.length_append, length_pending]
  conv_lhs => rw [← Nat.div_add_mod text.length n, Nat.add_assoc]
  exact Nat.mul_add_div positive _ _

theorem absorbed_append (positive : 0 < n) (state : σ) (text more : List α) :
    absorbed n process state (text ++ more) =
      absorbed n process (absorbed n process state text) (pending n text ++ more) := by
  rw [absorbed, absorbed, absorbed, blocks_append positive, absorb_add, drop_append_pending,
    absorb_front _ _ (Nat.mul_div_le _ _)]

theorem pending_append (positive : 0 < n) (text more : List α) :
    pending n (text ++ more) = pending n (pending n text ++ more) := by
  rw [pending, blocks_append positive, Nat.mul_add, ← List.drop_drop, drop_append_pending, ← pending]

theorem absorbed_short {text : List α} (short : text.length < n) (state : σ) :
    absorbed n process state text = state := by
  rw [absorbed, Nat.div_eq_of_lt short, absorb]

theorem pending_short {text : List α} (short : text.length < n) : pending n text = text := by
  rw [pending, Nat.div_eq_of_lt short, Nat.mul_zero, List.drop_zero]

/-- The first block of a text that is long enough. -/
theorem absorbed_block {text : List α} (positive : 0 < n) (long : n ≤ text.length) (state : σ) :
    absorbed n process state text = absorbed n process (process state (text.take n)) (text.drop n) := by
  have count : text.length / n = (text.drop n).length / n + 1 := by
    rw [List.length_drop, Nat.div_eq_sub_div positive long]
  rw [absorbed, count, absorb, absorbed]

theorem pending_block {text : List α} (positive : 0 < n) (long : n ≤ text.length) :
    pending n text = pending n (text.drop n) := by
  have count : text.length / n = (text.drop n).length / n + 1 := by
    rw [List.length_drop, Nat.div_eq_sub_div positive long]
  rw [pending, count, Nat.mul_succ, Nat.add_comm, ← List.drop_drop, pending]

end BlmLink.Lib.BlockStream
