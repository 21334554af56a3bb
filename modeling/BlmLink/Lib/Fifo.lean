import BlmLink.Lib.Trace

/-!
# The FIFO queue as an abstract machine

Its state is the list of items, oldest first. An operation appends a batch at the
end or takes a batch off the front, possibly an empty one.
-/
namespace BlmLink.Lib.Fifo

variable {α : Type}

inductive Op (α : Type) where
  | put (items : List α)
  | take (items : List α)
  deriving DecidableEq

def Step (queue : List α) (op : Op α) (queue' : List α) : Prop :=
  match op with
  | .put items => queue' = queue ++ items
  | .take items => queue = items ++ queue'

/-- All items put, in the order of the operations. -/
def added : List (Op α) → List α
  | [] => []
  | .put items :: ops => items ++ added ops
  | .take _ :: ops => added ops

/-- All items taken, in the order of the operations. -/
def taken : List (Op α) → List α
  | [] => []
  | .put _ :: ops => taken ops
  | .take items :: ops => items ++ taken ops

/-- What a run takes, followed by what it leaves, is what was there followed by
what it put. -/
theorem taken_append {queue queue' : List α} {ops : List (Op α)}
    (run : Trace.Run Step queue ops queue') : taken ops ++ queue' = queue ++ added ops := by
  induction run with
  | nil queue => simp [taken, added]
  | @cons queue middle queue' op ops first _ ih =>
    cases op with
    | put items =>
      obtain rfl : middle = queue ++ items := first
      rw [taken, added, ih, List.append_assoc]
    | take items =>
      obtain rfl : queue = items ++ middle := first
      rw [taken, added, List.append_assoc, ih, List.append_assoc]

end BlmLink.Lib.Fifo
