import BlmLink.Guarantees.SendOrder

/-!
# The buffers a connection keeps for its sends

`PjTcp::sendData` puts a copy of the data on `write_bufs` before every
`pj_ioqueue_send`; `on_ioqueue_write` takes the oldest copy off. The queue calls it
only for a send that was scheduled, so a send that ends at once, or is refused,
leaves its copy behind: from then on completions release the wrong buffer
(`write_bufs_drift`), and `write_bufs` is exact in the runs where every send is
scheduled and only there (`write_bufs_exact_iff`). The buffer of the scheduled send
is never among those released before its own completion (`pending_buffer_kept`).
-/
namespace BlmLink.Guarantees.WriteBuffers

open BlmLink.Lib BlmLink.Source

/-- The buffers of the sends that are still pending. -/
def pendingBufs (c : WriteSide) : List Nat :=
  if c.write_list then [c.write_op.buf] else []

/-- The event ends the scheduled operation, so that `on_ioqueue_write` is entered. -/
def Completes (c : WriteSide) : WriteSide.Event → Prop
  | .sendData _ _ => False
  | .writable (.sent n) => c.write_list = true ∧
      c.write_op.written + min n (c.write_op.data.drop c.write_op.written).length =
        c.write_op.data.length
  | .writable .blocked => c.write_list = true
  | .writable (.failed _) => c.write_list = true

/-- A send is scheduled: nothing is queued, the socket would block and `write_op` is
free. -/
def EndsPending (c : WriteSide) : WriteSide.Event → Prop
  | .sendData _ sock => c.write_list = false ∧ sock = .blocked ∧ c.write_op.op = false
  | .writable _ => True

/-- What an event does to `write_bufs` and to the scheduled operation. -/
inductive Move (c : WriteSide) : WriteSide.Event → WriteSide → Prop where
  | scheduled {data : Bytes} {sock : SockSend} {c' : WriteSide}
      (pending : EndsPending c (.sendData data sock))
      (pushed : c'.write_bufs = c.write_bufs ++ [(c.calls.length, data)])
      (queued : c'.write_list = true) (op : c'.write_op = ⟨true, c.calls.length, data, 0⟩) :
      Move c (.sendData data sock) c'
  | unscheduled {data : Bytes} {sock : SockSend} {c' : WriteSide}
      (ended : ¬ EndsPending c (.sendData data sock))
      (pushed : c'.write_bufs = c.write_bufs ++ [(c.calls.length, data)])
      (list : c'.write_list = c.write_list) (op : c'.write_op = c.write_op) :
      Move c (.sendData data sock) c'
  | advanced {sock : SockSend} {c' : WriteSide} (unfinished : ¬ Completes c (.writable sock))
      (bufs : c'.write_bufs = c.write_bufs) (list : c'.write_list = c.write_list)
      (buf : c'.write_op.buf = c.write_op.buf) (data : c'.write_op.data = c.write_op.data) :
      Move c (.writable sock) c'
  | completed {sock : SockSend} {c' : WriteSide} {front : Nat × Bytes}
      (finished : Completes c (.writable sock)) (popped : c.write_bufs = front :: c'.write_bufs)
      (list : c'.write_list = false) :
      Move c (.writable sock) c'

/-- A send that is not scheduled leaves its copy and nothing else. -/
theorem sendData_ended (c : WriteSide) (data : Bytes) (sock : SockSend) (queuedOp : c.QueuedOp)
    (ended : ¬ EndsPending c (.sendData data sock)) :
    (c.sendData data sock).write_bufs = c.write_bufs ++ [(c.calls.length, data)] ∧
      (c.sendData data sock).write_list = c.write_list ∧
      (c.sendData data sock).write_op = c.write_op := by
  cases queued : c.write_list with
  | true =>
    have busy := queuedOp queued
    simp [WriteSide.sendData, WriteSide.pjIoqueueSend, WriteSide.schedule, queued, busy]
  | false =>
    cases sock with
    | sent n => simp [WriteSide.sendData, WriteSide.pjIoqueueSend, queued]
    | blocked =>
      have busy : c.write_op.op = true := by
        by_contra free
        exact ended ⟨queued, rfl, Bool.eq_false_iff.mpr free⟩
      simp [WriteSide.sendData, WriteSide.pjIoqueueSend, WriteSide.schedule, queued, busy]
    | failed code => simp [WriteSide.sendData, WriteSide.pjIoqueueSend, queued]

theorem sendData_move (c : WriteSide) (data : Bytes) (sock : SockSend) (queuedOp : c.QueuedOp) :
    Move c (.sendData data sock) (c.sendData data sock) := by
  by_cases pending : EndsPending c (.sendData data sock)
  · obtain ⟨queued, rfl, free⟩ := pending
    refine .scheduled ⟨queued, rfl, free⟩ ?_ ?_ ?_ <;>
      simp [WriteSide.sendData, WriteSide.pjIoqueueSend, WriteSide.schedule, queued, free]
  · obtain ⟨pushed, list, op⟩ := sendData_ended c data sock queuedOp pending
    exact .unscheduled pending pushed list op

/-- A completion takes the oldest copy off, if there is one. -/
theorem complete_pops {c c' : WriteSide} {bytes_written : Int}
    (completed : c.complete bytes_written = some c') :
    (∃ front, c.write_bufs = front :: c'.write_bufs) ∧ c'.write_list = false := by
  unfold WriteSide.complete WriteSide.onIoqueueWrite at completed
  split at completed
  next => cases completed
  next front rest bufs =>
    cases completed
    exact ⟨⟨front, bufs⟩, rfl⟩

theorem writable_move {c c' : WriteSide} {sock : SockSend}
    (dispatched : c.dispatchWriteEvent sock = some c') : Move c (.writable sock) c' := by
  unfold WriteSide.dispatchWriteEvent at dispatched
  cases queued : c.write_list with
  | false =>
    rw [if_neg (by simp [queued])] at dispatched
    cases dispatched
    exact .advanced (by cases sock <;> simp [Completes, queued]) rfl rfl rfl rfl
  | true =>
    rw [if_pos queued] at dispatched
    cases sock with
    | sent n =>
      dsimp only at dispatched
      split at dispatched
      next full =>
        obtain ⟨⟨front, popped⟩, list⟩ := complete_pops dispatched
        exact .completed ⟨queued, full⟩ popped list
      next partly =>
        cases dispatched
        exact .advanced (fun finished => partly finished.2) rfl rfl rfl rfl
    | blocked =>
      obtain ⟨⟨front, popped⟩, list⟩ := complete_pops dispatched
      exact .completed queued popped list
    | failed code =>
      obtain ⟨⟨front, popped⟩, list⟩ := complete_pops dispatched
      exact .completed queued popped list

theorem next_move {c c' : WriteSide} {e : WriteSide.Event} (queuedOp : c.QueuedOp)
    (stepped : c.next e = some c') : Move c e c' := by
  cases e with
  | sendData data sock =>
    cases stepped
    exact sendData_move c data sock queuedOp
  | writable sock => exact writable_move stepped

theorem complete_stuck {c : WriteSide} {bytes_written : Int}
    (stuck : c.complete bytes_written = none) : c.write_bufs = [] := by
  unfold WriteSide.complete WriteSide.onIoqueueWrite at stuck
  split at stuck
  next bufs => exact bufs
  next => cases stuck

/-- An event is stuck only where `on_ioqueue_write` finds no copy. -/
theorem next_stuck {c : WriteSide} {e : WriteSide.Event} (stuck : c.next e = none) :
    Completes c e ∧ c.write_bufs = [] := by
  cases e with
  | sendData data sock => cases stuck
  | writable sock =>
    change c.dispatchWriteEvent sock = none at stuck
    unfold WriteSide.dispatchWriteEvent at stuck
    split at stuck
    next queued =>
      cases sock with
      | sent n =>
        dsimp only at stuck
        split at stuck
        next full =>
          have empty := complete_stuck stuck
          exact ⟨⟨queued, full⟩, empty⟩
        next => cases stuck
      | blocked => exact ⟨queued, complete_stuck stuck⟩
      | failed code => exact ⟨queued, complete_stuck stuck⟩
    next => cases stuck

/-- The copy that the scheduled operation points to is on the list. -/
structure Kept (c : WriteSide) : Prop where
  queuedOp : c.QueuedOp
  held : c.write_list = true → (c.write_op.buf, c.write_op.data) ∈ c.write_bufs

theorem kept_init (op : Bool) : Kept (.init op) :=
  ⟨by simp [WriteSide.QueuedOp, WriteSide.init], by simp [WriteSide.init]⟩

theorem kept_step {c c' : WriteSide} {e : WriteSide.Event} (before : Kept c)
    (stepped : SendOrder.Step c e c') : Kept c' := by
  have queuedOp := (WriteSide.next_conserves c c' e before.queuedOp stepped).1
  refine ⟨queuedOp, ?_⟩
  intro queued
  cases next_move before.queuedOp stepped with
  | scheduled _ pushed _ op => simp [pushed, op]
  | unscheduled _ pushed list op =>
    have held := before.held (list ▸ queued)
    rw [pushed, op]
    exact List.mem_append_left _ held
  | advanced _ bufs list buf data =>
    rw [bufs, buf, data]
    exact before.held (list ▸ queued)
  | completed _ _ list =>
    rw [list] at queued
    cases queued

theorem completes_queued {c : WriteSide} {e : WriteSide.Event} (finished : Completes c e) :
    c.write_list = true := by
  match e, finished with
  | .writable (.sent _), finished => exact finished.1
  | .writable .blocked, finished => exact finished
  | .writable (.failed _), finished => exact finished

/-- In every run, whatever `write_op` held at first and whatever the socket answers:
while an operation is scheduled, its completion included, the copy it points to is on
`write_bufs`, so that `on_ioqueue_write` finds a front element and no event is stuck. -/
theorem pending_buffer_kept (op : Bool) (events : List WriteSide.Event) (c : WriteSide)
    (run : Trace.Run SendOrder.Step (.init op) events c) :
    (c.write_list = true → (c.write_op.buf, c.write_op.data) ∈ c.write_bufs) ∧
      (∀ e, Completes c e → c.write_bufs ≠ []) ∧ ∀ e, ∃ c', c.next e = some c' := by
  have kept := run.invariant (kept_init op) kept_step
  have nonempty : ∀ e, Completes c e → c.write_bufs ≠ [] := fun e finished =>
    List.ne_nil_of_mem (kept.held (completes_queued finished))
  refine ⟨kept.held, nonempty, ?_⟩
  intro e
  cases stepped : c.next e with
  | some c' => exact ⟨c', rfl⟩
  | none =>
    obtain ⟨finished, empty⟩ := next_stuck stepped
    exact absurd empty (nonempty e finished)

/-- A refused send stays behind a scheduled one. -/
theorem pending_buffer_kept_refused :
    ∃ c, Trace.Run SendOrder.Step (.init false)
      [.sendData [1] (.failed 104), .sendData [2, 3] .blocked, .sendData [4] .blocked] c ∧
      c.write_bufs = [(0, [1]), (1, [2, 3]), (2, [4])] ∧
      (c.write_op.buf, c.write_op.data) ∈ c.write_bufs ∧
      Completes c (.writable (.failed 32)) ∧ c.write_bufs ≠ [] := by
  have run : Trace.Run SendOrder.Step (.init false)
      [.sendData [1] (.failed 104), .sendData [2, 3] .blocked, .sendData [4] .blocked]
      ⟨[(0, [1]), (1, [2, 3]), (2, [4])], ⟨true, 1, [2, 3], 0⟩, true, [[1], [2, 3], [4]], []⟩ :=
    .cons rfl (.cons rfl (.cons rfl (.nil _)))
  obtain ⟨held, nonempty, _⟩ := pending_buffer_kept false _ _ run
  exact ⟨_, run, rfl, held rfl, rfl, nonempty (.writable (.failed 32)) rfl⟩

/-- `write_bufs` holds the copies of the pending sends and no others, and at a
completion its front is the copy whose send has ended. -/
structure Exact (c : WriteSide) : Prop where
  held : c.write_bufs.map Prod.fst = pendingBufs c
  front : ∀ e, Completes c e → c.write_bufs.head?.map Prod.fst = some c.write_op.buf

theorem exact_of_held {c : WriteSide} (held : c.write_bufs.map Prod.fst = pendingBufs c) :
    Exact c := by
  refine ⟨held, ?_⟩
  intro e finished
  rw [pendingBufs, if_pos (completes_queued finished)] at held
  rw [← List.head?_map, held]
  rfl

theorem exact_step {c c' : WriteSide} {e : WriteSide.Event} (queuedOp : c.QueuedOp)
    (before : Exact c) (stepped : SendOrder.Step c e c') (pending : EndsPending c e) :
    Exact c' := by
  apply exact_of_held
  have held := before.held
  cases next_move queuedOp stepped with
  | scheduled idle pushed queued op =>
    rw [pendingBufs, if_neg (by simp [idle.1])] at held
    simp [pendingBufs, pushed, queued, op, held]
  | unscheduled ended => exact absurd pending ended
  | advanced _ bufs list buf => rw [bufs, held, pendingBufs, pendingBufs, list, buf]
  | completed finished popped list =>
    rw [pendingBufs, if_pos (completes_queued finished), popped] at held
    simp only [List.map_cons, List.cons.injEq] at held
    simp [pendingBufs, list, held.2]

/-- A send that is not scheduled makes `write_bufs` longer than the pending sends. -/
theorem pending_of_exact {c c' : WriteSide} {e : WriteSide.Event} (queuedOp : c.QueuedOp)
    (before : Exact c) (stepped : SendOrder.Step c e c') (after : Exact c') :
    EndsPending c e := by
  cases next_move queuedOp stepped with
  | scheduled pending => exact pending
  | unscheduled _ pushed list op =>
    have longer := congrArg List.length after.held
    have same : pendingBufs c' = pendingBufs c := by rw [pendingBufs, pendingBufs, list, op]
    rw [same, ← before.held, pushed] at longer
    simp at longer
  | advanced => trivial
  | completed => trivial

theorem exact_init (op : Bool) : Exact (.init op) := exact_of_held rfl

/-- Along a run, whatever `write_op` held at first, `write_bufs` is exact in every
state passed through if and only if every `sendData` call of the run ends with its
send scheduled. -/
theorem write_bufs_exact_iff (op : Bool) (events : List WriteSide.Event) (c : WriteSide)
    (run : Trace.Run SendOrder.Step (.init op) events c) :
    (∀ earlier later passed, events = earlier ++ later →
        Trace.Run SendOrder.Step (.init op) earlier passed → Exact passed) ↔
      Trace.Run (Trace.Guarded SendOrder.Step EndsPending) (.init op) events c := by
  constructor
  · intro exact
    exact run.guarded_of_passed (kept_init op) (fun kept => kept_step kept) exact
      (fun kept before stepped after => pending_of_exact kept.queuedOp before stepped after)
  · rintro guarded earlier later passed rfl reached
    obtain ⟨passed', front, _⟩ := guarded.append_inv
    obtain rfl := reached.unique (Trace.functional_ofOption _) front.forget
    have both := front.invariant (P := fun c => Kept c ∧ Exact c) ⟨kept_init op, exact_init op⟩
      (fun before stepped => ⟨kept_step before.1 stepped.1,
        exact_step before.1.queuedOp before.2 stepped.1 stepped.2⟩)
    exact both.2

/-- Two scheduled sends, the first one completed before the second. -/
theorem write_bufs_exact_scheduled :
    ∃ c, Trace.Run (Trace.Guarded SendOrder.Step EndsPending) (.init false)
      [.sendData [1, 2] .blocked, .writable (.sent 2), .sendData [3] .blocked] c ∧
      c.write_bufs = [(1, [3])] ∧ Exact c := by
  have run : Trace.Run SendOrder.Step (.init false)
      [.sendData [1, 2] .blocked, .writable (.sent 2), .sendData [3] .blocked]
      ⟨[(1, [3])], ⟨true, 1, [3], 0⟩, true, [[1, 2], [3]], [1, 2]⟩ :=
    .cons rfl (.cons rfl (.cons rfl (.nil _)))
  have guarded : Trace.Run (Trace.Guarded SendOrder.Step EndsPending) (.init false)
      [.sendData [1, 2] .blocked, .writable (.sent 2), .sendData [3] .blocked]
      ⟨[(1, [3])], ⟨true, 1, [3], 0⟩, true, [[1, 2], [3]], [1, 2]⟩ :=
    .cons ⟨rfl, rfl, rfl, rfl⟩ (.cons ⟨rfl, trivial⟩ (.cons ⟨rfl, rfl, rfl, rfl⟩ (.nil _)))
  have exact := (write_bufs_exact_iff false _ _ run).mpr guarded
  exact ⟨_, guarded, rfl, exact _ [] _ rfl run⟩

/-- A send that goes through at once, then a scheduled one: two copies for one pending
send, and the completion of the second send releases the copy of the first. -/
theorem write_bufs_drift :
    ¬ ∀ (op : Bool) (events : List WriteSide.Event) (c : WriteSide),
      Trace.Run SendOrder.Step (.init op) events c → Exact c := by
  intro claim
  have run : Trace.Run SendOrder.Step (.init false)
      [.sendData [1] (.sent 1), .sendData [2] .blocked]
      ⟨[(0, [1]), (1, [2])], ⟨true, 1, [2], 0⟩, true, [[1], [2]], [1]⟩ :=
    .cons rfl (.cons rfl (.nil _))
  have front := (claim false _ _ run).front (.writable (.sent 1)) ⟨rfl, rfl⟩
  exact absurd front (by decide)

end BlmLink.Guarantees.WriteBuffers
