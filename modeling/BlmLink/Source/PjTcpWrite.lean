import BlmLink.Source.Bytes

/-!
# The write side of a `PjTcp`

`PjTcp::sendData` and `on_ioqueue_write`, blmcomm.cpp:185-196 and 221-225, over
`pj_ioqueue_send` and the write half of `ioqueue_dispatch_write_event`,
ioqueue_common_abs.c:282-400 and 813-920, for a registered key on a connected
stream socket. What `pj_sock_send` answers is the environment's choice. All sends
of a connection share one `write_op`, which neither `PjTcp` nor pjlib initialises.
`sendData` ignores the status and the length that `pj_ioqueue_send` gives back.
-/
namespace BlmLink.Source

/-- The answer of one `pj_sock_send`: it took up to `n` octets, it would block,
or it failed. -/
inductive SockSend where
  | sent (n : Nat)
  | blocked
  | failed (code : Nat)
  deriving DecidableEq, Repr

/-- The members of `struct write_operation` that are used; `op` says whether the
operation is other than `PJ_IOQUEUE_OP_NONE`, and `buf` which `sendData` call
made the buffer it points to. -/
structure WriteOp where
  op : Bool
  buf : Nat
  data : Bytes
  written : Nat
  deriving DecidableEq, Repr

/-- Status and length that `pj_ioqueue_send` gives back. -/
inductive SendStatus where
  | success (length : Nat)
  | pending
  | busy
  | error (code : Nat)
  deriving DecidableEq, Repr

/-- A connection as far as writing goes. `write_list` says whether `write_op` is
on the key's list. `calls` records the buffers passed to `sendData`, `wire` the
octets the socket took. -/
structure WriteSide where
  write_bufs : List (Nat × Bytes)
  write_op : WriteOp
  write_list : Bool
  calls : List Bytes
  wire : Bytes
  deriving DecidableEq, Repr

namespace WriteSide

/-- A new connection; `op` is what the memory of `write_op` held. -/
def init (op : Bool) : WriteSide :=
  { write_bufs := [], write_op := ⟨op, 0, [], 0⟩, write_list := false, calls := [], wire := [] }

/-- The asynchronous half of `pj_ioqueue_send`: spinning does not help while the
same thread would have to clear `op`. -/
def schedule (c : WriteSide) (buf : Nat) (data : Bytes) : WriteSide × SendStatus :=
  if c.write_op.op then (c, .busy)
  else ({ c with write_op := ⟨true, buf, data, 0⟩, write_list := true }, .pending)

/-- `pj_ioqueue_send`: at once if nothing is queued, else through `write_op`. -/
def pjIoqueueSend (c : WriteSide) (buf : Nat) (data : Bytes) (sock : SockSend) :
    WriteSide × SendStatus :=
  if c.write_list then c.schedule buf data
  else
    match sock with
    | .sent n => ({ c with wire := c.wire ++ data.take n }, .success (min n data.length))
    | .blocked => c.schedule buf data
    | .failed code => (c, .error code)

/-- `PjTcp::sendData`. -/
def sendData (c : WriteSide) (data : Bytes) (sock : SockSend) : WriteSide :=
  let buf := c.calls.length
  ({ c with write_bufs := c.write_bufs ++ [(buf, data)], calls := c.calls ++ [data] }.pjIoqueueSend
    buf data sock).1

/-- `PjTcp::on_ioqueue_write`; `none` is `front` of an empty list. `onDataWritten`
returns 0, so the connection is not closed here. -/
def onIoqueueWrite (c : WriteSide) (_bytes_written : Int) : Option WriteSide :=
  match c.write_bufs with
  | [] => none
  | _ :: rest => some { c with write_bufs := rest }

/-- Take `write_op` off the list and report its completion. -/
def complete (c : WriteSide) (bytes_written : Int) : Option WriteSide :=
  { c with write_op := { c.write_op with op := false }, write_list := false }.onIoqueueWrite
    bytes_written

/-- `ioqueue_dispatch_write_event`. A failing send ends the operation, and so does
one that would block: what was not yet written is dropped. -/
def dispatchWriteEvent (c : WriteSide) (sock : SockSend) : Option WriteSide :=
  if c.write_list then
    let tail := c.write_op.data.drop c.write_op.written
    match sock with
    | .sent n =>
      let written := c.write_op.written + min n tail.length
      let c' := { c with wire := c.wire ++ tail.take n
                         write_op := { c.write_op with written := written } }
      if written = c.write_op.data.length then c'.complete written else some c'
    | .blocked => c.complete (-1)
    | .failed code => c.complete (-code)
  else some c

/-- What the environment can make happen on the write side. -/
inductive Event where
  | sendData (data : Bytes) (sock : SockSend)
  | writable (sock : SockSend)
  deriving DecidableEq, Repr

def next (c : WriteSide) : Event → Option WriteSide
  | .sendData data sock => some (c.sendData data sock)
  | .writable sock => c.dispatchWriteEvent sock

/-- The octets of the queued operation that the socket has not taken. -/
def pendingTail (c : WriteSide) : Bytes :=
  if c.write_list then c.write_op.data.drop c.write_op.written else []

/-- The octets an event submits for sending. -/
def Event.submitted : Event → Bytes
  | .sendData data _ => data
  | .writable _ => []

/-- The octets that an event takes out of the stream: they are neither on the
wire nor queued after it. -/
def dropped (c : WriteSide) : Event → Bytes
  | .sendData data sock =>
    if c.write_list then data
    else
      match sock with
      | .sent n => data.drop n
      | .blocked => if c.write_op.op then data else []
      | .failed _ => data
  | .writable sock =>
    match sock with
    | .sent _ => []
    | .blocked => c.pendingTail
    | .failed _ => c.pendingTail

/-- `write_op` is on the list only while it holds an operation. -/
def QueuedOp (c : WriteSide) : Prop := c.write_list = true → c.write_op.op = true

/-- After a completion nothing is queued, and the wire is as it was. -/
theorem complete_eq {c c' : WriteSide} {bytes_written : Int}
    (completed : c.complete bytes_written = some c') :
    c'.wire = c.wire ∧ c'.calls = c.calls ∧ c'.QueuedOp ∧ c'.pendingTail = [] := by
  unfold complete onIoqueueWrite at completed
  split at completed
  · cases completed
  · cases completed
    exact ⟨rfl, rfl, by simp [QueuedOp], by simp [pendingTail]⟩

theorem sendData_calls (c : WriteSide) (data : Bytes) (sock : SockSend) :
    (c.sendData data sock).calls = c.calls ++ [data] := by
  unfold sendData pjIoqueueSend schedule
  dsimp only
  split
  · split <;> rfl
  · cases sock with
    | sent n => rfl
    | blocked => dsimp only; split <;> rfl
    | failed code => rfl

/-- `sendData` keeps `QueuedOp`, and accounts for every octet it was given. -/
theorem sendData_conserves (c : WriteSide) (data : Bytes) (sock : SockSend) (queuedOp : c.QueuedOp) :
    (c.sendData data sock).QueuedOp ∧
      (c.sendData data sock).wire ++ (c.sendData data sock).pendingTail ++
        c.dropped (.sendData data sock) = c.wire ++ c.pendingTail ++ data := by
  cases queued : c.write_list with
  | true =>
    have busy := queuedOp queued
    simp [sendData, pjIoqueueSend, schedule, QueuedOp, dropped, pendingTail, queued, busy]
  | false =>
    cases sock with
    | sent n => simp [sendData, pjIoqueueSend, QueuedOp, dropped, pendingTail, queued]
    | blocked =>
      cases busy : c.write_op.op with
      | true =>
        simp [sendData, pjIoqueueSend, schedule, QueuedOp, dropped, pendingTail, queued, busy]
      | false =>
        simp [sendData, pjIoqueueSend, schedule, QueuedOp, dropped, pendingTail, queued, busy]
    | failed code => simp [sendData, pjIoqueueSend, QueuedOp, dropped, pendingTail, queued]

/-- A write event keeps `QueuedOp`, and accounts for every octet that was queued. -/
theorem dispatchWriteEvent_conserves (c c' : WriteSide) (sock : SockSend) (queuedOp : c.QueuedOp)
    (dispatched : c.dispatchWriteEvent sock = some c') :
    c'.QueuedOp ∧ c'.calls = c.calls ∧
      c'.wire ++ c'.pendingTail ++ c.dropped (.writable sock) = c.wire ++ c.pendingTail := by
  unfold dispatchWriteEvent at dispatched
  cases queued : c.write_list with
  | false =>
    rw [if_neg (by simp [queued])] at dispatched
    cases dispatched
    refine ⟨queuedOp, rfl, ?_⟩
    cases sock <;> simp [dropped, pendingTail, queued]
  | true =>
    rw [if_pos queued] at dispatched
    cases sock with
    | sent n =>
      dsimp only at dispatched
      split at dispatched
      next full =>
        obtain ⟨wire, calls, queuedOp', noTail⟩ := complete_eq dispatched
        refine ⟨queuedOp', calls, ?_⟩
        have all : (c.write_op.data.drop c.write_op.written).length ≤ n := by
          rw [List.length_drop] at full ⊢
          omega
        rw [noTail, wire]
        simp [dropped, pendingTail, queued, List.take_of_length_le all]
      next partly =>
        cases dispatched
        refine ⟨queuedOp, rfl, ?_⟩
        have rest : c.write_op.data.drop (c.write_op.written +
            min n (c.write_op.data.drop c.write_op.written).length) =
            (c.write_op.data.drop c.write_op.written).drop n := by
          rw [List.drop_drop, List.length_drop]
          by_cases short : n ≤ c.write_op.data.length - c.write_op.written
          · rw [Nat.min_eq_left short]
          · rw [List.drop_of_length_le (by omega), List.drop_of_length_le (by omega)]
        simp only [pendingTail, queued, ↓reduceIte, dropped, List.append_nil, rest, List.append_assoc,
          List.take_append_drop]
    | blocked =>
      obtain ⟨wire, calls, queuedOp', noTail⟩ := complete_eq dispatched
      exact ⟨queuedOp', calls, by simp [wire, noTail, dropped]⟩
    | failed code =>
      obtain ⟨wire, calls, queuedOp', noTail⟩ := complete_eq dispatched
      exact ⟨queuedOp', calls, by simp [wire, noTail, dropped]⟩

/-- Every event accounts for every octet: what was on the wire or queued, and what
it submits, is on the wire, queued or dropped after it. -/
theorem next_conserves (c c' : WriteSide) (e : Event) (queuedOp : c.QueuedOp)
    (stepped : c.next e = some c') :
    c'.QueuedOp ∧ c'.calls.flatten = c.calls.flatten ++ e.submitted ∧
      c'.wire ++ c'.pendingTail ++ c.dropped e = c.wire ++ c.pendingTail ++ e.submitted := by
  cases e with
  | sendData data sock =>
    cases stepped
    obtain ⟨queuedOp', conserved⟩ := sendData_conserves c data sock queuedOp
    refine ⟨queuedOp', ?_, conserved⟩
    rw [sendData_calls]
    simp [Event.submitted]
  | writable sock =>
    obtain ⟨queuedOp', calls, conserved⟩ := dispatchWriteEvent_conserves c c' sock queuedOp stepped
    exact ⟨queuedOp', by simp [calls, Event.submitted], by simpa [Event.submitted] using conserved⟩

end WriteSide

end BlmLink.Source
