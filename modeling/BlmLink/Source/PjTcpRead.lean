import BlmLink.Source.ClientTcp

/-!
# The read side of a `PjTcp`

`PjTcp::on_ioqueue_read` and `startRead`, blmcomm.cpp:175-183 and 210-213, over the receiving
half of `ioqueue_dispatch_read_event`, ioqueue_common_abs.c:475-580, with
`ClientTcp::onDataRead` as the overridden member. What `pj_sock_recv` answers is the
environment's choice: `startRead` asks for at most 1024 octets. An error status is
positive and arrives as a negative count. After `onClose` the connection is gone and
nothing is delivered to it.
-/
namespace BlmLink.Source

/-- The answer of one `pj_sock_recv`; no octets is the end of the stream. -/
inductive SockRecv where
  | received (data : Bytes) (fits : data.length ≤ 1024)
  | failed (rc : Nat) (error : rc ≠ 0)

namespace SockRecv

/-- The count that `on_read_complete` is called with: `bytes_read = -rc` on an error. -/
def bytesRead : SockRecv → Int
  | .received data _ => data.length
  | .failed rc _ => -rc

/-- The octets of a positive completion. -/
def octets : SockRecv → Bytes
  | .received data _ => data
  | .failed _ _ => []

end SockRecv

/-- `char read_buf[1025]`. -/
abbrev ReadBuf := { bs : Bytes // bs.length = 1025 }

/-- Outcomes of a read completion that are not a return. -/
inductive ReadFault where
  /-- `read_buf[index]` with an index outside 0..1024. -/
  | outOfBounds (index : Int)
  /-- `recved.append(data, data + size)` with a negative size. -/
  | badRange
  /-- A fault of `decodeMsg` or of a callback. -/
  | inside (reason : Fault)
  deriving DecidableEq, Repr

namespace ReadBuf

/-- `pj_sock_recv` writes the octets to the front. -/
def fill (buf : ReadBuf) : SockRecv → ReadBuf
  | .received data fits => ⟨data ++ buf.val.drop data.length, by
      rw [List.length_append, List.length_drop, buf.property]
      omega⟩
  | .failed _ _ => buf

/-- `read_buf[index] = '\0'`. -/
def terminate (buf : ReadBuf) (index : Int) : Except ReadFault ReadBuf :=
  if 0 ≤ index ∧ index ≤ 1024 then
    .ok ⟨buf.val.set index.toNat 0, by rw [List.length_set, buf.property]⟩
  else .error (.outOfBounds index)

/-- The range from `read_buf` to `read_buf + size`. -/
def range (buf : ReadBuf) (size : Int) : Except ReadFault Bytes :=
  if size < 0 then .error .badRange else .ok (buf.val.take size.toNat)

end ReadBuf

/-- A connection as far as reading goes; `client` is what `processMsg` works on. -/
structure ReadSide (σ : Type) where
  read_buf : ReadBuf
  recved : Bytes
  client : σ
  closed : Bool

namespace ReadSide

variable {σ : Type} (rcv : Receiver) (process : σ → Delivered → σ × Option Stop)

/-- A connection that has just started to read; the memory of `read_buf` is not set. -/
def init (read_buf : ReadBuf) (client : σ) : ReadSide σ :=
  { read_buf := read_buf, recved := [], client := client, closed := false }

/-- `PjTcp::on_ioqueue_read`. -/
def onIoqueueRead (c : ReadSide σ) (bytes_read : Int) : Except ReadFault (ReadSide σ) := do
  let read_buf ← c.read_buf.terminate bytes_read
  if bytes_read = 0 then .ok { c with read_buf := read_buf, closed := true }
  else do
    let data ← read_buf.range bytes_read
    let outcome := onDataRead rcv process c.client c.recved data
    match outcome.stop with
    | none =>
      .ok { read_buf := read_buf, recved := outcome.left, client := outcome.state, closed := false }
    | some (.returned _) =>
      .ok { read_buf := read_buf, recved := outcome.left, client := outcome.state, closed := true }
    | some (.fault reason) => .error (.inside reason)

/-- `ioqueue_dispatch_read_event`. -/
def dispatchReadEvent (c : ReadSide σ) (answer : SockRecv) : Except ReadFault (ReadSide σ) :=
  { c with read_buf := c.read_buf.fill answer }.onIoqueueRead rcv process answer.bytesRead

/-- A read completion of an open connection. -/
def next (c : ReadSide σ) (answer : SockRecv) : Option (Except ReadFault (ReadSide σ)) :=
  if c.closed then none else some (c.dispatchReadEvent rcv process answer)

end ReadSide

end BlmLink.Source
