import BlmLink.Source.BlmClient

/-!
# The client on its I/O queue

`PjTcp::PjTcp`, blmcomm.cpp:160-173, over `pj_ioqueue_connect` and the connect half
of `ioqueue_dispatch_write_event`, ioqueue_common_abs.c:192-280 and 1150-1192. The
result of a connect attempt comes either from `pj_ioqueue_connect` itself or from
a later `on_ioqueue_connect`, never from both: only an attempt in progress sets
`connecting`, and the dispatch clears it before the callback. The constructor
hands the return value to `checkpj`, which reports it and does nothing else.

A read is reported only where `startRead` was called, which is after
`on_ioqueue_connect`. What `pj_sock_connect` answers is the network's choice.
-/
namespace BlmLink.Source

open Lib

/-- The answer of `pj_sock_connect`. -/
inductive SockConnect where
  | connected
  | inProgress
  | failed (code : Nat)
  deriving DecidableEq, Repr

/-- What `pj_ioqueue_connect` returns: `PJ_SUCCESS`, `PJ_EPENDING` or an error. -/
inductive ConnectStatus where
  | success
  | pending
  | error (code : Nat)
  deriving DecidableEq, Repr

/-- `pj_ioqueue_connect` of a new key: `connecting`, and the status returned. -/
def pjIoqueueConnect : SockConnect → Bool × ConnectStatus
  | .connected => (false, .success)
  | .inProgress => (true, .pending)
  | .failed code => (false, .error code)

structure ConnectQueue where
  client : BlmClient
  /-- The connections for which `on_ioqueue_connect` was called. -/
  completed : List Nat

namespace ConnectQueue

-- `net p` is what `pj_sock_connect` answered to the `p`-th `ClientTcp`
variable (env : Env) (net : Nat → SockConnect)

def init : ConnectQueue := { client := .init, completed := [] }

/-- The key of the connection is registered and `connecting` is set. -/
def Connecting (s : ConnectQueue) (p : Nat) : Prop :=
  p ∈ s.client.objs.live ∧ (pjIoqueueConnect (net p)).1 = true ∧ p ∉ s.completed

/-- A receive operation may be pending on the connection. -/
def Reading (s : ConnectQueue) (p : Nat) : Prop := p ∈ s.client.objs.live ∧ p ∈ s.completed

instance (s : ConnectQueue) (p : Nat) : Decidable (s.Connecting net p) :=
  inferInstanceAs (Decidable (_ ∧ _))

instance (s : ConnectQueue) (p : Nat) : Decidable (s.Reading p) :=
  inferInstanceAs (Decidable (_ ∧ _))

/-- The client takes the event. -/
def handle (s : ConnectQueue) (e : BlmClient.Event) (completed : List Nat) :
    Option (Except Fault ConnectQueue) :=
  (s.client.next env e).map fun result => result.map fun client => ⟨client, completed⟩

def next (s : ConnectQueue) : BlmClient.Event → Option (Except Fault ConnectQueue)
  | .connect p status ctx replies closeReplies =>
    if s.Connecting net p then
      s.handle env (.connect p status ctx replies closeReplies) (p :: s.completed)
    else none
  | .read p read ctx replies closeReplies =>
    if s.Reading p then s.handle env (.read p read ctx replies closeReplies) s.completed else none
  | e => s.handle env e s.completed

end ConnectQueue

end BlmLink.Source
