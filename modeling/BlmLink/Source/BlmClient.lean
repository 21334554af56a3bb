import BlmLink.Lib.Objects
import BlmLink.Lib.SwapRemove
import BlmLink.Source.BlmIoqueue
import BlmLink.Source.ClientTcp

/-!
# `BlmClient` and the connections it owns

blmcomm.cpp:175-213, 318-321, 350-384 and 401-497, util_fun.cpp:8-25, blmcomm.h:106-121.
A `ClientTcp` is an object on the heap; every use of one through a pointer looks
it up, so a use after `delete` and a second `delete` are faults of the run. What
the user's callbacks do is given with each I/O event: for every callback called,
the client calls it makes and its return value (`Reply`).

`log` is not in the code. The write side of a connection is in `PjTcpWrite`;
here only the buffers handed to `sendData` are kept. Logging and the `checkpj`
and `checktrue` reports have no effect on the state.
-/
namespace BlmLink.Source

open Lib

/-- The loop of `splitString` with the piece read so far. -/
def splitFrom (sep : Byte) : Bytes → Bytes → List Bytes
  | [], cur => if cur = [] then [] else [cur]
  | ch :: cont, cur =>
    if ch = 0 then if cur = [] then [] else [cur]
    else if ch = sep then
      if cur = [] then splitFrom sep cont [] else cur :: splitFrom sep cont []
    else splitFrom sep cont (cur ++ [ch])

/-- `splitString` of a C string. -/
def splitString (cont : Bytes) (sep : Byte) : List Bytes := splitFrom sep cont []

/-- The members of a `ClientTcp`. -/
structure Conn where
  ip : Bytes
  port : BitVec 16
  keys : Keys
  recved : Bytes
  /-- The buffers handed to `sendData`, in order. -/
  sent : List Bytes

/-- What happened so far, for stating properties of runs. -/
inductive Entry where
  /-- `connectFastest` was called. -/
  | connectFastest
  /-- `BlmClient::onConnect` was entered, with what it found. -/
  | onConnect (tcp : Nat) (clientTcp : Option Nat) (tcpCandidates : List Nat)
  /-- `callList(connCallbacks)`. -/
  | connCallbacks
  /-- `callList(closeCallbacks)`. -/
  | closeCallbacks
  /-- One callback was called, a message callback with its arguments. -/
  | called (cb : Callback) (msg : Option Delivered)
  deriving DecidableEq, Repr

structure BlmClient where
  /-- The `ClientTcp` objects. -/
  objs : Objects Conn
  clientTcp : Option Nat
  tcpCandidates : List Nat
  connCallbacks : List Callback
  closeCallbacks : List Callback
  msgMap : List (Int × List Callback)
  /-- `ClientMsg::msgid`. -/
  msgid : CInt
  log : List Entry

/-- A call into the client, from the user or from a callback. -/
inductive Call where
  | connectFastest (ips : Bytes) (port : BitVec 16)
  | disconnect
  | sendMsg (ctx : CallCtx) (mt st : Int) (data : Bytes)

/-- What one callback does when it is called. -/
structure Reply where
  calls : List Call
  ret : Int

/-- After calling callbacks: the first nonzero answer or 0, and the replies not
used yet. -/
structure Ran where
  eno : Int
  client : BlmClient
  replies : List Reply

/-- The platform: libraries, plain `char`, and what `randomBuf` gave the n-th
`ClientTcp` as its AES key. -/
structure Env where
  libs : Libs
  sign : CharSign
  randomKey : Nat → Block

namespace BlmClient

variable (env : Env)

def init : BlmClient where
  objs := .init
  clientTcp := none
  tcpCandidates := []
  connCallbacks := []
  closeCallbacks := []
  msgMap := []
  msgid := 0
  log := []

def note (c : BlmClient) (entry : Entry) : BlmClient := { c with log := c.log ++ [entry] }

/-- `p->`. -/
def deref (c : BlmClient) (p : Nat) : Except Fault Conn :=
  match c.objs.live.lookup p with
  | some conn => .ok conn
  | none => .error .useAfterFree

def delete (c : BlmClient) (p : Nat) : Except Fault BlmClient :=
  match c.objs.delete p with
  | some objs => .ok { c with objs := objs }
  | none => .error .doubleFree

/-- The loop `delete tcpCandidates[i]`. -/
def deleteAll (c : BlmClient) (ps : List Nat) : Except Fault BlmClient := ps.foldlM delete c

/-- `if (clientTcp) { delete clientTcp; clientTcp = NULL; }`. -/
def deleteClientTcp (c : BlmClient) : Except Fault BlmClient :=
  match c.clientTcp with
  | none => .ok c
  | some p => do
    let c ← c.delete p
    .ok { c with clientTcp := none }

def disconnect (c : BlmClient) : Except Fault BlmClient := do
  let c ← c.deleteClientTcp
  let c ← c.deleteAll c.tcpCandidates
  .ok { c with tcpCandidates := [] }

/-- `tcpCandidates.push_back(new ClientTcp(ip, port, this))`. -/
def addCandidate (c : BlmClient) (port : BitVec 16) (ip : Bytes) : BlmClient :=
  let keys : Keys := { rc4 := rc4_key, aes := env.randomKey c.objs.fresh }
  { c with
    objs := c.objs.new { ip := ip, port := port, keys := keys, recved := [], sent := [] }
    tcpCandidates := c.tcpCandidates ++ [c.objs.fresh] }

def connectFastest (c : BlmClient) (ips : Bytes) (port : BitVec 16) : Except Fault BlmClient := do
  let c := c.note .connectFastest
  let dropped : Except Fault BlmClient :=
    if c.clientTcp ≠ none ∨ 0 < c.tcpCandidates.length then c.disconnect else .ok c
  let c ← dropped
  .ok ((splitString ips 0x20).foldl (fun c ip => c.addCandidate env port ip) c)

/-- The two `sendData` calls of a `sendMsg` on the object `p`. -/
def store (c : BlmClient) (p : Nat) (conn : Conn) (sent : Sent) : BlmClient :=
  { c with
    msgid := sent.msgid
    objs := c.objs.set p { conn with sent := conn.sent ++ sent.bufs } }

/-- `clientTcp ? clientTcp->sendMsg(..) : -1`; without a connection nothing is sent. -/
def send (c : BlmClient) (ctx : CallCtx) (mt st : Int) (data : Bytes) : Except Fault BlmClient :=
  match c.clientTcp with
  | none => .ok c
  | some p => do
    let conn ← c.deref p
    let sent ← BlmClient.sendMsg env.libs (some conn.keys) ctx c.msgid mt st data
    .ok (c.store p conn sent)

def call (c : BlmClient) : Call → Except Fault BlmClient
  | .connectFastest ips port => c.connectFastest env ips port
  | .disconnect => c.disconnect
  | .sendMsg ctx mt st data => c.send env ctx mt st data

/-- `callList`, and the loop of `processMsg`: call each until one answers nonzero. -/
def callList (msg : Option Delivered) : List Callback → BlmClient → List Reply → Except Fault Ran
  | [], c, replies => .ok ⟨0, c, replies⟩
  | _ :: _, _, [] => .error .noReply
  | cb :: cbs, c, reply :: replies => do
    let c ← reply.calls.foldlM (call env) (c.note (.called cb msg))
    if reply.ret ≠ 0 then .ok ⟨reply.ret, c, replies⟩ else callList msg cbs c replies

def processMsg (c : BlmClient) (msg : Delivered) (replies : List Reply) : Except Fault Ran :=
  match c.msgMap.lookup msg.mt with
  | none => .ok ⟨0, c, replies⟩
  | some cbs => callList env (some msg) cbs c replies

/-- `onConnect` up to the callbacks: `tcp` becomes the connection, all other
candidates are deleted. -/
def accept (c : BlmClient) (tcp : Nat) : Except Fault BlmClient := do
  let c := c.note (.onConnect tcp c.clientTcp c.tcpCandidates)
  let c ← c.deleteAll (c.tcpCandidates.filter (· ≠ tcp))
  .ok { c with tcpCandidates := [], clientTcp := some tcp }

def onConnect (c : BlmClient) (tcp : Nat) (replies : List Reply) : Except Fault Ran := do
  let c ← c.accept tcp
  callList env none c.connCallbacks (c.note .connCallbacks) replies

/-- The loop of `onClose` that deletes the candidate, if it is one. -/
def dropCandidate (c : BlmClient) (tcp : Nat) : Except Fault BlmClient :=
  match c.tcpCandidates.idxOf? tcp with
  | none => .ok c
  | some i => do
    let c ← c.delete tcp
    .ok { c with tcpCandidates := swapRemove c.tcpCandidates i }

def onClose (c : BlmClient) (tcp : Nat) (replies : List Reply) : Except Fault Ran := do
  let c ← c.dropCandidate tcp
  if c.tcpCandidates ≠ [] then .ok ⟨0, c, replies⟩
  else
    let c ← c.disconnect
    callList env none c.closeCallbacks (c.note .closeCallbacks) replies

/-- `ClientTcp::onConnect`: send the key frame, then tell the client. -/
def tcpOnConnect (c : BlmClient) (p : Nat) (ctx : CallCtx) (replies : List Reply) :
    Except Fault Ran := do
  let conn ← c.deref p
  let buf := rc4buf conn.keys.rc4.val conn.keys.aes.val
  let sent ← ClientTcp.sendMsg env.libs conn.keys ctx c.msgid 0xff 0xff 0 1 buf
  (c.store p conn sent).onConnect env p replies

/-- `ClientTcp::onClose`, called through the object. -/
def tcpOnClose (c : BlmClient) (p : Nat) (replies : List Reply) : Except Fault Ran := do
  let _ ← c.deref p
  c.onClose env p replies

/-- `startRead` uses the key, the operation and the buffer of the object. -/
def startRead (c : BlmClient) (p : Nat) : Except Fault BlmClient := do
  let _ ← c.deref p
  .ok c

/-- `processMsg` as the frame loop of the object `p` calls it: after an answer 0
the loop goes on to read `recved`. -/
def process (p : Nat) (s : BlmClient × List Reply) (msg : Delivered) :
    (BlmClient × List Reply) × Option Stop :=
  match s.1.processMsg env msg s.2 with
  | .error reason => (s, some (.fault reason))
  | .ok ran =>
    if ran.eno ≠ 0 then ((ran.client, ran.replies), some (.returned ran.eno))
    else
      match ran.client.deref p with
      | .error reason => ((ran.client, ran.replies), some (.fault reason))
      | .ok _ => ((ran.client, ran.replies), none)

/-- How the connection `conn` reads. -/
def receiver (conn : Conn) (ctx : CallCtx) : Receiver where
  rc4key := conn.keys.rc4.val
  sign := env.sign
  decode := ClientTcp.decodeMsg env.libs conn.keys ctx

/-- `ClientTcp::onDataRead` on the object `p`. Between two frames `recved` is in
the loop's hands; it is stored when the loop ends, if the object is still there. -/
def tcpOnDataRead (c : BlmClient) (p : Nat) (data : Bytes) (ctx : CallCtx) (replies : List Reply) :
    Except Fault Ran := do
  let conn ← c.deref p
  let outcome := Source.onDataRead (receiver env conn ctx) (process env p) (c, replies) conn.recved data
  let (c, replies) := outcome.state
  let stored : BlmClient := match c.objs.live.lookup p with
    | some conn => { c with objs := c.objs.set p { conn with recved := outcome.left } }
    | none => c
  match outcome.stop with
  | some (.fault reason) => .error reason
  | some (.returned eno) => .ok ⟨eno, stored, replies⟩
  | none => .ok ⟨0, stored, replies⟩

/-- The client after an I/O event, and the replies left of the connect or message
callbacks and of the close callbacks. -/
structure Handled where
  client : BlmClient
  replies : List Reply
  closeReplies : List Reply

/-- The end of `on_ioqueue_connect` and `on_ioqueue_read`: close or read on. -/
def closeOrRead (ran : Ran) (closing : Bool) (p : Nat) (closeReplies : List Reply) :
    Except Fault Handled :=
  if closing then do
    let closed ← ran.client.tcpOnClose env p closeReplies
    .ok ⟨closed.client, ran.replies, closed.replies⟩
  else do
    let c ← ran.client.startRead p
    .ok ⟨c, ran.replies, closeReplies⟩

/-- `on_ioqueue_connect`; status 0 is `PJ_SUCCESS`. -/
def onIoqueueConnect (c : BlmClient) (p : Nat) (status : Int) (ctx : CallCtx)
    (replies closeReplies : List Reply) : Except Fault Handled :=
  if status ≠ 0 then closeOrRead env ⟨0, c, replies⟩ true p closeReplies
  else do
    let ran ← c.tcpOnConnect env p ctx replies
    closeOrRead env ran (ran.eno ≠ 0) p closeReplies

/-- `on_ioqueue_read`. No octets is the end of the stream. A failed read, `none`,
comes with a negative count: `onDataRead` then appends a reversed range. -/
def onIoqueueRead (c : BlmClient) (p : Nat) (read : Option Bytes) (ctx : CallCtx)
    (replies closeReplies : List Reply) : Except Fault Handled :=
  match read with
  | none => .error .badRange
  | some [] => closeOrRead env ⟨0, c, replies⟩ true p closeReplies
  | some (byte :: data) => do
    let ran ← c.tcpOnDataRead env p (byte :: data) ctx replies
    closeOrRead env ran (ran.eno ≠ 0) p closeReplies

/-- `msgMap[mt].push_front(cb)`. -/
def addToMsgMap (mt : Int) (cb : Callback) : List (Int × List Callback) → List (Int × List Callback)
  | [] => [(mt, [cb])]
  | (mt', cbs) :: rest =>
    if mt' = mt then (mt', cb :: cbs) :: rest else (mt', cbs) :: addToMsgMap mt cb rest

/-- What the user and the I/O queue do. An I/O event carries what the callbacks
called during it do, the close callbacks apart from the others. -/
inductive Event where
  | call (call : Call)
  | addConnectCallback (cb : Callback)
  | addCloseCallback (cb : Callback)
  | addMsgCallback (mt : Int) (cb : Callback)
  | connect (p : Nat) (status : Int) (ctx : CallCtx) (replies closeReplies : List Reply)
  | read (p : Nat) (read : Option Bytes) (ctx : CallCtx) (replies closeReplies : List Reply)

/-- An event is a run of the code only if the callbacks it describes were called. -/
def allUsed : Except Fault Handled → Option (Except Fault BlmClient)
  | .error reason => some (.error reason)
  | .ok ⟨c, [], []⟩ => some (.ok c)
  | .ok _ => none

/-- One event. The I/O queue reports only on live objects, since `~PjTcp`
unregisters the key, and a connect operation only once and to a candidate, since
the constructor starts it. -/
def next (c : BlmClient) : Event → Option (Except Fault BlmClient)
  | .call call => some (c.call env call)
  | .addConnectCallback cb => some (.ok { c with connCallbacks := cb :: c.connCallbacks })
  | .addCloseCallback cb => some (.ok { c with closeCallbacks := cb :: c.closeCallbacks })
  | .addMsgCallback mt cb => some (.ok { c with msgMap := addToMsgMap mt cb c.msgMap })
  | .connect p status ctx replies closeReplies =>
    if p ∈ c.tcpCandidates then allUsed (c.onIoqueueConnect env p status ctx replies closeReplies)
    else none
  | .read p read ctx replies closeReplies =>
    if p ∈ c.objs.live then allUsed (c.onIoqueueRead env p read ctx replies closeReplies)
    else none

end BlmClient

end BlmLink.Source
