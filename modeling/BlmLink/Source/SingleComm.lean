import BlmLink.Source.BlmIoqueue

/-!
# The callbacks of `SingleComm`

blmcomm.h:73-121, blmcomm.cpp:16-31, 75-121, 303-316, 417-426 and 483-515. A callback bound to
an object is in one of five places: a `TimerObj`, the connect list, the close list, a
list of `msgMap`, or a `PjHttp` whose request is in progress. `removeObj` goes through
the first four.

A callback runs in the middle of the loop that calls it and may edit what the loop
walks, so the loops are steps of a machine, as in `BlmIoqueue`: `walk` enters
`callList` or the loop of `processMsg`, and `returned` ends one call and goes on to the
next node. A walk holds an iterator, here the place of its node in the list.
`removeAllCallbackFromList` moves the kept pointers to the first nodes and erases the
last ones; `push_front` moves every node one place on.

Using freed memory sets `corrupted`; after that anything may be called (`stray`). Which
activity goes on when is left open, so every order the I/O queue can produce is a run.
The connections themselves are in `BlmClient`; the messages and results passed to the
callbacks are left out. `log` and the names of the callback objects are not in the code.
-/
namespace BlmLink.Source

open Lib BinaryHeap

/-- An object made by `makeSimpleCallback`, `makeMsgCallback` or `makeDataCallback`. -/
structure CallbackObj where
  id : Nat
  callback : Callback
  deriving DecidableEq, Repr

/-- Where a callback is registered. -/
inductive Slot where
  | timer
  | connect
  | close
  | message (mt : Int)
  | wget
  deriving DecidableEq, Repr

/-- `callList` or the loop of `processMsg` on the list of `slot`. The iterator is on the node
`index`, or on one that was erased. -/
structure Walk where
  slot : Slot
  index : Option Nat
  deriving DecidableEq, Repr

inductive CommEntry where
  | registered (slot : Slot) (cb : CallbackObj)
  /-- `removeObj` returned. -/
  | removedObj (obj : Option Nat)
  | called (slot : Slot) (cb : CallbackObj)
  deriving DecidableEq, Repr

structure SingleComm where
  timers : BlmIoqueue
  connCallbacks : List CallbackObj
  closeCallbacks : List CallbackObj
  msgMap : List (Int × List CallbackObj)
  /-- The `onComplete` callbacks of the requests whose `on_complete` is due. -/
  requests : List CallbackObj
  /-- The loops in progress, the innermost first. -/
  walks : List Walk
  /-- The name of the next callback object. -/
  fresh : Nat
  corrupted : Bool
  log : List CommEntry

/-- `removeAllCallbackFromList` on a list: the list and how many were removed. -/
def removeAllFromList (obj : Option Nat) : List CallbackObj → List CallbackObj × Int
  | [] => ([], 0)
  | cb :: cbs =>
    let (kept, removed) := removeAllFromList obj cbs
    if obj ≠ none ∧ some cb.callback.obj ≠ obj then (cb :: kept, removed) else (kept, removed + 1)

/-- `msgMap[mt].push_front(cb)`. -/
def pushMsg (mt : Int) (cb : CallbackObj) :
    List (Int × List CallbackObj) → List (Int × List CallbackObj)
  | [] => [(mt, [cb])]
  | (mt', cbs) :: rest =>
    if mt' = mt then (mt', cb :: cbs) :: rest else (mt', cbs) :: pushMsg mt cb rest

namespace SingleComm

variable (stl : HeapFns Nat)

def init : SingleComm where
  timers := .init
  connCallbacks := []
  closeCallbacks := []
  msgMap := []
  requests := []
  walks := []
  fresh := 0
  corrupted := false
  log := []

def note (s : SingleComm) (entry : CommEntry) : SingleComm := { s with log := s.log ++ [entry] }

/-- The list that a walk of `slot` goes through. -/
def callbacks (s : SingleComm) : Slot → List CallbackObj
  | .connect => s.connCallbacks
  | .close => s.closeCallbacks
  | .message mt => (s.msgMap.lookup mt).getD []
  | _ => []

/-- `push_front`: the iterators on the list of `slot` stay on their nodes. -/
def shift (slot : Slot) (walk : Walk) : Walk :=
  if walk.slot = slot then { walk with index := walk.index.map (· + 1) } else walk

/-- The new callback object is `s.fresh`. -/
def register (s : SingleComm) (slot : Slot) (callback : Callback) : SingleComm :=
  { s with fresh := s.fresh + 1, walks := s.walks.map (shift slot) }.note
    (.registered slot ⟨s.fresh, callback⟩)

def addConnectCallback (s : SingleComm) (callback : Callback) : SingleComm :=
  { s.register .connect callback with connCallbacks := ⟨s.fresh, callback⟩ :: s.connCallbacks }

def addCloseCallback (s : SingleComm) (callback : Callback) : SingleComm :=
  { s.register .close callback with closeCallbacks := ⟨s.fresh, callback⟩ :: s.closeCallbacks }

def addMsgCallback (s : SingleComm) (mt : Int) (callback : Callback) : SingleComm :=
  { s.register (.message mt) callback with msgMap := pushMsg mt ⟨s.fresh, callback⟩ s.msgMap }

/-- `wget`: the `PjHttp` made owns the callback until its `on_complete`. -/
def wget (s : SingleComm) (callback : Callback) : SingleComm :=
  { s.register .wget callback with requests := s.requests ++ [⟨s.fresh, callback⟩] }

/-- The iterator of a walk after a removal left its list with these callbacks. -/
def settle (s : SingleComm) (walk : Walk) : Walk :=
  { walk with index := walk.index.filter (· < (s.callbacks walk.slot).length) }

def removeObjCallbacks (s : SingleComm) (obj : Option Nat) : Int × SingleComm :=
  let (connCallbacks, removedConn) := removeAllFromList obj s.connCallbacks
  let (closeCallbacks, removedClose) := removeAllFromList obj s.closeCallbacks
  let removedMsg := (s.msgMap.map fun entry => (removeAllFromList obj entry.2).2).sum
  let lists := s.msgMap.map fun entry => (entry.1, (removeAllFromList obj entry.2).1)
  let s := { s with
    connCallbacks := connCallbacks
    closeCallbacks := closeCallbacks
    msgMap := lists.filter fun entry => !entry.2.isEmpty }
  (removedConn + removedClose + removedMsg, { s with walks := s.walks.map s.settle })

/-- `removeObj`; a failure below it uses freed memory. -/
def removeObj (s : SingleComm) (obj : Option Nat) : Int × SingleComm :=
  match s.timers.removeObjTimers obj with
  | .error _ => (0, { s with corrupted := true })
  | .ok (r, timers) =>
    let (r', s) := { s with timers := timers }.removeObjCallbacks obj
    (r + r', s.note (.removedObj obj))

/-- The iterator of the innermost walk goes on to the node `i`, if there is one. -/
def visit (s : SingleComm) (slot : Slot) (i : Nat) (outer : List Walk) : SingleComm :=
  match (s.callbacks slot)[i]? with
  | none => { s with walks := outer }
  | some cb => { s with walks := ⟨slot, some i⟩ :: outer }.note (.called slot cb)

/-- The innermost callback returns: an answer other than 0 ends its loop. -/
def returned (s : SingleComm) (ret : Int) : Option SingleComm :=
  match s.walks with
  | [] => none
  | walk :: outer =>
    if ret ≠ 0 then some { s with walks := outer }
    else
      match walk.index with
      | none => some { s with corrupted := true }
      | some i => some (s.visit walk.slot (i + 1) outer)

/-- What a step of the timers adds to the log. -/
def timerEntries (q q' : BlmIoqueue) : BlmIoqueue.Event → List CommEntry
  | .addTimerCallback _ scb _ => [.registered .timer ⟨q.objs.fresh, scb⟩]
  | .fire =>
    match q'.phase with
    | .firing _ p => ((q'.objs.live.lookup p).map fun timer =>
        CommEntry.called .timer ⟨p, timer.callback⟩).toList
    | _ => []
  | _ => []

/-- A step of the timers. -/
def stepTimers (s : SingleComm) (e : BlmIoqueue.Event) : Option SingleComm :=
  match s.timers.next stl e with
  | none => none
  | some (.error _) => some { s with corrupted := true }
  | some (.ok timers) =>
    some { s with timers := timers, log := s.log ++ timerEntries s.timers timers e }

/-- `on_complete` of the request of `cb`: the callback is called and the `PjHttp` deleted. -/
def complete (s : SingleComm) (cb : CallbackObj) : Option SingleComm :=
  if cb ∈ s.requests then
    some ({ s with requests := s.requests.erase cb }.note (.called .wget cb))
  else none

inductive Event where
  /-- A call of the timer functions of `BlmIoqueue`, or a step of its `poll`. -/
  | timer (e : BlmIoqueue.Event)
  | addConnectCallback (callback : Callback)
  | addCloseCallback (callback : Callback)
  | addMsgCallback (mt : Int) (callback : Callback)
  | wget (callback : Callback)
  | removeObjCallbacks (obj : Option Nat)
  | removeObj (obj : Option Nat)
  /-- `callList` or `processMsg` begins. -/
  | walk (slot : Slot)
  | returned (ret : Int)
  | complete (cb : CallbackObj)
  /-- The code goes on with what freed memory holds. -/
  | stray (slot : Slot) (cb : CallbackObj)

def next (s : SingleComm) : Event → Option SingleComm
  | .timer e => s.stepTimers stl e
  | .addConnectCallback callback => some (s.addConnectCallback callback)
  | .addCloseCallback callback => some (s.addCloseCallback callback)
  | .addMsgCallback mt callback => some (s.addMsgCallback mt callback)
  | .wget callback => some (s.wget callback)
  | .removeObjCallbacks obj => some (s.removeObjCallbacks obj).2
  | .removeObj obj => if s.timers.CanEdit then some (s.removeObj obj).2 else none
  | .walk slot => some (s.visit slot 0 s.walks)
  | .returned ret => s.returned ret
  | .complete cb => s.complete cb
  | .stray slot cb => if s.corrupted then some (s.note (.called slot cb)) else none

end SingleComm

end BlmLink.Source
