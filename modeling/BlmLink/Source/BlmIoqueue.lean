import BlmLink.Lib.BinaryHeap
import BlmLink.Lib.Objects
import BlmLink.Lib.SwapRemove
import BlmLink.Source.Bytes

/-!
# The timers of `BlmIoqueue`

blmcomm.cpp:16-47 and 274-312, blmbase.cpp:103-105, blmbase_imp.h:35-60. A `TimerObj` is an object on
the heap and `timerCallbacks` a vector of pointers. `poll` is a machine of small
steps, because its callbacks run in the middle of it and may edit the vector:
`fire` takes the front, moves it to the end with `pop_heap` and calls it;
`callbackReturned` resets it, writes it to the last slot and calls `push_heap`.

The heap functions are a parameter. Ticks come with the events. `int` arithmetic
wraps, as on all targets. The I/O half of `poll` is not part of this model.
-/
namespace BlmLink.Source

open Lib BinaryHeap

/-- A member function bound to an object, as `makeSimpleCallback` and
`makeMsgCallback` store it. -/
structure Callback where
  obj : Nat
  fn : Nat
  deriving DecidableEq, Repr

structure Time where
  sec : CInt
  msec : CInt
  deriving DecidableEq, Repr

namespace Time

/-- `(tv1->sec - tv2->sec) * 1000 + tv1->msec - tv2->msec`. -/
def getTickDiff (tv1 tv2 : Time) : CInt := (tv1.sec - tv2.sec) * 1000 + tv1.msec - tv2.msec

/-- Division and remainder round towards zero. -/
def addTick (tv : Time) (millisec : CInt) : Time where
  sec := tv.sec + (millisec + tv.msec).sdiv 1000
  msec := (tv.msec + millisec).srem 1000

end Time

structure TimerObj where
  milliInter : CInt
  timeout : Time
  callback : Callback
  deriving DecidableEq, Repr

namespace TimerObj

/-- `resetTimer`, with the tick that `getTickcount` gives. -/
def resetTimer (timer : TimerObj) (now : Time) : TimerObj :=
  { timer with timeout := now.addTick timer.milliInter }

/-- `TimerObj(interval, cb)`. -/
def make (interval : CInt) (cb : Callback) (now : Time) : TimerObj :=
  { milliInter := interval, timeout := now.addTick interval, callback := cb }

/-- `timer < tv`. -/
def lt (timer : TimerObj) (tv : Time) : Bool :=
  decide ((timer.timeout.getTickDiff tv).toInt < 0)

end TimerObj

/-- Where `poll` stands. -/
inductive PollPhase where
  | idle
  /-- At the head of the timer loop, entered at tick `tv`. -/
  | polling (tv : Time)
  /-- Inside the callback of a timer. -/
  | firing (tv : Time) (timer : Nat)
  deriving DecidableEq, Repr

structure BlmIoqueue where
  /-- The `TimerObj` objects. -/
  objs : Objects TimerObj
  timerCallbacks : List Nat
  phase : PollPhase

/-- `TimerObj::pointerGreater` of two live timers. -/
def pointerGreater (objs : Objects TimerObj) (to1 to2 : Nat) : Bool :=
  match objs.live.lookup to1, objs.live.lookup to2 with
  | some to1, some to2 => to2.lt to1.timeout
  | _, _ => false

/-- `removeAllCallbackFromList` on the timers: the vector, how many were removed,
and the objects that are left. -/
def removeAllCallbackFromList (obj : Option Nat) :
    List Nat → Objects TimerObj → Except Fault (List Nat × Int × Objects TimerObj)
  | [], objs => .ok ([], 0, objs)
  | p :: cbs, objs =>
    match objs.live.lookup p with
    | none => .error (if obj = none then .doubleFree else .useAfterFree)
    | some timer =>
      if obj ≠ none ∧ some timer.callback.obj ≠ obj then do
        let (kept, removed, objs) ← removeAllCallbackFromList obj cbs objs
        .ok (p :: kept, removed, objs)
      else
        match objs.delete p with
        | none => .error .doubleFree
        | some objs => do
          let (kept, removed, objs) ← removeAllCallbackFromList obj cbs objs
          .ok (kept, removed + 1, objs)

namespace BlmIoqueue

variable (stl : HeapFns Nat)

def init : BlmIoqueue := { objs := .init, timerCallbacks := [], phase := .idle }

/-- A heap function on the vector; it compares the objects pointed to. -/
def reheap (q : BlmIoqueue) (heapFn : (Nat → Nat → Bool) → List Nat → List Nat) :
    Except Fault BlmIoqueue :=
  if ∀ p ∈ q.timerCallbacks, p ∈ q.objs.live then
    .ok { q with timerCallbacks := heapFn (pointerGreater q.objs) q.timerCallbacks }
  else .error .useAfterFree

/-- The timer made is the object `q.objs.fresh`. -/
def addTimerCallback_imp (q : BlmIoqueue) (interval : CInt) (scb : Callback) (now : Time) :
    Except Fault BlmIoqueue :=
  { q with
    objs := q.objs.new (.make interval scb now)
    timerCallbacks := q.timerCallbacks ++ [q.objs.fresh] }.reheap stl.push_heap

def removeTimer (q : BlmIoqueue) (timer : Nat) : Except Fault (Int × BlmIoqueue) :=
  match q.timerCallbacks.idxOf? timer with
  | none => .ok (-1, q)
  | some i =>
    match q.objs.delete timer with
    | none => .error .doubleFree
    | some objs => do
      let q ← { q with
        objs := objs, timerCallbacks := swapRemove q.timerCallbacks i }.reheap stl.make_heap
      .ok (0, q)

def removeObjTimers (q : BlmIoqueue) (obj : Option Nat) : Except Fault (Int × BlmIoqueue) := do
  let (kept, removed, objs) ← removeAllCallbackFromList obj q.timerCallbacks q.objs
  .ok (removed, { q with objs := objs, timerCallbacks := kept })

/-- `!timerCallbacks.empty() && *timerCallbacks.front() < tv`: the front, if due. -/
def due (q : BlmIoqueue) (tv : Time) : Except Fault (Option Nat) :=
  match q.timerCallbacks with
  | [] => .ok none
  | front :: _ =>
    match q.objs.live.lookup front with
    | none => .error .useAfterFree
    | some timer => .ok (if timer.lt tv then some front else none)

/-- `resetTimer` at the end of `handleTimeout`, `back() = to` and `push_heap`. -/
def rearm (q : BlmIoqueue) (tv : Time) (p : Nat) (now : Time) : Except Fault BlmIoqueue :=
  match q.objs.live.lookup p with
  | none => .error .useAfterFree
  | some timer =>
    if q.timerCallbacks = [] then .error .emptyFront
    else
      { q with
        objs := q.objs.set p (timer.resetTimer now)
        timerCallbacks := q.timerCallbacks.dropLast ++ [p]
        phase := .polling tv }.reheap stl.push_heap

/-- One pass of the timer loop around a callback that leaves the timers alone. -/
def callFront (q : BlmIoqueue) (tv : Time) (front : Nat) (now : Time) : Except Fault BlmIoqueue := do
  let q ← { q with phase := .firing tv front }.reheap stl.pop_heap
  q.rearm stl tv front now

/-- The timer loop of `poll`, all callbacks leaving the timers alone: the timers called
and the state after it. `readings` is what the clock gives to `resetTimer`, call by call. -/
def pollTimers (tv : Time) : List Time → BlmIoqueue → Except Fault (List Nat × BlmIoqueue)
  | [], q => do
    match ← q.due tv with
    | none => .ok ([], { q with phase := .idle })
    | some _ => .error .outOfFuel
  | now :: readings, q => do
    match ← q.due tv with
    | none => .ok ([], { q with phase := .idle })
    | some front => do
      let q ← q.callFront stl tv front now
      let (called, q) ← pollTimers tv readings q
      .ok (front :: called, q)

inductive Event where
  | addTimerCallback (interval : CInt) (scb : Callback) (now : Time)
  | removeTimer (timer : Nat)
  | removeObjTimers (obj : Option Nat)
  /-- `poll` is called and reads the tick `tv`. -/
  | poll (tv : Time)
  /-- The front is due: `pop_heap`, and its callback is called. -/
  | fire
  | callbackReturned (now : Time)
  /-- The front is not due: the timer loop ends. -/
  | pollDone

/-- The user outside `poll`, and a callback inside it, may edit the timers. -/
def CanEdit (q : BlmIoqueue) : Prop :=
  match q.phase with
  | .polling _ => False
  | _ => True

instance (q : BlmIoqueue) : Decidable q.CanEdit :=
  match phase : q.phase with
  | .idle => isTrue (by simp [CanEdit, phase])
  | .polling _ => isFalse (by simp [CanEdit, phase])
  | .firing _ _ => isTrue (by simp [CanEdit, phase])

def next (q : BlmIoqueue) : Event → Option (Except Fault BlmIoqueue)
  | .addTimerCallback interval scb now =>
    if q.CanEdit then some (q.addTimerCallback_imp stl interval scb now) else none
  | .removeTimer timer => if q.CanEdit then some ((q.removeTimer stl timer).map Prod.snd) else none
  | .removeObjTimers obj => if q.CanEdit then some ((q.removeObjTimers obj).map Prod.snd) else none
  | .poll tv => if q.phase = .idle then some (.ok { q with phase := .polling tv }) else none
  | .fire =>
    match q.phase with
    | .polling tv =>
      match q.due tv with
      | .error reason => some (.error reason)
      | .ok none => none
      | .ok (some front) => some ({ q with phase := .firing tv front }.reheap stl.pop_heap)
    | _ => none
  | .callbackReturned now =>
    match q.phase with
    | .firing tv p => some (q.rearm stl tv p now)
    | _ => none
  | .pollDone =>
    match q.phase with
    | .polling tv =>
      match q.due tv with
      | .error reason => some (.error reason)
      | .ok none => some (.ok { q with phase := .idle })
      | .ok (some _) => none
    | _ => none

end BlmIoqueue

end BlmLink.Source
