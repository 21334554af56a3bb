import BlmLink.Lib.Trace

/-!
# The timer heap of pjlib

pjlib/src/pj/timer.c:38-527 with pjlib/include/pj/types.h:407-480 and pjlib/src/pj/types.c:23-46.
`BlmIoqueue` makes one with room for 32 entries and polls it; the HTTP requests schedule their
timeouts on it. Entries belong to the callers and are named by numbers; of an entry the heap uses
`_timer_id` and `_timer_value`. A pointer in `heap` that was never written is `none`. Every
access to an array answers `none` when it is outside the array or reads such a pointer, and a loop
answers `none` when its bound is used up.

`pj_timer_heap_poll` releases the lock while it calls a callback, and the callback, or another
thread, may use the heap meanwhile: an iteration of its loop is one step (`PjTimers`). Times are
`long`s that do not overflow; the assertions return. `set_lock` and `destroy` only concern the
lock.
-/
namespace BlmLink.Source

structure PjTimeVal where
  sec : Int
  msec : Int
  deriving DecidableEq, Repr

namespace PjTimeVal

/-- `PJ_TIME_VAL_GT` -/
def gt (t1 t2 : PjTimeVal) : Bool := t1.sec > t2.sec || (t1.sec == t2.sec && t1.msec > t2.msec)

/-- `PJ_TIME_VAL_GTE` -/
def gte (t1 t2 : PjTimeVal) : Bool := gt t1 t2 || (t1.sec == t2.sec && t1.msec == t2.msec)

/-- `PJ_TIME_VAL_LT` -/
def lt (t1 t2 : PjTimeVal) : Bool := !gte t1 t2

/-- `PJ_TIME_VAL_LTE` -/
def lte (t1 t2 : PjTimeVal) : Bool := !gt t1 t2

/-- `pj_time_val_normalize`; its loop adds seconds while `msec <= -1000`. -/
def normalize (t : PjTimeVal) : PjTimeVal :=
  let t : PjTimeVal :=
    if 1000 ≤ t.msec then ⟨t.sec + t.msec / 1000, t.msec % 1000⟩
    else if t.msec ≤ -1000 then ⟨t.sec - -t.msec / 1000, t.msec + 1000 * (-t.msec / 1000)⟩
    else t
  if 1 ≤ t.sec ∧ t.msec < 0 then ⟨t.sec - 1, t.msec + 1000⟩
  else if t.sec < 0 ∧ 0 < t.msec then ⟨t.sec + 1, t.msec - 1000⟩
  else t

/-- `PJ_TIME_VAL_ADD` -/
def add (t1 t2 : PjTimeVal) : PjTimeVal := normalize ⟨t1.sec + t2.sec, t1.msec + t2.msec⟩

/-- `PJ_TIME_VAL_SUB` -/
def sub (t1 t2 : PjTimeVal) : PjTimeVal := normalize ⟨t1.sec - t2.sec, t1.msec - t2.msec⟩

end PjTimeVal

/-- `pj_timer_entry` -/
structure PjTimerEntry where
  _timer_id : Int
  _timer_value : PjTimeVal
  deriving DecidableEq, Repr

/-- `pj_timer_heap_t` with the entries. -/
structure PjTimerHeap where
  max_size : Nat
  cur_size : Nat
  max_entries_per_poll : Nat
  heap : List (Option Nat)
  timer_ids : List Int
  timer_ids_freelist : Int
  entries : Nat → PjTimerEntry

namespace PjTimerHeap

def HEAP_PARENT (x : Nat) : Nat := if x = 0 then 0 else (x - 1) / 2

def HEAP_LEFT (x : Nat) : Nat := x + x + 1

/-- `heap[slot]` -/
def node (ht : PjTimerHeap) (slot : Nat) : Option Nat := ht.heap[slot]?.join

/-- `timer_ids[id]` -/
def timerId (ht : PjTimerHeap) (id : Int) : Option Int :=
  if 0 ≤ id then ht.timer_ids[id.toNat]? else none

/-- `timer_ids[id] = value` -/
def setTimerId (ht : PjTimerHeap) (id value : Int) : Option PjTimerHeap :=
  if 0 ≤ id ∧ id.toNat < ht.timer_ids.length then
    some { ht with timer_ids := ht.timer_ids.set id.toNat value }
  else none

def setEntry (ht : PjTimerHeap) (p : Nat) (entry : PjTimerEntry) : PjTimerHeap :=
  { ht with entries := Function.update ht.entries p entry }

/-- `PJ_TIME_VAL_LT` on two entries. -/
def before (ht : PjTimerHeap) (p q : Nat) : Bool :=
  (ht.entries p)._timer_value.lt (ht.entries q)._timer_value

def copy_node (ht : PjTimerHeap) (slot : Nat) (moved_node : Nat) : Option PjTimerHeap :=
  if slot < ht.heap.length then
    { ht with heap := ht.heap.set slot (some moved_node) }.setTimerId
      (ht.entries moved_node)._timer_id slot
  else none

def pop_freelist (ht : PjTimerHeap) : Option (Int × PjTimerHeap) := do
  let next ← ht.timerId ht.timer_ids_freelist
  some (ht.timer_ids_freelist, { ht with timer_ids_freelist := -next })

def push_freelist (ht : PjTimerHeap) (old_id : Int) : Option PjTimerHeap := do
  let ht' ← ht.setTimerId old_id (-ht.timer_ids_freelist)
  some { ht' with timer_ids_freelist := old_id }

/-- The smaller of the two children. -/
def smallerChild (ht : PjTimerHeap) (child : Nat) : Option Nat :=
  if child + 1 < ht.cur_size then do
    let right ← ht.node (child + 1)
    let left ← ht.node child
    some (if ht.before right left then child + 1 else child)
  else some child

def reheap_down : (fuel : Nat) → (ht : PjTimerHeap) → (moved_node slot child : Nat) →
    Option PjTimerHeap
  | 0, _, _, _, _ => none
  | fuel + 1, ht, moved_node, slot, child =>
    if child < ht.cur_size then do
      let child ← ht.smallerChild child
      let lower ← ht.node child
      if ht.before lower moved_node then
        let ht ← ht.copy_node slot lower
        reheap_down fuel ht moved_node child (HEAP_LEFT child)
      else ht.copy_node slot moved_node
    else ht.copy_node slot moved_node

def reheap_up : (fuel : Nat) → (ht : PjTimerHeap) → (moved_node slot parent : Nat) →
    Option PjTimerHeap
  | 0, _, _, _, _ => none
  | fuel + 1, ht, moved_node, slot, parent =>
    if 0 < slot then do
      let upper ← ht.node parent
      if ht.before moved_node upper then
        let ht ← ht.copy_node slot upper
        reheap_up fuel ht moved_node parent (HEAP_PARENT parent)
      else ht.copy_node slot moved_node
    else ht.copy_node slot moved_node

/-- The end of `remove_node`: the entry that was moved to `slot` goes on from there. -/
def reheap (ht : PjTimerHeap) (moved_node slot parent : Nat) : Option PjTimerHeap := do
  let upper ← ht.node parent
  if (ht.entries moved_node)._timer_value.gte (ht.entries upper)._timer_value then
    ht.reheap_down (ht.cur_size + 1) moved_node slot (HEAP_LEFT slot)
  else ht.reheap_up (ht.cur_size + 1) moved_node slot parent

/-- The entry removed, and the heap after it. -/
def remove_node (ht : PjTimerHeap) (slot : Nat) : Option (Nat × PjTimerHeap) := do
  let removed_node ← ht.node slot
  let ht ← ht.push_freelist (ht.entries removed_node)._timer_id
  let ht := { ht with cur_size := ht.cur_size - 1 }
  let ht := ht.setEntry removed_node { ht.entries removed_node with _timer_id := -1 }
  if slot < ht.cur_size then
    let moved_node ← ht.node ht.cur_size
    let ht ← ht.copy_node slot moved_node
    let ht ← ht.reheap moved_node slot (HEAP_PARENT slot)
    some (removed_node, ht)
  else some (removed_node, ht)

def grow_heap (ht : PjTimerHeap) : PjTimerHeap :=
  let new_size := ht.max_size * 2
  { ht with
    heap := ht.heap.take ht.max_size ++ List.replicate (new_size - ht.max_size) none
    timer_ids := ht.timer_ids.take ht.max_size ++
      (List.range' ht.max_size (new_size - ht.max_size)).map fun i : Nat => -((i : Int) + 1)
    max_size := new_size }

def insert_node (ht : PjTimerHeap) (new_node : Nat) : Option PjTimerHeap := do
  let ht := if ht.max_size ≤ ht.cur_size + 2 then ht.grow_heap else ht
  let ht ← ht.reheap_up (ht.cur_size + 1) new_node ht.cur_size (HEAP_PARENT ht.cur_size)
  some { ht with cur_size := ht.cur_size + 1 }

/-- `schedule_entry`, with its status. -/
def schedule_entry (ht : PjTimerHeap) (entry : Nat) (future_time : PjTimeVal) :
    Option (Int × PjTimerHeap) :=
  if ht.cur_size < ht.max_size then do
    let (new_id, ht) ← ht.pop_freelist
    let ht ← (ht.setEntry entry ⟨new_id, future_time⟩).insert_node entry
    some (0, ht)
  else some (-1, ht)

/-- `cancel`, with its count; `pj_timer_heap_cancel` passes 1 for `dont_call`. -/
def cancel (ht : PjTimerHeap) (entry : Nat) : Option (Nat × PjTimerHeap) :=
  let id := (ht.entries entry)._timer_id
  if id < 0 ∨ (ht.max_size : Int) < id then some (0, ht)
  else do
    let timer_node_slot ← ht.timerId id
    if timer_node_slot < 0 then some (0, ht)
    else
      let found ← ht.node timer_node_slot.toNat
      if entry ≠ found then some (0, ht)
      else
        let (_, ht) ← ht.remove_node timer_node_slot.toNat
        some (1, ht)

/-- `pj_timer_heap_create`, over entries of the callers. -/
def create (size : Nat) (entries : Nat → PjTimerEntry) : PjTimerHeap where
  max_size := size + 2
  cur_size := 0
  max_entries_per_poll := 64
  heap := List.replicate (size + 2) none
  timer_ids := (List.range (size + 2)).map fun i : Nat => -((i : Int) + 1)
  timer_ids_freelist := 1
  entries := entries

def PJ_EINVALIDOP : Int := 70013

/-- `pj_timer_heap_schedule`; `now` is what `pj_gettickcount` gives. -/
def schedule (ht : PjTimerHeap) (entry : Nat) (now delay : PjTimeVal) : Option (Int × PjTimerHeap) :=
  if (ht.entries entry)._timer_id < 1 then ht.schedule_entry entry (now.add delay)
  else some (PJ_EINVALIDOP, ht)

/-- An iteration of the loop of `pj_timer_heap_poll` after `count` others: the entry whose callback
is called, or `none` when the loop ends. -/
def pollOnce (ht : PjTimerHeap) (now : PjTimeVal) (count : Nat) : Option (Option Nat × PjTimerHeap) :=
  if ht.cur_size = 0 then some (none, ht)
  else do
    let front ← ht.node 0
    if (ht.entries front)._timer_value.lte now ∧ count < ht.max_entries_per_poll then
      let (node, ht) ← ht.remove_node 0
      some (some node, ht)
    else some (none, ht)

end PjTimerHeap

/-- A heap and the polls that are in their loops, each with its `now` and `count`. -/
structure PjTimers where
  ht : PjTimerHeap
  polls : List (PjTimeVal × Nat)

namespace PjTimers

inductive Event where
  | schedule (entry : Nat) (now delay : PjTimeVal)
  | cancel (entry : Nat)
  | poll (now : PjTimeVal)
  /-- The next iteration of a poll. -/
  | iterate (i : Nat)
  deriving DecidableEq, Repr

/-- What a call returns; `fired` is the call of an entry's callback. -/
inductive Output where
  | status (status : Int)
  | count (count : Nat)
  | began
  | fired (entry : Nat)
  | ended (count : Nat)
  | nothing
  deriving DecidableEq, Repr

def next (s : PjTimers) : Event → Option (Output × PjTimers)
  | .schedule entry now delay => do
    let (status, ht) ← s.ht.schedule entry now delay
    some (.status status, { s with ht := ht })
  | .cancel entry => do
    let (count, ht) ← s.ht.cancel entry
    some (.count count, { s with ht := ht })
  | .poll now => some (.began, { s with polls := s.polls ++ [(now, 0)] })
  | .iterate i =>
    match s.polls[i]? with
    | none => some (.nothing, s)
    | some (now, count) => do
      let (called, ht) ← s.ht.pollOnce now count
      match called with
      | some entry => some (.fired entry, ⟨ht, s.polls.set i (now, count + 1)⟩)
      | none => some (.ended count, ⟨ht, s.polls.eraseIdx i⟩)

def run (s : PjTimers) : List Event → Option (List Output × PjTimers)
  | [] => some ([], s)
  | e :: events => do
    let (output, s) ← s.next e
    let (outputs, s) ← run s events
    some (output :: outputs, s)

end PjTimers

end BlmLink.Source
