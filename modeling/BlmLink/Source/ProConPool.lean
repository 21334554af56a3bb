import BlmLink.Lib.Fifo
import BlmLink.Source.Bytes
import Mathlib

/-!
# `ProConPool` and the threads that share it

blmbase.h:87-103. `Pool` is the class and one definition for each locked body;
`System` runs any number of threads on it. A locked body is one step, since
`Autolock` holds the pool's mutex throughout. `remove` and `removeAll` wait on
`available` before they lock, so each is three steps: the call, the return of
`available.wait`, and the locked body. The lists that `addAll` empties and
`removeAll` appends to are the callers' own. `history` is not in the code: it
records what each locked body appended or took, in the order of the bodies.
-/
namespace BlmLink.Source.ProConPool

open Lib

structure Pool (α : Type) where
  sz : CInt
  data : List α
  /-- The semaphore's count. -/
  available : Nat

namespace Pool

variable {α : Type}

/-- `ProConPool()`. -/
def init : Pool α := { sz := 0, data := [], available := 0 }

/-- `available.post()`. -/
def post (p : Pool α) : Pool α := { p with available := p.available + 1 }

def add (p : Pool α) (product : α) : Pool α :=
  let p := if p.data.isEmpty then p.post else p
  { p with data := p.data ++ [product], sz := p.sz + 1 }

def addAll (p : Pool α) (initems : List α) : Pool α :=
  let p := if p.data.isEmpty && !initems.isEmpty then p.post else p
  { p with sz := p.sz + BitVec.ofNat 32 initems.length, data := p.data ++ initems }

/-- The end of `remove` and `tryRemove`: take the front, and hand the token on
when something is left. -/
def takeFront (p : Pool α) : Except Fault (α × Pool α) :=
  match p.data with
  | [] => .error .emptyFront
  | ret :: rest =>
    let p := { p with data := rest, sz := p.sz - 1 }
    .ok (ret, if rest.isEmpty then p else p.post)

/-- The end of `removeAll` and `tryRemoveAll`. -/
def takeAll (p : Pool α) : List α × Pool α := (p.data, { p with data := [], sz := 0 })

/-- `available.wait()` once it returns, and `available.trywait()` when it succeeds. -/
def wait (p : Pool α) : Option (Pool α) :=
  if 0 < p.available then some { p with available := p.available - 1 } else none

def tryRemove (p : Pool α) : Except Fault (Option α × Pool α) :=
  match p.wait with
  | none => .ok (none, p)
  | some p => do
    let (val, p) ← p.takeFront
    .ok (some val, p)

def tryRemoveAll (p : Pool α) : Option (List α) × Pool α :=
  match p.wait with
  | none => (none, p)
  | some p => (some p.takeAll.1, p.takeAll.2)

end Pool

/-- The two operations that wait. -/
inductive Blocking where
  | remove | removeAll
  deriving DecidableEq, Repr

/-- Where a thread stands: outside the pool, in `available.wait`, or past it and
before its locked body. -/
inductive Phase where
  | idle
  | waiting (op : Blocking)
  | passed (op : Blocking)
  deriving DecidableEq, Repr

structure System (ι α : Type) where
  pool : Pool α
  phase : ι → Phase
  history : List (Fifo.Op α)

inductive Event (ι α : Type) where
  | add (thread : ι) (product : α)
  | addAll (thread : ι) (initems : List α)
  | tryRemove (thread : ι)
  | tryRemoveAll (thread : ι)
  /-- `remove` or `removeAll` is called. -/
  | call (thread : ι) (op : Blocking)
  /-- `available.wait` returns. -/
  | pass (thread : ι)
  /-- The locked body of the thread that passed. -/
  | locked (thread : ι)

namespace System

variable {ι α : Type} [DecidableEq ι]

def init : System ι α := { pool := .init, phase := fun _ => .idle, history := [] }

/-- The pool after a locked body, and what that body did to the items. -/
def record (s : System ι α) (pool : Pool α) (op : Fifo.Op α) : System ι α :=
  { s with pool := pool, history := s.history ++ [op] }

def setPhase (s : System ι α) (thread : ι) (phase : Phase) : System ι α :=
  { s with phase := Function.update s.phase thread phase }

/-- One step of one thread; `none` when the thread is elsewhere or blocked. -/
def next (s : System ι α) : Event ι α → Option (Except Fault (System ι α))
  | .add i product =>
    if s.phase i = .idle then some (.ok (s.record (s.pool.add product) (.put [product]))) else none
  | .addAll i initems =>
    if s.phase i = .idle then some (.ok (s.record (s.pool.addAll initems) (.put initems))) else none
  | .tryRemove i =>
    if s.phase i = .idle then
      some (s.pool.tryRemove.map fun
        | (none, pool) => { s with pool := pool }
        | (some val, pool) => s.record pool (.take [val]))
    else none
  | .tryRemoveAll i =>
    if s.phase i = .idle then
      some (.ok (match s.pool.tryRemoveAll with
        | (none, pool) => { s with pool := pool }
        | (some resitems, pool) => s.record pool (.take resitems)))
    else none
  | .call i op => if s.phase i = .idle then some (.ok (s.setPhase i (.waiting op))) else none
  | .pass i =>
    match s.phase i with
    | .waiting op =>
      s.pool.wait.map fun pool => .ok ({ s with pool := pool }.setPhase i (.passed op))
    | _ => none
  | .locked i =>
    match s.phase i with
    | .passed .remove =>
      some (s.pool.takeFront.map fun (ret, pool) =>
        (s.record pool (.take [ret])).setPhase i .idle)
    | .passed .removeAll =>
      some (.ok ((s.record s.pool.takeAll.2 (.take s.pool.takeAll.1)).setPhase i .idle))
    | _ => none

end System

end BlmLink.Source.ProConPool
