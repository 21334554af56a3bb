import BlmLink.Lib.Trace

/-!
# The descriptor of a `PjTcp`

blmcomm.cpp:160-173 and 215-219, pjlib/src/pj/ioqueue_select.c:321-391 and 437-494. The
constructor opens a socket and registers it; the destructor unregisters the key, which
closes its descriptor, and then closes the descriptor again. If the registration gave no
key, `pj_ioqueue_unregister` returns at once.

Descriptors are numbers that the system hands out and takes back. What a number stands for
is a file, named once and for all; a close of a number that stands for none does nothing.
Other threads open and close in between, each a single step, and close only what they
opened. A `PjTcp` without a socket is left out: its key is not initialised.
-/
namespace BlmLink.Source

open Lib

/-- The open descriptors of the process, with the file that each stands for. -/
abbrev FdTable := Nat → Option Nat

def FdTable.set (table : FdTable) (fd : Nat) (file : Option Nat) : FdTable :=
  fun n => if n = fd then file else table n

/-- How far `~PjTcp` has come. -/
inductive Destruction where
  | alive
  | unregistered
  | destroyed
  deriving DecidableEq, Repr

structure PjTcpFds where
  table : FdTable
  /-- The name of the next file opened. -/
  fresh : Nat
  sock : Nat
  /-- The file that the constructor opened. -/
  file : Nat
  /-- Whether the registration gave a key; its descriptor is `sock`. -/
  key : Bool
  phase : Destruction
  /-- What each close of the destructor hit. -/
  closes : List (Option Nat)

namespace PjTcpFds

/-- The constructor: the system hands out `fd`. -/
def construct (table : FdTable) (fresh fd : Nat) (registered : Bool) : PjTcpFds where
  table := table.set fd (some fresh)
  fresh := fresh + 1
  sock := fd
  file := fresh
  key := registered
  phase := .alive
  closes := []

/-- `pj_sock_close(sock)` in the destructor. -/
def closeSock (s : PjTcpFds) : PjTcpFds :=
  { s with table := s.table.set s.sock none, closes := s.closes ++ [s.table s.sock] }

inductive Event where
  /-- Another thread opens a socket or a file and is handed `fd`. -/
  | opened (fd : Nat)
  /-- Another thread closes what it opened. -/
  | closed (fd : Nat)
  /-- `pj_ioqueue_unregister(key)` in the destructor. -/
  | unregister
  /-- `pj_sock_close(sock)` in the destructor. -/
  | close
  deriving DecidableEq, Repr

def next (s : PjTcpFds) : Event → Option PjTcpFds
  | .opened fd =>
    if s.table fd = none then
      some { s with table := s.table.set fd (some s.fresh), fresh := s.fresh + 1 }
    else none
  | .closed fd =>
    if s.table fd ≠ none ∧ s.table fd ≠ some s.file then
      some { s with table := s.table.set fd none }
    else none
  | .unregister =>
    if s.phase = .alive then
      some { (if s.key then s.closeSock else s) with phase := .unregistered }
    else none
  | .close =>
    if s.phase = .unregistered then some { s.closeSock with phase := .destroyed } else none

def step : PjTcpFds → Event → PjTcpFds → Prop := Trace.ofOption next

end PjTcpFds

end BlmLink.Source
