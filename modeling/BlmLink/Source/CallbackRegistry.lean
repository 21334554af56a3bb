import BlmLink.Lib.Compaction
import BlmLink.Source.SingleComm

/-!
# The callback lists of `BlmClient`

blmcomm.h:107-121, blmcomm.cpp:16-31 and 499-515, with the loops of the removal as they
run: each list is compacted in place, and the message types whose lists became empty are
collected in a first pass over `msgMap` and erased in a second one. `SingleComm` has the
same lists among the other state and says what a removal leaves; `CallbackRemoval` shows
that these loops leave it.

`msgMap` is a list of its entries; a `std::map` visits them in the order of their keys,
which nothing here depends on. `deleted`, the objects passed to `delete`, is not in the
code. Counts are integers.
-/
namespace BlmLink.Source

open Lib

structure CallbackRegistry where
  connCallbacks : List CallbackObj
  closeCallbacks : List CallbackObj
  msgMap : List (Int × List CallbackObj)
  deriving DecidableEq, Repr

namespace CallbackRegistry

/-- `obj && (*first)->obj() != obj`; no object is `NULL`. -/
def stays (obj : Option Nat) (cb : CallbackObj) : Bool :=
  obj.isSome && decide (some cb.callback.obj ≠ obj)

def removeAllCallbackFromList (obj : Option Nat) (cbs : List CallbackObj) :
    Compaction CallbackObj :=
  Compaction.run (stays obj) cbs

/-- The pass of `removeObjCallbacks` over `msgMap`. -/
structure MsgPass where
  msgMap : List (Int × List CallbackObj)
  emptyMsg : List Int
  deleted : List CallbackObj
  removedCn : Int

def MsgPass.entry (obj : Option Nat) (pass : MsgPass) (entry : Int × List CallbackObj) : MsgPass :=
  let mcbs := removeAllCallbackFromList obj entry.2
  { msgMap := pass.msgMap ++ [(entry.1, mcbs.erase)]
    emptyMsg := if mcbs.erase.isEmpty then pass.emptyMsg ++ [entry.1] else pass.emptyMsg
    deleted := pass.deleted ++ mcbs.dropped
    removedCn := pass.removedCn + mcbs.removed }

/-- `msgMap.erase(mt)`. -/
def eraseType (msgMap : List (Int × List CallbackObj)) (mt : Int) :
    List (Int × List CallbackObj) :=
  msgMap.eraseP fun entry => entry.1 == mt

structure Removal where
  registry : CallbackRegistry
  deleted : List CallbackObj
  removedCn : Int

def init : CallbackRegistry := ⟨[], [], []⟩

def addConnectCallback (r : CallbackRegistry) (cb : CallbackObj) : CallbackRegistry :=
  { r with connCallbacks := cb :: r.connCallbacks }

def addCloseCallback (r : CallbackRegistry) (cb : CallbackObj) : CallbackRegistry :=
  { r with closeCallbacks := cb :: r.closeCallbacks }

def addMsgCallback (r : CallbackRegistry) (mt : Int) (cb : CallbackObj) : CallbackRegistry :=
  { r with msgMap := pushMsg mt cb r.msgMap }

def removeObjCallbacks (r : CallbackRegistry) (obj : Option Nat) : Removal :=
  let conn := removeAllCallbackFromList obj r.connCallbacks
  let close := removeAllCallbackFromList obj r.closeCallbacks
  let pass := r.msgMap.foldl (MsgPass.entry obj)
    ⟨[], [], conn.dropped ++ close.dropped, conn.removed + close.removed⟩
  { registry :=
      { connCallbacks := conn.erase
        closeCallbacks := close.erase
        msgMap := pass.emptyMsg.foldl eraseType pass.msgMap }
    deleted := pass.deleted
    removedCn := pass.removedCn }

inductive Call where
  | addConnectCallback (cb : CallbackObj)
  | addCloseCallback (cb : CallbackObj)
  | addMsgCallback (mt : Int) (cb : CallbackObj)
  | removeObjCallbacks (obj : Option Nat)
  deriving DecidableEq, Repr

def call (r : CallbackRegistry) : Call → CallbackRegistry
  | .addConnectCallback cb => r.addConnectCallback cb
  | .addCloseCallback cb => r.addCloseCallback cb
  | .addMsgCallback mt cb => r.addMsgCallback mt cb
  | .removeObjCallbacks obj => (r.removeObjCallbacks obj).registry

/-- The registry that a sequence of calls builds. -/
def built (calls : List Call) : CallbackRegistry := calls.foldl call init

/-- The callbacks of a message type. -/
def msgCallbacks (r : CallbackRegistry) (mt : Int) : List CallbackObj :=
  (r.msgMap.lookup mt).getD []

/-- All callbacks registered. -/
def all (r : CallbackRegistry) : List CallbackObj :=
  r.connCallbacks ++ r.closeCallbacks ++ r.msgMap.flatMap Prod.snd

end CallbackRegistry

/-- The lists of a `SingleComm`. -/
def SingleComm.registry (s : SingleComm) : CallbackRegistry :=
  ⟨s.connCallbacks, s.closeCallbacks, s.msgMap⟩

end BlmLink.Source
