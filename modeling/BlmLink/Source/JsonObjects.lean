import BlmLink.Lib.Objects
import BlmLink.Lib.Trace
import BlmLink.Source.CJson
import BlmLink.Source.HttpUrl

/-!
# `Json` objects and their trees

src/include/blm/blmutil.h:49-91 and src/src/blmutil.cpp:124-162, over `cJSON_strcasecmp`,
`cJSON_Delete`, `cJSON_GetArrayItem` and `cJSON_GetObjectItem` of src/src/imp/cJSON.c:38-43,
80-92 and 508-509. A `Json` points to an item and may own the tree of it. The class declares no
copy constructor, so a copy has the members of the original, `isowned` among them.

Trees are objects on the heap, released as a whole; an item is named by its tree and the
positions on the way to it. What `cJSON_Parse` makes of a text is the parameter `parser`
(`Source.CJsonErrors` has `Json::parse` with its `err`, which is left out here). The accessors
that return a member of the item are `read`. A name that is used again after its scope is a new
object.
-/
namespace BlmLink.Source

open Lib

inductive JsonFault where
  /-- A member of the item at NULL. -/
  | nullPointer
  /-- A tree used after its release. -/
  | useAfterFree
  /-- `cJSON_Delete` of a tree that was released before. -/
  | doubleFree
  deriving DecidableEq, Repr

/-- A pointer to an item. -/
structure ItemPtr where
  tree : Nat
  path : List Nat
  deriving DecidableEq, Repr

def ItemPtr.child (p : ItemPtr) (i : Nat) : ItemPtr := { p with path := p.path ++ [i] }

/-- `class Json`. -/
structure JsonObject where
  isowned : Bool
  json : Option ItemPtr
  deriving DecidableEq, Repr

/-- The item at the end of a path. -/
def itemAt {D : Type} : Item D → List Nat → Option (Item D)
  | item, [] => some item
  | item, i :: path => (item.child[i]?).bind fun child => itemAt child path

/-- Whether `cJSON_strcasecmp` returns zero; the second text is not NULL. -/
def sameName (s1 : Option Bytes) (s2 : Bytes) : Bool :=
  s1.any fun s1 => decide (s1.map lower = s2.map lower)

def cJSON_GetObjectItem {D : Type} (object : Item D) (p : ItemPtr) (string : Bytes) : Option ItemPtr :=
  (object.child.findIdx? fun c => sameName c.string string).map p.child

/-- A negative number is the first item. -/
def cJSON_GetArrayItem {D : Type} (array : Item D) (p : ItemPtr) (item : Int) : Option ItemPtr :=
  if item.toNat < array.child.length then some (p.child item.toNat) else none

/-- The objects of a program and the trees. -/
structure JsonObjects (D : Type) where
  trees : Objects (Item D)
  objs : Nat → Option JsonObject

namespace JsonObjects

variable {D : Type}

def init : JsonObjects D := ⟨Objects.init, fun _ => none⟩

def set (w : JsonObjects D) (v : Nat) (j : JsonObject) : JsonObjects D :=
  { w with objs := Function.update w.objs v (some j) }

/-- The item that a `Json` points to. -/
def item (w : JsonObjects D) (j : JsonObject) : Except JsonFault (ItemPtr × Item D) :=
  match j.json with
  | none => .error .nullPointer
  | some p =>
    match (w.trees.live.lookup p.tree).bind fun root => itemAt root p.path with
    | none => .error .useAfterFree
    | some item => .ok (p, item)

/-- `if (json && isowned) cJSON_Delete(json)`. What is owned is the root of its tree. -/
def deleteOwned (w : JsonObjects D) (j : JsonObject) : Except JsonFault (Objects (Item D)) :=
  match j.json with
  | none => .ok w.trees
  | some p =>
    if j.isowned then
      match w.trees.delete p.tree with
      | none => .error .doubleFree
      | some trees => .ok trees
    else .ok w.trees

inductive Event where
  /-- `Json v;` -/
  | construct (v : Nat)
  /-- `Json v(u);` -/
  | copy (v u : Nat)
  /-- `v` goes out of scope. -/
  | destroy (v : Nat)
  /-- `v.parse(str)`; `storage` is the item that `str` is a member of, if it is one. -/
  | parse (v : Nat) (str : Bytes) (storage : Option ItemPtr)
  /-- `Json v(u.get(name));` -/
  | get (v u : Nat) (name : Bytes)
  /-- `Json v(u.get(index));` -/
  | getAt (v u : Nat) (index : Int)
  | read (u : Nat)

/-- `Json::parse`: the old tree is released before the text is read. -/
def parse (parser : Bytes → Option (Item D)) (w : JsonObjects D) (v : Nat) (j : JsonObject)
    (str : Bytes) (storage : Option ItemPtr) : Except JsonFault (JsonObjects D) :=
  match w.deleteOwned j with
  | .error fault => .error fault
  | .ok trees =>
    if storage.all fun p => (trees.live.lookup p.tree).isSome then
      match parser str with
      | none => .ok ({ w with trees := trees }.set v ⟨true, none⟩)
      | some tree =>
        .ok ({ w with trees := trees.new tree }.set v ⟨true, some ⟨trees.fresh, []⟩⟩)
    else .error .useAfterFree

/-- A `Json` made from what a lookup in the item of `j` returns. -/
def lookup (w : JsonObjects D) (v : Nat) (j : JsonObject) (find : Item D → ItemPtr → Option ItemPtr) :
    Except JsonFault (JsonObjects D) :=
  match w.item j with
  | .error fault => .error fault
  | .ok (p, item) => .ok (w.set v ⟨false, find item p⟩)

/-- A step; none when a name of the event is not what it has to be, an object or free. -/
def next (parser : Bytes → Option (Item D)) (w : JsonObjects D) :
    Event → Option (Except JsonFault (JsonObjects D))
  | .construct v => if w.objs v = none then some (.ok (w.set v ⟨false, none⟩)) else none
  | .copy v u =>
    if w.objs v = none then (w.objs u).map fun j => .ok (w.set v j) else none
  | .destroy v => (w.objs v).map fun j =>
    (w.deleteOwned j).map fun trees => ⟨trees, Function.update w.objs v none⟩
  | .parse v str storage => (w.objs v).map fun j => w.parse parser v j str storage
  | .get v u name =>
    if w.objs v = none then
      (w.objs u).map fun j => w.lookup v j fun item p => cJSON_GetObjectItem item p name
    else none
  | .getAt v u index =>
    if w.objs v = none then
      (w.objs u).map fun j => w.lookup v j fun item p => cJSON_GetArrayItem item p index
    else none
  | .read u => (w.objs u).map fun j => (w.item j).map fun _ => w

end JsonObjects

end BlmLink.Source
