import BlmLink.Lib.ErrorMark
import BlmLink.Source.CJson

/-!
# The JSON parser and its error pointer

cJSON.c:34-36, 147-207, 259-296, 317-342 and 403-436, and `Json::parse`,
blmutil.cpp:149-160. The same functions as in `Source.CJson` for the text as it stands,
with the global `ep` as a variable that every call reads and sets: NULL is `none`, a
pointer into the text is what remains there. A function that got NULL from another one
returns NULL and sets nothing.

Every allocation succeeds. `uc` and `uc2` hold anything when `parse_string` is entered
(`stale`), so nothing is undefined about reading them here, and a copy that is longer
than its block is taken as if the block were large enough; only a cursor that leaves the
text ends the run. `cJSON_Delete` and the log line of `Json::parse` are left out.
-/
namespace BlmLink.Source.Ep

open BlmLink.Lib BlmLink.Lib.Marking

variable {D : Type}

/-- A call that returns a value or NULL, with `ep` before and afterwards. -/
abbrev Call := Marking ParseStop Bytes

/-- What `uc` and `uc2` hold when `parse_string` is entered at a position. -/
abbrev Stale := Bytes → BitVec 32 × BitVec 32

def parse_string (stale : Stale) (item : Item D) (str : Bytes) : Call (Item D × Bytes) :=
  let isplain := str.head? != some quote
  let ptr := if isplain then str else str.tail
  match copyString isplain 0 ⟨some (stale str).1, some (stale str).2⟩ [] ptr with
  | .error stop => fault stop
  | .ok (out, ptr) =>
    ret ({ item with valuestring := some out, type := .cJSON_String },
      if ptr.head? = some quote then ptr.tail else ptr)

/-- `value=skip(entry(child,skip(value))); if (!value) return 0`. -/
def padded (entry : Bytes → Call (Item D × Bytes)) (value : Bytes) : Call (Item D × Bytes) := do
  let (child, rest) ← entry (skip value)
  ret (child, skip rest)

/-- The entries of an array or an object from the first one to the closing bracket. -/
def parse_entries (closing : Byte) (entry : Bytes → Call (Item D × Bytes)) :
    Nat → Bytes → Call (List (Item D) × Bytes)
  | 0, _ => fault .outOfFuel
  | fuel + 1, value => do
    let (child, value) ← padded entry value
    if value.head? = some (chr ',') then
      let (children, rest) ← parse_entries closing entry fuel value.tail
      ret (child :: children, rest)
    else if value.head? = some closing then ret ([child], value.tail)
    else fail value

/-- The body that `parse_array` and `parse_object` share. -/
def parse_bracketed (type : ItemType) (opening closing : Byte)
    (entries : Bytes → Call (List (Item D) × Bytes)) (item : Item D) (value : Bytes) :
    Call (Item D × Bytes) :=
  if value.head? ≠ some opening then fail value
  else
    let item := { item with type := type }
    let value := skip value.tail
    if value.head? = some closing then ret (item, value.tail)
    else do
      let (children, rest) ← entries value
      ret ({ item with child := children }, rest)

def parse_array (entries : Bytes → Call (List (Item D) × Bytes)) :
    Item D → Bytes → Call (Item D × Bytes) :=
  parse_bracketed .cJSON_Array (chr '[') (chr ']') entries

def parse_object (entries : Bytes → Call (List (Item D) × Bytes)) :
    Item D → Bytes → Call (Item D × Bytes) :=
  parse_bracketed .cJSON_Object (chr '{') (chr '}') entries

/-- One member of an object: its name, the colon and its value. -/
def parse_member (ops : DoubleOps D) (stale : Stale)
    (parseValue : Item D → Bytes → Call (Item D × Bytes)) (value : Bytes) :
    Call (Item D × Bytes) := do
  let (child, rest) ← parse_string stale (cJSON_New_Item ops) value
  let value := skip rest
  if value.head? = some (chr ':') then parseValue child.named (skip value.tail)
  else fail value

/-- `parse_value` up to the calls that lead back to it. -/
def parse_case (ops : DoubleOps D) (stale : Stale)
    (array object : Item D → Bytes → Call (Item D × Bytes)) (item : Item D) (value : Bytes) :
    Call (Item D × Bytes) :=
  if lit ['n', 'u', 'l', 'l'] <+: value then
    ret ({ item with type := .cJSON_NULL }, value.drop 4)
  else if lit ['f', 'a', 'l', 's', 'e'] <+: value then
    ret ({ item with type := .cJSON_False }, value.drop 5)
  else if lit ['t', 'r', 'u', 'e'] <+: value then
    ret ({ item with type := .cJSON_True, valueint := 1 }, value.drop 4)
  else
    match value with
    | [] => fail []
    | ch :: rest =>
      if ch = chr '-' ∨ isdigit ch then ret (parse_number ops item (ch :: rest))
      else if ch = chr '[' then array item (ch :: rest)
      else if ch = chr '{' then object item (ch :: rest)
      else if ch = quote then parse_string stale item (ch :: rest)
      else if isalpha ch then parse_string stale item (ch :: rest)
      else fail (ch :: rest)

def parse_value (ops : DoubleOps D) (stale : Stale) :
    Nat → Item D → Bytes → Call (Item D × Bytes)
  | 0, _, _ => fault .outOfFuel
  | fuel + 1, item, value =>
    parse_case ops stale
      (parse_array (parse_entries (chr ']')
        (parse_value ops stale fuel (cJSON_New_Item ops)) fuel))
      (parse_object (parse_entries (chr '}')
        (parse_member ops stale (parse_value ops stale fuel)) fuel))
      item value

/-- `cJSON_ParseWithOpts` behind `ep=0`. -/
def parse_text (ops : DoubleOps D) (stale : Stale) (value : Bytes)
    (require_null_terminated : Bool) : Call (Item D × Bytes) := do
  let (c, ending) ← parse_value ops stale (value.length + 1) (cJSON_New_Item ops) (skip value)
  if require_null_terminated then
    if skip ending = [] then ret (c, []) else fail (skip ending)
  else ret (c, ending)

/-- The tree and the position `return_parse_end` receives. -/
def cJSON_ParseWithOpts (ops : DoubleOps D) (stale : Stale) (value : Bytes)
    (require_null_terminated : Bool) : Call (Item D × Bytes) :=
  fun _ => parse_text ops stale value require_null_terminated none

def cJSON_Parse (ops : DoubleOps D) (stale : Stale) (value : Bytes) : Call (Item D × Bytes) :=
  cJSON_ParseWithOpts ops stale value false

/-- How a call of `Json::parse` can go wrong. -/
inductive ParseFault where
  | parser (stop : ParseStop)
  /-- `err = cJSON_GetErrorPtr()` with a NULL pointer. -/
  | nullString
  deriving DecidableEq, Repr

/-- The members of `Json` that `parse` sets. -/
structure Json (D : Type) where
  json : Option (Item D)
  isowned : Bool
  err : Bytes

/-- `Json::parse`: its result, the object and `ep` afterwards. -/
def Json.parse (ops : DoubleOps D) (stale : Stale) (self : Json D) (str : Bytes)
    (ep : Option Bytes) : Except ParseFault (Bool × Json D × Option Bytes) :=
  match cJSON_Parse ops stale str ep with
  | .error stop => .error (.parser stop)
  | .ok (some (json, _), ep) => .ok (true, { self with json := some json, isowned := true }, ep)
  | .ok (none, none) => .error .nullString
  | .ok (none, some err) => .ok (false, ⟨none, true, err⟩, some err)

end BlmLink.Source.Ep
