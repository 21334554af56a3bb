import BlmLink.Source.UtilStrings

/-!
# The JSON printer

cJSON.c:118-138, 210-245, 278-279, 299-314, 345-400 and 439-504. Every function measures what
it will write, allocates a block of that size and then writes. Here each returns the text that
the block holds in front of its NUL; a text that does not fit in its block is an outcome of its
own (`overflow`). `len` is an `int`, and a measure that is none is left at that (`tooLong`).
Every allocation succeeds.

The tests of `print_number` on a `double` and the conversions of `sprintf` are parameters; a
`%d` is that of `intToStr`. No conversion needs more than 64 octets where the tests let it be
used.
-/
namespace BlmLink.Source

/-- Outcomes of the printer other than a text. -/
inductive PrintStop where
  /-- More is written than was allocated. -/
  | overflow
  /-- The measure is more than an `int` holds. -/
  | tooLong
  deriving DecidableEq, Repr

/-- `print_number` on a `double`: its tests and the formats `%.0f`, `%e` and `%f`. -/
structure DoubleText (D : Type) where
  /-- `fabs(((double)valueint)-d) <= DBL_EPSILON && d <= INT_MAX && d >= INT_MIN` -/
  nearInt : CInt → D → Bool
  /-- `fabs(floor(d)-d) <= DBL_EPSILON && fabs(d) < 1.0e60` -/
  whole : D → Bool
  /-- `fabs(d) < 1.0e-6 || fabs(d) > 1.0e9` -/
  extreme : D → Bool
  wholeText : D → Bytes
  scientificText : D → Bytes
  fixedText : D → Bytes
  whole_fits : ∀ d, whole d = true → (wholeText d).length < 64
  scientific_fits : ∀ d, (scientificText d).length < 64
  fixed_fits : ∀ d, whole d = false → extreme d = false → (fixedText d).length < 64

/-- A block of `size` octets that `text` and a NUL are written to. -/
def inBlock (size : Nat) (text : Bytes) : Except PrintStop Bytes :=
  if size < text.length + 1 then .error .overflow else .ok text

/-- The same with a size that was counted in the `int` `len`. -/
def measured (len : Nat) (text : Bytes) : Except PrintStop Bytes :=
  if 2 ^ 31 ≤ len then .error .tooLong else inBlock len text

variable {D : Type}

def print_number (texts : DoubleText D) (item : Item D) : Except PrintStop Bytes :=
  let d := item.valuedouble
  if texts.nearInt item.valueint d then inBlock 21 (intToStr item.valueint)
  else inBlock 64
    (if texts.whole d then texts.wholeText d
    else if texts.extreme d then texts.scientificText d
    else texts.fixedText d)

/-- A digit of `%x`. -/
def hexDigit (digit : Nat) : Byte := BitVec.ofNat 8 (if digit < 10 then 48 + digit else 87 + digit)

/-- `%04x` of an `unsigned char`. -/
def hex04 (token : Byte) : Bytes :=
  [hexDigit 0, hexDigit 0, hexDigit (token.toNat / 16), hexDigit (token.toNat % 16)]

/-- What the measuring loop of `print_string_ptr` counts for a character. -/
def printedLength (token : Byte) : Nat :=
  if [quote, backslash, 8, 12, 10, 13, 9].contains token then 2 else if token.toNat < 32 then 6 else 1

/-- What the writing loop writes for it. -/
def escaped (token : Byte) : Bytes :=
  if 31 < token.toNat ∧ token ≠ quote ∧ token ≠ backslash then [token]
  else if token = backslash then [backslash, backslash]
  else if token = quote then [backslash, quote]
  else if token = 8 then [backslash, chr 'b']
  else if token = 12 then [backslash, chr 'f']
  else if token = 10 then [backslash, chr 'n']
  else if token = 13 then [backslash, chr 'r']
  else if token = 9 then [backslash, chr 't']
  else backslash :: chr 'u' :: hex04 token

def print_string_ptr (str : Option Bytes) : Except PrintStop Bytes :=
  match str with
  | none => .ok []
  | some str =>
    measured (((cString str).map printedLength).sum + 3)
      (quote :: ((cString str).flatMap escaped ++ [quote]))

/-- The entries with what stands between two of them. -/
def separated (separator : Bytes) : List Bytes → Bytes
  | [] => []
  | [entry] => entry
  | entry :: entries => entry ++ separator ++ separated separator entries

/-- `print_array` once its entries are printed. -/
def composeArray (fmt : Bool) (entries : List Bytes) : Except PrintStop Bytes :=
  if entries = [] then inBlock 3 [chr '[', chr ']']
  else
    measured (5 + (entries.map fun ret => ret.length + 2 + if fmt then 1 else 0).sum)
      (chr '[' :: (separated (if fmt then [chr ',', chr ' '] else [chr ',']) entries ++ [chr ']']))

/-- `depth` tabs, if the text is formatted. -/
def tabs (fmt : Bool) (depth : Nat) : Bytes := if fmt then List.replicate depth (chr '\t') else []

def newline (fmt : Bool) : Bytes := if fmt then [chr '\n'] else []

/-- A member of an object up to the comma. -/
def composeMember (fmt : Bool) (depth : Nat) (entry : Bytes × Bytes) : Bytes :=
  tabs fmt depth ++ entry.1 ++ [chr ':'] ++ (if fmt then [chr '\t'] else []) ++ entry.2

/-- `print_object` once its names and entries are printed; `depth` is that of the object. -/
def composeObject (fmt : Bool) (depth : Nat) (entries : List (Bytes × Bytes)) :
    Except PrintStop Bytes :=
  if entries = [] then
    inBlock (if fmt then depth + 3 else 3)
      (chr '{' :: (newline fmt ++ tabs fmt (depth - 1) ++ [chr '}']))
  else
    measured (7 + (if fmt then depth + 1 else 0) + (entries.map fun entry =>
        entry.2.length + entry.1.length + 2 + if fmt then 2 + (depth + 1) else 0).sum)
      (chr '{' :: (newline fmt ++
        separated (chr ',' :: newline fmt) (entries.map (composeMember fmt (depth + 1))) ++
        newline fmt ++ tabs fmt depth ++ [chr '}']))

mutual

def print_value (texts : DoubleText D) (fmt : Bool) (depth : Nat) :
    Item D → Except PrintStop Bytes
  | ⟨type, valuestring, valueint, valuedouble, string, child⟩ =>
    match type with
    | .cJSON_NULL => .ok (lit ['n', 'u', 'l', 'l'])
    | .cJSON_False => .ok (lit ['f', 'a', 'l', 's', 'e'])
    | .cJSON_True => .ok (lit ['t', 'r', 'u', 'e'])
    | .cJSON_Number => print_number texts ⟨type, valuestring, valueint, valuedouble, string, child⟩
    | .cJSON_String => print_string_ptr valuestring
    | .cJSON_Array => print_entries texts fmt (depth + 1) child >>= composeArray fmt
    | .cJSON_Object => print_members texts fmt (depth + 1) child >>= composeObject fmt depth

/-- The loop of `print_array` over the children. -/
def print_entries (texts : DoubleText D) (fmt : Bool) (depth : Nat) :
    List (Item D) → Except PrintStop (List Bytes)
  | [] => .ok []
  | child :: rest => do
    let ret ← print_value texts fmt depth child
    let entries ← print_entries texts fmt depth rest
    .ok (ret :: entries)

/-- The loop of `print_object` over the children. -/
def print_members (texts : DoubleText D) (fmt : Bool) (depth : Nat) :
    List (Item D) → Except PrintStop (List (Bytes × Bytes))
  | [] => .ok []
  | child :: rest => do
    let str ← print_string_ptr child.string
    let ret ← print_value texts fmt depth child
    let entries ← print_members texts fmt depth rest
    .ok ((str, ret) :: entries)

end

def cJSON_Print (texts : DoubleText D) (item : Item D) : Except PrintStop Bytes :=
  print_value texts true 0 item

def cJSON_PrintUnformatted (texts : DoubleText D) (item : Item D) : Except PrintStop Bytes :=
  print_value texts false 0 item

end BlmLink.Source
