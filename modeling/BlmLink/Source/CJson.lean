import BlmLink.Source.Bytes

/-!
# The JSON parser

cJSON.c:95-115, 140-207, 256-296, 317-342 and 403-436. A `const char *` into the text
is the list of the octets from there up to the terminating NUL, so `[]` is the NUL itself
and two positions are equal when what remains is. `original` is the parser before the
bare-word change: `parse_string` refuses a text that does not begin with a quote, which
the source keeps as a comment, and `parse_value` has no alphabetic case.

`parse_string` runs over the text twice. The measuring pass only sizes the block; a
backslash before the NUL takes it past the end (`none`), and what it counts behind the
NUL would make the block no smaller, so the count up to the NUL is what the copying pass
is held against. Reading or stepping past the NUL in the copying pass, writing more than
`len` octets and using `uc` or `uc2` before `sscanf` has set it are outcomes of their own.
`sscanf` with `%4x` follows the C standard: blanks, then a field of up to four characters
with an optional sign and an optional `0x`; a field without digits stores nothing.
`isalpha` and `isspace` are those of the C locale.

The `double` arithmetic of `parse_number` is a parameter and `subscale` wraps as an
`int`. Every allocation succeeds. `next` and `prev` are the order of the list `child`,
and `ep` is carried by the failure that sets it.
-/
namespace BlmLink.Source

/-- Outcomes of the parser other than a tree. -/
inductive ParseStop where
  /-- `ep = text; return 0`. -/
  | failed (ep : Bytes)
  /-- The copying pass reads or steps past the terminating NUL. -/
  | pastNul
  /-- The copying pass writes more than the measured length. -/
  | overflow
  /-- `uc` or `uc2` is read before it is set. -/
  | uninitialised
  /-- The recursion bound of the model was used up. -/
  | outOfFuel
  deriving DecidableEq, Repr

inductive Dialect where
  | original | modified
  deriving DecidableEq, Repr

/-- cJSON.h:35-41. -/
inductive ItemType where
  | cJSON_False | cJSON_True | cJSON_NULL | cJSON_Number | cJSON_String | cJSON_Array | cJSON_Object
  deriving DecidableEq, Repr

/-- The `double` operations of `parse_number`: `n*10.0 + digit`,
`sign*n*pow(10.0, scale + subscale*signsubscale)` and the conversion to `int`. -/
structure DoubleOps (D : Type) where
  zero : D
  digit : D → Nat → D
  scaled : (negative : Bool) → D → (scale : Int) → (subscale : CInt) → D
  toInt : D → CInt

/-- `struct cJSON`. -/
structure Item (D : Type) where
  type : ItemType
  valuestring : Option Bytes
  valueint : CInt
  valuedouble : D
  string : Option Bytes
  child : List (Item D)

/-- `cJSON_New_Item`: a block of zeros. -/
def cJSON_New_Item {D : Type} (ops : DoubleOps D) : Item D :=
  ⟨.cJSON_False, none, 0, ops.zero, none, []⟩

/-- A string constant of the source. -/
def lit (text : List Char) : Bytes := text.map chr

def quote : Byte := chr '"'
def backslash : Byte := chr '\\'

def isalpha (ch : Byte) : Bool :=
  (65 ≤ ch.toNat && ch.toNat ≤ 90) || (97 ≤ ch.toNat && ch.toNat ≤ 122)

def isdigit (ch : Byte) : Bool := 48 ≤ ch.toNat && ch.toNat ≤ 57

def isspace (ch : Byte) : Bool := ch.toNat == 32 || (9 ≤ ch.toNat && ch.toNat ≤ 13)

def isxdigit (ch : Byte) : Bool :=
  isdigit ch || (65 ≤ ch.toNat && ch.toNat ≤ 70) || (97 ≤ ch.toNat && ch.toNat ≤ 102)

def xdigitValue (ch : Byte) : Nat :=
  if isdigit ch then ch.toNat - 48 else if ch.toNat ≤ 70 then ch.toNat - 55 else ch.toNat - 87

def isend (ch : Byte) (isplain : Bool) : Bool :=
  ch == quote || (isplain && !isalpha ch && ch != chr '_')

def skip (text : Bytes) : Bytes := text.dropWhile fun ch => ch.toNat ≤ 32

/-- The field behind an optional sign. -/
def afterSign (field : Bytes) : Bytes :=
  if field.head? = some (chr '-') ∨ field.head? = some (chr '+') then field.tail else field

/-- The field behind an optional `0x`. -/
def afterMark (field : Bytes) : Bytes :=
  if lit ['0', 'x'] <+: field ∨ lit ['0', 'X'] <+: field then field.drop 2 else field

/-- `strtoul` in base 16 on a field that `sscanf` has cut out. -/
def hexField (field : Bytes) : Option (BitVec 32) :=
  let digits := (afterMark (afterSign field)).takeWhile isxdigit
  let value := BitVec.ofNat 32 (digits.foldl (fun n ch => n * 16 + xdigitValue ch) 0)
  if digits = [] then none
  else some (if field.head? = some (chr '-') then -value else value)

/-- `sscanf(text, "%4x", …)`: the value stored, if one is. -/
def scanHex (text : Bytes) : Option (BitVec 32) :=
  hexField ((text.dropWhile isspace).take 4)

/-- The variables `uc` and `uc2` of one call. -/
structure Units where
  uc : Option (BitVec 32)
  uc2 : Option (BitVec 32)
  deriving DecidableEq, Repr

def firstByteMark : List (BitVec 32) := [0x00, 0x00, 0xC0, 0xE0, 0xF0, 0xF8, 0xFC]

/-- The `switch (len)` that writes backwards: the octets and the `uc` it leaves. -/
def putUtf8 (mark : BitVec 32) : Nat → BitVec 32 → Bytes → Bytes × BitVec 32
  | 0, uc, out => ((uc ||| mark).setWidth 8 :: out, uc)
  | n + 1, uc, out => putUtf8 mark n (uc >>> 6) (((uc ||| 0x80) &&& 0xBF).setWidth 8 :: out)

def utf8 (uc : BitVec 32) : Bytes × BitVec 32 :=
  let len := if uc < 0x80 then 1 else if uc < 0x800 then 2 else if uc < 0x10000 then 3 else 4
  putUtf8 (firstByteMark.getD len 0) (len - 1) uc []

/-- The case `'u'` with `text` behind the `u`: the octets written, `uc` and `uc2`
afterwards, and by how much `ptr` moves. -/
def transcode (units : Units) (text : Bytes) : Except ParseStop (Bytes × Units × Nat) :=
  match (scanHex text).or units.uc with
  | none => .error .uninitialised
  | some uc =>
    if (0xDC00 ≤ uc ∧ uc ≤ 0xDFFF) ∨ uc = 0 then .ok ([], ⟨some uc, units.uc2⟩, 4)
    else if 0xD800 ≤ uc ∧ uc ≤ 0xDBFF then
      if lit ['\\', 'u'] <+: text.drop 4 then
        match (scanHex (text.drop 6)).or units.uc2 with
        | none => .error .uninitialised
        | some uc2 =>
          if uc2 < 0xDC00 ∨ 0xDFFF < uc2 then .ok ([], ⟨some uc, some uc2⟩, 10)
          else
            let pair := 0x10000 + (((uc &&& 0x3FF) <<< 10) ||| (uc2 &&& 0x3FF))
            .ok ((utf8 pair).1, ⟨some (utf8 pair).2, some uc2⟩, 10)
      else .ok ([], ⟨some uc, units.uc2⟩, 4)
    else .ok ((utf8 uc).1, ⟨some (utf8 uc).2, units.uc2⟩, 4)

/-- The one-letter escapes; any other character stands for itself. -/
def unescape (ch : Byte) : Byte :=
  if ch = chr 'b' then 8
  else if ch = chr 'f' then 12
  else if ch = chr 'n' then 10
  else if ch = chr 'r' then 13
  else if ch = chr 't' then 9
  else ch

/-- The measuring pass: `len`, and where it stops unless that is past the NUL. -/
def measureString (isplain : Bool) : Bytes → Nat × Option Bytes
  | [] => (0, some [])
  | ch :: text =>
    if isend ch isplain then (0, some (ch :: text))
    else if ch = backslash then
      match text with
      | [] => (1, none)
      | _ :: rest => ((measureString isplain rest).1 + 1, (measureString isplain rest).2)
    else ((measureString isplain text).1 + 1, (measureString isplain text).2)

/-- The copying pass: what it writes and where it stops. `ahead` octets are still to
be stepped over. -/
def copyString (isplain : Bool) :
    (ahead : Nat) → Units → (out : Bytes) → Bytes → Except ParseStop (Bytes × Bytes)
  | 0, _, out, [] => .ok (out, [])
  | _ + 1, _, _, [] => .error .pastNul
  | ahead + 1, units, out, _ :: text => copyString isplain ahead units out text
  | 0, units, out, ch :: text =>
    if isend ch isplain then .ok (out, ch :: text)
    else if ch = backslash then
      match text with
      | [] => .error .pastNul
      | e :: rest =>
        if e = chr 'u' then
          match transcode units rest with
          | .error stop => .error stop
          | .ok (written, units', moved) => copyString isplain moved units' (out ++ written) rest
        else copyString isplain 0 units (out ++ [unescape e]) rest
    else copyString isplain 0 units (out ++ [ch]) text

variable {D : Type}

/-- `parse_string` from the first character of the string on. -/
def scanString (isplain : Bool) (item : Item D) (text : Bytes) :
    Except ParseStop (Item D × Bytes) :=
  match copyString isplain 0 ⟨none, none⟩ [] text with
  | .error stop => .error stop
  | .ok (out, ptr) =>
    if (measureString isplain text).1 < out.length then .error .overflow
    else .ok ({ item with valuestring := some out, type := .cJSON_String },
      if ptr.head? = some quote then ptr.tail else ptr)

def parse_string (dialect : Dialect) (item : Item D) (str : Bytes) :
    Except ParseStop (Item D × Bytes) :=
  if str.head? = some quote then scanString false item str.tail
  else if dialect = .original then .error (.failed str)
  else scanString true item str

/-- `n = n*10.0 + digit` over a run of digits, with the number of digits. -/
def readDigits (ops : DoubleOps D) : D → Nat → Bytes → (D × Nat) × Bytes
  | n, count, [] => ((n, count), [])
  | n, count, ch :: num =>
    if isdigit ch then readDigits ops (ops.digit n (ch.toNat - 48)) (count + 1) num
    else ((n, count), ch :: num)

/-- `subscale = subscale*10 + digit` over a run of digits. -/
def readSubscale : CInt → Bytes → CInt × Bytes
  | subscale, [] => (subscale, [])
  | subscale, ch :: num =>
    if isdigit ch then readSubscale (subscale * 10 + BitVec.ofNat 32 (ch.toNat - 48)) num
    else (subscale, ch :: num)

/-- The sign and a leading zero. -/
def readSign (num : Bytes) : Bool × Bytes :=
  let negative := num.head? == some (chr '-')
  let rest := if negative then num.tail else num
  (negative, if rest.head? = some (chr '0') then rest.tail else rest)

def readInteger (ops : DoubleOps D) (num : Bytes) : D × Bytes :=
  match num with
  | [] => (ops.zero, [])
  | ch :: rest =>
    if isdigit ch ∧ ch ≠ chr '0' then
      ((readDigits ops ops.zero 0 (ch :: rest)).1.1, (readDigits ops ops.zero 0 (ch :: rest)).2)
    else (ops.zero, ch :: rest)

def readFraction (ops : DoubleOps D) (n : D) (num : Bytes) : (D × Nat) × Bytes :=
  if num.head? = some (chr '.') ∧ num.tail.head?.any isdigit then readDigits ops n 0 num.tail
  else ((n, 0), num)

/-- `subscale*signsubscale`. -/
def readExponent (num : Bytes) : CInt × Bytes :=
  if num.head? = some (chr 'e') ∨ num.head? = some (chr 'E') then
    let rest := num.tail
    if rest.head? = some (chr '+') then readSubscale 0 rest.tail
    else if rest.head? = some (chr '-') then
      (-(readSubscale 0 rest.tail).1, (readSubscale 0 rest.tail).2)
    else readSubscale 0 rest
  else (0, num)

def parse_number (ops : DoubleOps D) (item : Item D) (num : Bytes) : Item D × Bytes :=
  let (negative, num) := readSign num
  let (n, num) := readInteger ops num
  let ((n, digits), num) := readFraction ops n num
  let (subscale, num) := readExponent num
  let value := ops.scaled negative n (-digits) subscale
  ({ item with valuedouble := value, valueint := ops.toInt value, type := .cJSON_Number }, num)

/-- `value=skip(entry(child,skip(value)))`. -/
def padded (entry : Bytes → Except ParseStop (Item D × Bytes)) (value : Bytes) :
    Except ParseStop (Item D × Bytes) := do
  let (child, rest) ← entry (skip value)
  .ok (child, skip rest)

/-- The entries of an array or an object from the first one to the closing bracket. -/
def parse_entries (closing : Byte) (entry : Bytes → Except ParseStop (Item D × Bytes)) :
    Nat → Bytes → Except ParseStop (List (Item D) × Bytes)
  | 0, _ => .error .outOfFuel
  | fuel + 1, value => do
    let (child, value) ← padded entry value
    if value.head? = some (chr ',') then
      let (children, rest) ← parse_entries closing entry fuel value.tail
      .ok (child :: children, rest)
    else if value.head? = some closing then .ok ([child], value.tail)
    else .error (.failed value)

/-- The body that `parse_array` and `parse_object` share. -/
def parse_bracketed (type : ItemType) (opening closing : Byte)
    (entries : Bytes → Except ParseStop (List (Item D) × Bytes)) (item : Item D) (value : Bytes) :
    Except ParseStop (Item D × Bytes) :=
  if value.head? ≠ some opening then .error (.failed value)
  else
    let item := { item with type := type }
    let value := skip value.tail
    if value.head? = some closing then .ok (item, value.tail)
    else do
      let (children, rest) ← entries value
      .ok ({ item with child := children }, rest)

def parse_array (entries : Bytes → Except ParseStop (List (Item D) × Bytes)) :
    Item D → Bytes → Except ParseStop (Item D × Bytes) :=
  parse_bracketed .cJSON_Array (chr '[') (chr ']') entries

def parse_object (entries : Bytes → Except ParseStop (List (Item D) × Bytes)) :
    Item D → Bytes → Except ParseStop (Item D × Bytes) :=
  parse_bracketed .cJSON_Object (chr '{') (chr '}') entries

/-- `child->string = child->valuestring; child->valuestring = 0`. -/
def Item.named (child : Item D) : Item D :=
  { child with string := child.valuestring, valuestring := none }

/-- One member of an object: its name, the colon and its value. -/
def parse_member (ops : DoubleOps D) (dialect : Dialect)
    (parseValue : Item D → Bytes → Except ParseStop (Item D × Bytes)) (value : Bytes) :
    Except ParseStop (Item D × Bytes) := do
  let (child, rest) ← parse_string dialect (cJSON_New_Item ops) value
  let value := skip rest
  if value.head? = some (chr ':') then parseValue child.named (skip value.tail)
  else .error (.failed value)

/-- `parse_value` up to the calls that lead back to it. -/
def parse_case (ops : DoubleOps D) (dialect : Dialect)
    (array object : Item D → Bytes → Except ParseStop (Item D × Bytes))
    (item : Item D) (value : Bytes) : Except ParseStop (Item D × Bytes) :=
  if lit ['n', 'u', 'l', 'l'] <+: value then
    .ok ({ item with type := .cJSON_NULL }, value.drop 4)
  else if lit ['f', 'a', 'l', 's', 'e'] <+: value then
    .ok ({ item with type := .cJSON_False }, value.drop 5)
  else if lit ['t', 'r', 'u', 'e'] <+: value then
    .ok ({ item with type := .cJSON_True, valueint := 1 }, value.drop 4)
  else
    match value with
    | [] => .error (.failed [])
    | ch :: rest =>
      if ch = chr '-' ∨ isdigit ch then .ok (parse_number ops item (ch :: rest))
      else if ch = chr '[' then array item (ch :: rest)
      else if ch = chr '{' then object item (ch :: rest)
      else if ch = quote then parse_string dialect item (ch :: rest)
      else if dialect = .modified ∧ isalpha ch then parse_string dialect item (ch :: rest)
      else .error (.failed (ch :: rest))

def parse_value (ops : DoubleOps D) (dialect : Dialect) :
    Nat → Item D → Bytes → Except ParseStop (Item D × Bytes)
  | 0, _, _ => .error .outOfFuel
  | fuel + 1, item, value =>
    parse_case ops dialect
      (parse_array (parse_entries (chr ']')
        (parse_value ops dialect fuel (cJSON_New_Item ops)) fuel))
      (parse_object (parse_entries (chr '}')
        (parse_member ops dialect (parse_value ops dialect fuel)) fuel))
      item value

/-- The tree and the position `return_parse_end` receives. -/
def cJSON_ParseWithOpts (ops : DoubleOps D) (dialect : Dialect) (value : Bytes)
    (require_null_terminated : Bool) : Except ParseStop (Item D × Bytes) := do
  let (c, ending) ← parse_value ops dialect (value.length + 1) (cJSON_New_Item ops) (skip value)
  if require_null_terminated then
    if skip ending = [] then .ok (c, []) else .error (.failed (skip ending))
  else .ok (c, ending)

def cJSON_Parse (ops : DoubleOps D) (value : Bytes) : Except ParseStop (Item D × Bytes) :=
  cJSON_ParseWithOpts ops .modified value false

end BlmLink.Source
