import BlmLink.Lib.Numerals
import BlmLink.Lib.Substring
import BlmLink.Source.BlmLog
import BlmLink.Source.CJson

/-!
# The string functions of util_fun.cpp

util_fun.cpp:84-102, 112-114, 124-139, 162-197 and 209-245, util_fun.h:22-25. A `const char*`
is a list of octets whose end is the terminator. Positions in a string are natural numbers;
only `trimSpaces` keeps them in an `int`, and there a length is converted and an `int` may
overflow (`none`). `none` of `strToStrList` is a loop that has not ended after as many rounds
as the string has characters.

`tolower` and `isspace` (that of `CJson`) are those of the C locale, `atoi` and `%d` those of
the C library. `atoi` of a number that is not an `int` is not defined by the library; here it
wraps. No octet from 128 on is white space.
-/
namespace BlmLink.Source

open Lib

/-- `tolower` on the values of a `char`. A negative one is outside the domain of the library,
which gives it back as it is or as an `unsigned char`. -/
structure CLocale where
  sign : CharSign
  tolower : Int → Int
  domain : ∀ v, 0 ≤ v → v < 256 → tolower v = if 65 ≤ v ∧ v ≤ 90 then v + 32 else v
  negative : ∀ v, -128 ≤ v → v < 0 → tolower v = v ∨ tolower v = v + 256

/-- The character that a pointer points to. -/
def deref (s : Bytes) : Byte := s.headD 0

/-- The loop of the two comparisons, with what they compare of a character. -/
def strcmpBy (value : Byte → Int) : Bytes → Bytes → Int
  | c1 :: s1, c2 :: s2 =>
    if c1 ≠ 0 ∧ c2 ≠ 0 ∧ value c1 - value c2 = 0 then strcmpBy value s1 s2
    else value c1 - value c2
  | s1, s2 => value (deref s1) - value (deref s2)

def strcmpNoCase (loc : CLocale) : Bytes → Bytes → Int :=
  strcmpBy fun c => loc.tolower (charToInt loc.sign c)

def strcmpCase (sign : CharSign) : Bytes → Bytes → Int := strcmpBy (charToInt sign)

def compareNoCase (loc : CLocale) (s1 s2 : Bytes) : Bool := decide (strcmpNoCase loc s1 s2 = 0)

/-- The literal `"true"`. -/
def trueText : Bytes := [chr 't', chr 'r', chr 'u', chr 'e']

/-- `compareNoCase(...) == 0` compares a `bool` with zero. -/
def strToBool (loc : CLocale) (str : Bytes) : Bool :=
  if compareNoCase loc (cString str) trueText = false then true else false

def toLower (sign : CharSign) (str : Bytes) : Bytes :=
  str.map fun c =>
    if charToInt sign (chr 'A') ≤ charToInt sign c ∧ charToInt sign c ≤ charToInt sign (chr 'Z')
    then c ||| 32 else c

/-- `formatString("%d", i)`. -/
def intToStr (i : CInt) : Bytes :=
  (if i.toInt < 0 then [chr '-'] else []) ++
    (Numerals.numeral 10 i.toInt.natAbs).map fun digit => BitVec.ofNat 8 (48 + digit)

/-- The number that `atoi` reads from digits. -/
def digitsValue (s : Bytes) : Nat :=
  Numerals.value 10 ((s.takeWhile isdigit).map fun c => c.toNat - 48)

/-- `atoi(str.c_str())`. -/
def strToInt (str : Bytes) : CInt :=
  match (cString str).dropWhile isspace with
  | [] => 0
  | c :: rest =>
    if c = chr '-' then BitVec.ofInt 32 (-(digitsValue rest : Int))
    else if c = chr '+' then BitVec.ofInt 32 (digitsValue rest)
    else BitVec.ofInt 32 (digitsValue (c :: rest))

/-- `str.substr(0, n)` for a difference `n` of two lengths: below zero it wraps to more than
any length. -/
def substrTo (str : Bytes) (n : Int) : Bytes := if n < 0 then str else str.take n.toNat

/-- Each text with the delimiter behind it, without the last delimiter. -/
def joinList {α : Type} (text : α → Bytes) (delim : Bytes) (l : List α) : Bytes :=
  let str := l.foldl (fun str a => str ++ (text a ++ delim)) []
  substrTo str (str.length - delim.length)

def intListToStr (l : List CInt) (delim : Byte) : Bytes := joinList intToStr [delim] l

/-- `strListToStr(vector<string>, const string&)`. -/
def strListToStr (l : List Bytes) (delim : Bytes) : Bytes := joinList id delim l

/-- A length, or one less, as an `int`. -/
def sizeToInt (n : Int) : Int := (BitVec.ofInt 32 n).toInt

/-- The second loop of `trimSpaces`, from a position that is not negative. -/
def trimEnd (value : Bytes) : Nat → Nat
  | 0 => 0
  | ed + 1 => if isspace (value.getD (ed + 1) 0) then trimEnd value ed else ed + 1

def trimSpaces (value : Bytes) : Option Bytes :=
  let be := (value.takeWhile isspace).length
  let ed := match sizeToInt (value.length - 1) with
    | .ofNat ed => (trimEnd value ed : Int)
    | .negSucc ed => .negSucc ed
  if 2 ^ 31 ≤ be then none
  else if (be : Int) ≤ ed then
    if 2 ^ 31 ≤ ed - be + 1 then none
    else some ((value.drop be).take (ed - be + 1).toNat)
  else some []

def strToIntList (str : Bytes) (delim : Byte) : Option (List CInt) :=
  (trimSpaces str).map fun s => (splitString s delim).map strToInt

/-- `strToStrList(const string&, char)`. -/
def strToStrListChar (str : Bytes) (delim : Byte) : List Bytes := splitString str delim

/-- The loop of `strToStrList`, and what follows it. -/
def strToStrLoop (src delimit : Bytes) : Nat → Nat → List Bytes → Option (List Bytes)
  | 0, _, _ => none
  | fuel + 1, last_search_position, strList =>
    match Substring.find src delimit last_search_position with
    | some index =>
      strToStrLoop src delimit fuel (index + delimit.length)
        (strList ++ [(src.drop last_search_position).take (index - last_search_position)])
    | none =>
      let last_one := src.drop last_search_position
      some (if last_one = [] then strList else strList ++ [last_one])

/-- `strToStrList(const string&, const string&)`. -/
def strToStrList (src delimit : Bytes) : Option (List Bytes) :=
  if src = [] ∨ delimit = [] then some []
  else strToStrLoop src delimit (src.length + 1) 0 []

end BlmLink.Source
