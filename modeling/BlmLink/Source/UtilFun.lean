import BlmLink.Lib.Substring
import BlmLink.Source.Bytes

/-!
# `replaceAll` and `randomBuf`

util_fun.cpp:66-72 and 152-160, blmutil.h:24-47. `replaceAll` edits the string that it
searches; the three strings are different objects, and lengths are natural numbers, so no
string is too long to be built. `none` is a loop that has not ended when its bound is used
up.

`randomBuf` writes to memory by address. The size of a `char*` is a parameter, as is the
stream of the `rand()` outputs that follow `srand`.
-/
namespace BlmLink.Source

open Lib

/-- `str.replace(pos, n, newVal)`. -/
def replaceAt (str : Bytes) (pos n : Nat) (newVal : Bytes) : Bytes :=
  str.take pos ++ newVal ++ str.drop (pos + n)

/-- The loop of `replaceAll` with its position. `pos != npos` holds whenever `pos` is below
the length. -/
def replaceLoop (oldVal newVal : Bytes) : Nat → Bytes → Nat → Option Bytes
  | 0, _, _ => none
  | fuel + 1, str, pos =>
    if pos < str.length then
      match Substring.find str oldVal pos with
      | some pos =>
        replaceLoop oldVal newVal fuel (replaceAt str pos oldVal.length newVal)
          (pos + newVal.length)
      | none => some str
    else some str

def replaceAll (fuel : Nat) (str oldVal newVal : Bytes) : Option Bytes :=
  replaceLoop oldVal newVal fuel str 0

abbrev Memory := Nat → Byte

def Memory.set (mem : Memory) (address : Nat) (b : Byte) : Memory :=
  fun a => if a = address then b else mem a

/-- The octets from an address on. -/
def Memory.read (mem : Memory) (address n : Nat) : Bytes :=
  (List.range n).map fun i => mem (address + i)

/-- `(char)(rand()%256)`. -/
def randomByte (rand : Nat → Nat) (i : Nat) : Byte := BitVec.ofNat 8 (rand i % 256)

/-- `d` is a pointer, so `sizeof(d)` is the size of a pointer and `sz` is not read. -/
def randomBuf (sizeofD : Nat) (rand : Nat → Nat) (mem : Memory) (data : Nat) (_sz : Int) : Memory :=
  (List.range sizeofD).foldl (fun mem i => mem.set (data + i) (randomByte rand i)) mem

/-- The key of an object made by `AES128Cipher()`; `key` is its address. -/
def AES128Cipher.defaultKey (sizeofD : Nat) (rand : Nat → Nat) (mem : Memory) (key : Nat) : Bytes :=
  (randomBuf sizeofD rand mem key 16).read key 16

/-- The key of an object made by `RC4()`. -/
def RC4.defaultKey (sizeofD : Nat) (rand : Nat → Nat) (mem : Memory) (key : Nat) : Bytes :=
  (randomBuf sizeofD rand mem key 32).read key 32

end BlmLink.Source
