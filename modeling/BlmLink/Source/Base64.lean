import BlmLink.Source.Bytes

/-!
# `Base64::encode` and `Base64::decode`

blmutil.cpp:54-68 over `base64_encode` and `base64_decode`, polarssl/library/base64.c:70-192.
The wrappers allocate an output block, pass its size in `olen`, log a failure and
build the result from as many octets as `olen` says afterwards. The library
returns early without setting `*dlen` on empty input, on text with nothing to
decode and on invalid text; if the block is too small it sets `*dlen` to the size
it wants. The result then holds octets the library never wrote, and octets behind
the block where `olen` exceeds its size (`beyond`).
-/
namespace BlmLink.Source

/-- What a library call leaves: its return value, `*dlen`, and what it wrote to `dst`. -/
structure Base64Ret where
  ret : Int
  dlen : Nat
  written : Bytes
  deriving DecidableEq, Repr

/-- `POLARSSL_ERR_BASE64_BUFFER_TOO_SMALL`. -/
def base64BufferTooSmall : Int := -0x002A

/-- `POLARSSL_ERR_BASE64_INVALID_CHARACTER`. -/
def base64InvalidCharacter : Int := -0x002C

/-- `base64_enc_map`. -/
def base64_enc_map : Bytes :=
  ['A', 'B', 'C', 'D', 'E', 'F', 'G', 'H', 'I', 'J', 'K', 'L', 'M', 'N', 'O', 'P',
   'Q', 'R', 'S', 'T', 'U', 'V', 'W', 'X', 'Y', 'Z', 'a', 'b', 'c', 'd', 'e', 'f',
   'g', 'h', 'i', 'j', 'k', 'l', 'm', 'n', 'o', 'p', 'q', 'r', 's', 't', 'u', 'v',
   'w', 'x', 'y', 'z', '0', '1', '2', '3', '4', '5', '6', '7', '8', '9', '+', '/'].map chr

/-- `base64_enc_map[v & 0x3F]`. -/
def encChar (v : Nat) : Byte := base64_enc_map.getD (v % 64) 0

/-- `base64_dec_map`, one row for each ten characters: 127 is no character of the
text, 64 is `=`. -/
def base64_dec_map : List Nat :=
  [127, 127, 127, 127, 127, 127, 127, 127, 127, 127,
   127, 127, 127, 127, 127, 127, 127, 127, 127, 127,
   127, 127, 127, 127, 127, 127, 127, 127, 127, 127,
   127, 127, 127, 127, 127, 127, 127, 127, 127, 127,
   127, 127, 127, 62, 127, 127, 127, 63, 52, 53,
   54, 55, 56, 57, 58, 59, 60, 61, 127, 127,
   127, 64, 127, 127, 127, 0, 1, 2, 3, 4,
   5, 6, 7, 8, 9, 10, 11, 12, 13, 14,
   15, 16, 17, 18, 19, 20, 21, 22, 23, 24,
   25, 127, 127, 127, 127, 127, 127, 26, 27, 28,
   29, 30, 31, 32, 33, 34, 35, 36, 37, 38,
   39, 40, 41, 42, 43, 44, 45, 46, 47, 48,
   49, 50, 51, 127, 127, 127, 127, 127]

/-- `base64_dec_map[c]`; the source tests `c > 127` before it looks a character up. -/
def decVal (c : Byte) : Nat := base64_dec_map.getD c.toNat 127

/-- The characters for `src`, three octets at a time, and the padded rest. -/
def encodeGroups : Bytes → Bytes
  | [] => []
  | [c1] =>
    [encChar (c1.toNat / 4), encChar (c1.toNat % 4 * 16), chr '=', chr '=']
  | [c1, c2] =>
    [encChar (c1.toNat / 4), encChar (c1.toNat % 4 * 16 + c2.toNat / 16),
      encChar (c2.toNat % 16 * 4), chr '=']
  | c1 :: c2 :: c3 :: src =>
    encChar (c1.toNat / 4) :: encChar (c1.toNat % 4 * 16 + c2.toNat / 16) ::
      encChar (c2.toNat % 16 * 4 + c3.toNat / 64) :: encChar c3.toNat :: encodeGroups src

/-- `n` of `base64_encode`: how many characters `slen` octets make. -/
def encodedLength (slen : Nat) : Nat :=
  let n := slen * 8 / 6
  match slen * 8 - n * 6 with
  | 2 => n + 3
  | 4 => n + 2
  | _ => n

def base64_encode (dlen : Nat) (src : Bytes) : Base64Ret :=
  if src.length = 0 then ⟨0, dlen, []⟩
  else if dlen < encodedLength src.length + 1 then
    ⟨base64BufferTooSmall, encodedLength src.length + 1, []⟩
  else ⟨0, (encodeGroups src).length, encodeGroups src ++ [0]⟩

/-- The first loop of `base64_decode`: the number of characters that count, or `none` for
`POLARSSL_ERR_BASE64_INVALID_CHARACTER`; `j` counts `=`. -/
def scan : (j n : Nat) → Bytes → Option Nat
  | _, n, [] => some n
  | j, n, c :: src =>
    if c = chr '\r' ∧ src.head? = some (chr '\n') then scan j n src
    else if c = chr '\n' then scan j n src
    else
      let j' := if c = chr '=' then j + 1 else j
      if 2 < j' then none
      else if 127 < c.toNat ∨ decVal c = 127 then none
      else if decVal c < 64 ∧ j' ≠ 0 then none
      else scan j' (n + 1) src

/-- The second loop: after every fourth character up to three octets are written. -/
def decodeLoop : (j : Nat) → (n : Nat) → (x : BitVec 32) → Bytes → Bytes
  | _, _, _, [] => []
  | j, n, x, c :: src =>
    if c = chr '\r' ∨ c = chr '\n' then decodeLoop j n x src
    else
      let j' := if decVal c = 64 then j - 1 else j
      let x' := (x <<< 6) ||| BitVec.ofNat 32 (decVal c % 64)
      if n + 1 = 4 then
        (if 0 < j' then [(x' >>> 16).setWidth 8] else []) ++
          (if 1 < j' then [(x' >>> 8).setWidth 8] else []) ++
          (if 2 < j' then [x'.setWidth 8] else []) ++ decodeLoop j' 0 x' src
      else decodeLoop j' (n + 1) x' src

def base64_decode (dlen : Nat) (src : Bytes) : Base64Ret :=
  match scan 0 0 src with
  | none => ⟨base64InvalidCharacter, dlen, []⟩
  | some 0 => ⟨0, dlen, []⟩
  | some n =>
    if dlen < (n * 6 + 7) / 8 then ⟨base64BufferTooSmall, (n * 6 + 7) / 8, []⟩
    else
      let out := decodeLoop 3 0 0 src
      ⟨0, out.length, out⟩

/-- `string(o, o + olen)` after a library call on a block of `size` octets; `mem` is what the
block held at first and `beyond` what lies behind it. -/
def base64Result (size : Nat) (mem beyond : FreshMem) (called : Base64Ret) : Bytes :=
  let o := called.written ++ (mem.bytes size).drop called.written.length
  (o ++ beyond.bytes (called.dlen - size)).take called.dlen

namespace Base64

def encode (mem beyond : FreshMem) (data : Bytes) : Bytes :=
  let olen := data.length * 2 + 2
  base64Result olen mem beyond (base64_encode olen data)

def decode (mem beyond : FreshMem) (data : Bytes) : Bytes :=
  let olen := data.length + 2
  base64Result olen mem beyond (base64_decode olen data)

end Base64

end BlmLink.Source
