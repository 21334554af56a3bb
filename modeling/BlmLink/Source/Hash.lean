import BlmLink.Source.Bytes

/-!
# `Hash::md5` and `Hash::sha1`

blmutil.cpp:70-80 over polarssl/library/md5.c:44-290 and sha1.c:44-300. The functions that take
the message are the same in both files up to the function for one block, so they are written
once (`updateContext`, `finishState`). The macro `P` is called with its arguments shifted by
one place from call to call; here the variables move instead, and are where they were after
four calls, or five. `total` is two words, `buffer` is a local of the caller that nothing has
written yet, and what is left in the context is cleared afterwards.
-/
namespace BlmLink.Source

abbrev Word := BitVec 32

/-- The macro `S`. -/
def rotated (x : Word) (n : Nat) : Word := (x <<< n) ||| ((x &&& 0xFFFFFFFF) >>> (32 - n))

/-- `md5_context` and `sha1_context`. -/
structure HashContext (σ : Type) where
  total0 : Word
  total1 : Word
  state : σ
  buffer : Bytes

section update

variable {σ : Type}

/-- `memcpy(buffer + left, input, …)`. -/
def overlay (buffer : Bytes) (left : Nat) (input : Bytes) : Bytes :=
  buffer.take left ++ input ++ buffer.drop (left + input.length)

/-- `while (ilen >= 64)`: the state, and what is left of the input. -/
def processBlocks (process : σ → Bytes → σ) : (fuel : Nat) → σ → Bytes → σ × Bytes
  | 0, state, input => (state, input)
  | fuel + 1, state, input =>
    if 64 ≤ input.length then
      processBlocks process fuel (process state (input.take 64)) (input.drop 64)
    else (state, input)

/-- `md5_update` and `sha1_update`. -/
def updateContext (process : σ → Bytes → σ) (ctx : HashContext σ) (input : Bytes) :
    HashContext σ :=
  if input.length = 0 then ctx
  else
    let left := (ctx.total0 &&& 0x3F).toNat
    let fill := 64 - left
    let ilen : Word := BitVec.ofNat 32 input.length
    let total0 := ctx.total0 + ilen
    let total1 := if total0 < ilen then ctx.total1 + 1 else ctx.total1
    if left ≠ 0 ∧ fill ≤ input.length then
      let buffer := overlay ctx.buffer left (input.take fill)
      let (state, rest) := processBlocks process input.length (process ctx.state buffer)
        (input.drop fill)
      ⟨total0, total1, state, overlay buffer 0 rest⟩
    else
      let (state, rest) := processBlocks process input.length ctx.state input
      ⟨total0, total1, state, overlay ctx.buffer left rest⟩

/-- `md5_padding` and `sha1_padding`. -/
def padding : Bytes := 0x80 :: List.replicate 63 0

/-- `md5_finish` and `sha1_finish` up to the output: `msglen` is made of `low` and `high`. -/
def finishState (process : σ → Bytes → σ) (msglen : (low high : Word) → Bytes)
    (ctx : HashContext σ) : σ :=
  let high := (ctx.total0 >>> 29) ||| (ctx.total1 <<< 3)
  let low := ctx.total0 <<< 3
  let last := (ctx.total0 &&& 0x3F).toNat
  let padn := if last < 56 then 56 - last else 120 - last
  let padded := updateContext process ctx (padding.take padn)
  (updateContext process padded (msglen low high)).state

end update

section md5

structure Md5State where
  A : Word
  B : Word
  C : Word
  D : Word
  deriving DecidableEq, Repr

def md5_starts (mem : FreshMem) : HashContext Md5State :=
  ⟨0, 0, ⟨0x67452301, 0xEFCDAB89, 0x98BADCFE, 0x10325476⟩, mem.bytes 64⟩

/-- The macro `P` with `X[k]`, the shift and the constant; the variables move one place. -/
def md5P (F : Word → Word → Word → Word) (X : Nat → Word) (v : Md5State)
    (row : Nat × Nat × Word) : Md5State :=
  ⟨v.D, rotated (v.A + (F v.B v.C v.D + X row.1 + row.2.2)) row.2.1 + v.B, v.B, v.C⟩

/-! The calls of `P`, one list for each `F`. -/

def md5Round1 : List (Nat × Nat × Word) :=
  [(0, 7, 0xD76AA478), (1, 12, 0xE8C7B756), (2, 17, 0x242070DB), (3, 22, 0xC1BDCEEE),
   (4, 7, 0xF57C0FAF), (5, 12, 0x4787C62A), (6, 17, 0xA8304613), (7, 22, 0xFD469501),
   (8, 7, 0x698098D8), (9, 12, 0x8B44F7AF), (10, 17, 0xFFFF5BB1), (11, 22, 0x895CD7BE),
   (12, 7, 0x6B901122), (13, 12, 0xFD987193), (14, 17, 0xA679438E), (15, 22, 0x49B40821)]

def md5Round2 : List (Nat × Nat × Word) :=
  [(1, 5, 0xF61E2562), (6, 9, 0xC040B340), (11, 14, 0x265E5A51), (0, 20, 0xE9B6C7AA),
   (5, 5, 0xD62F105D), (10, 9, 0x02441453), (15, 14, 0xD8A1E681), (4, 20, 0xE7D3FBC8),
   (9, 5, 0x21E1CDE6), (14, 9, 0xC33707D6), (3, 14, 0xF4D50D87), (8, 20, 0x455A14ED),
   (13, 5, 0xA9E3E905), (2, 9, 0xFCEFA3F8), (7, 14, 0x676F02D9), (12, 20, 0x8D2A4C8A)]

def md5Round3 : List (Nat × Nat × Word) :=
  [(5, 4, 0xFFFA3942), (8, 11, 0x8771F681), (11, 16, 0x6D9D6122), (14, 23, 0xFDE5380C),
   (1, 4, 0xA4BEEA44), (4, 11, 0x4BDECFA9), (7, 16, 0xF6BB4B60), (10, 23, 0xBEBFBC70),
   (13, 4, 0x289B7EC6), (0, 11, 0xEAA127FA), (3, 16, 0xD4EF3085), (6, 23, 0x04881D05),
   (9, 4, 0xD9D4D039), (12, 11, 0xE6DB99E5), (15, 16, 0x1FA27CF8), (2, 23, 0xC4AC5665)]

def md5Round4 : List (Nat × Nat × Word) :=
  [(0, 6, 0xF4292244), (7, 10, 0x432AFF97), (14, 15, 0xAB9423A7), (5, 21, 0xFC93A039),
   (12, 6, 0x655B59C3), (3, 10, 0x8F0CCC92), (10, 15, 0xFFEFF47D), (1, 21, 0x85845DD1),
   (8, 6, 0x6FA87E4F), (15, 10, 0xFE2CE6E0), (6, 15, 0xA3014314), (13, 21, 0x4E0811A1),
   (4, 6, 0xF7537E82), (11, 10, 0xBD3AF235), (2, 15, 0x2AD7D2BB), (9, 21, 0xEB86D391)]

def md5_process (state : Md5State) (data : Bytes) : Md5State :=
  let X k := leWord (data.drop (4 * k))
  let v := md5Round1.foldl (md5P (fun x y z => z ^^^ (x &&& (y ^^^ z))) X) state
  let v := md5Round2.foldl (md5P (fun x y z => y ^^^ (z &&& (x ^^^ y))) X) v
  let v := md5Round3.foldl (md5P (fun x y z => x ^^^ y ^^^ z) X) v
  let v := md5Round4.foldl (md5P (fun x y z => y ^^^ (x ||| ~~~z)) X) v
  ⟨state.A + v.A, state.B + v.B, state.C + v.C, state.D + v.D⟩

def md5_update : HashContext Md5State → Bytes → HashContext Md5State := updateContext md5_process

def md5_finish (ctx : HashContext Md5State) : Bytes :=
  let state := finishState md5_process (fun low high => leBytes low ++ leBytes high) ctx
  leBytes state.A ++ leBytes state.B ++ leBytes state.C ++ leBytes state.D

def md5 (mem : FreshMem) (input : Bytes) : Bytes := md5_finish (md5_update (md5_starts mem) input)

def Hash.md5 (mem : FreshMem) (data : Bytes) : Bytes := BlmLink.Source.md5 mem data

end md5

section sha1

structure Sha1State where
  A : Word
  B : Word
  C : Word
  D : Word
  E : Word
  deriving DecidableEq, Repr

/-- `PUT_UINT32_BE`. -/
def beBytes (v : Word) : Bytes :=
  [v.extractLsb' 24 8, v.extractLsb' 16 8, v.extractLsb' 8 8, v.extractLsb' 0 8]

/-- `GET_UINT32_BE`. -/
def beWord (bs : Bytes) : Word := bs.getD 0 0 ++ bs.getD 1 0 ++ bs.getD 2 0 ++ bs.getD 3 0

def sha1_starts (mem : FreshMem) : HashContext Sha1State :=
  ⟨0, 0, ⟨0x67452301, 0xEFCDAB89, 0x98BADCFE, 0x10325476, 0xC3D2E1F0⟩, mem.bytes 64⟩

/-- The macro `P`; the variables move one place. -/
def sha1P (F : Word → Word → Word → Word) (K : Word) (v : Sha1State) (x : Word) : Sha1State :=
  ⟨v.E + (rotated v.A 5 + F v.B v.C v.D + K + x), v.A, rotated v.B 30, v.C, v.D⟩

/-- The macro `R`: the new `W`, and its value is `W[t & 0x0F]`. -/
def sha1R (W : List Word) (t : Nat) : List Word :=
  let temp := W.getD ((t - 3) % 16) 0 ^^^ W.getD ((t - 8) % 16) 0 ^^^ W.getD ((t - 14) % 16) 0 ^^^
    W.getD (t % 16) 0
  W.set (t % 16) (rotated temp 1)

/-- A call of `P` with `W[t]` or `R(t)`. -/
def sha1Call (F : Word → Word → Word → Word) (K : Word) (v : List Word × Sha1State) (t : Nat) :
    List Word × Sha1State :=
  let W := if t < 16 then v.1 else sha1R v.1 t
  (W, sha1P F K v.2 (W.getD (t % 16) 0))

def sha1_process (state : Sha1State) (data : Bytes) : Sha1State :=
  let W := (List.range 16).map fun k => beWord (data.drop (4 * k))
  let v := (List.range' 0 20).foldl (sha1Call (fun x y z => z ^^^ (x &&& (y ^^^ z))) 0x5A827999)
    (W, state)
  let v := (List.range' 20 20).foldl (sha1Call (fun x y z => x ^^^ y ^^^ z) 0x6ED9EBA1) v
  let v := (List.range' 40 20).foldl
    (sha1Call (fun x y z => (x &&& y) ||| (z &&& (x ||| y))) 0x8F1BBCDC) v
  let v := (List.range' 60 20).foldl (sha1Call (fun x y z => x ^^^ y ^^^ z) 0xCA62C1D6) v
  ⟨state.A + v.2.A, state.B + v.2.B, state.C + v.2.C, state.D + v.2.D, state.E + v.2.E⟩

def sha1_update : HashContext Sha1State → Bytes → HashContext Sha1State :=
  updateContext sha1_process

def sha1_finish (ctx : HashContext Sha1State) : Bytes :=
  let state := finishState sha1_process (fun low high => beBytes high ++ beBytes low) ctx
  beBytes state.A ++ beBytes state.B ++ beBytes state.C ++ beBytes state.D ++ beBytes state.E

def sha1 (mem : FreshMem) (input : Bytes) : Bytes :=
  sha1_finish (sha1_update (sha1_starts mem) input)

def Hash.sha1 (mem : FreshMem) (data : Bytes) : Bytes := BlmLink.Source.sha1 mem data

end sha1

end BlmLink.Source
