import BlmLink.Source.Hash

/-!
# The block cipher

polarssl/library/aes.c:355-442, 447-632 and 634-770. The tables are those `aes_gen_tables`
computes on the first call of `aes_setkey_enc`; `POLARSSL_AES_ROM_TABLES` is not defined. Its
`int`s are natural numbers. An entry of a static table that is not set is zero, `log[0]` is not
read. The words `X0` to `X3` are one value that takes an index, and the four lines of a round
are one line with it; the context holds the words of the key and their position is a suffix.
The branches of `POLARSSL_PADLOCK_C` are left out.
-/
namespace BlmLink.Source

section tables

def XTIME (x : Nat) : Nat := (x <<< 1) ^^^ (if x &&& 0x80 ≠ 0 then 0x1B else 0x00)

/-- The arrays `pow` and `log` and the variable `x`. -/
structure PowLog where
  pow : List Nat
  log : List Nat
  x : Nat

def powLogStep (t : PowLog) (i : Nat) : PowLog :=
  ⟨t.pow.set i t.x, t.log.set t.x i, (t.x ^^^ XTIME t.x) &&& 0xFF⟩

def powLog : PowLog :=
  (List.range 256).foldl powLogStep ⟨List.replicate 256 0, List.replicate 256 0, 1⟩

def MUL (x y : Nat) : Nat :=
  if x ≠ 0 ∧ y ≠ 0 then powLog.pow.getD ((powLog.log.getD x 0 + powLog.log.getD y 0) % 255) 0 else 0

/-- The loop of the round constants. -/
def rconFrom : (count : Nat) → (x : Nat) → List Word
  | 0, _ => []
  | count + 1, x => BitVec.ofNat 32 x :: rconFrom count (XTIME x &&& 0xFF)

def RCON : List Word := rconFrom 10 1

/-- `y = ( (y << 1) | (y >> 7) ) & 0xFF` -/
def rotateOctet (y : Nat) : Nat := ((y <<< 1) ||| (y >>> 7)) &&& 0xFF

/-- What the loop computes from `pow[255 - log[i]]`. -/
def affine (x : Nat) : Nat :=
  let y := rotateOctet x
  let x := x ^^^ y
  let y := rotateOctet y
  let x := x ^^^ y
  let y := rotateOctet y
  let x := x ^^^ y
  let y := rotateOctet y
  x ^^^ (y ^^^ 0x63)

/-- The loop of the S-boxes: `FSb` and `RSb`. -/
def boxesStep (t : List Nat × List Nat) (i : Nat) : List Nat × List Nat :=
  let x := affine (powLog.pow.getD (255 - powLog.log.getD i 0) 0)
  (t.1.set i x, t.2.set x i)

def boxes : List Nat × List Nat :=
  (List.range' 1 255).foldl boxesStep
    ((List.replicate 256 0).set 0x00 0x63, (List.replicate 256 0).set 0x63 0x00)

def FSb : List Nat := boxes.1

def RSb : List Nat := boxes.2

def ROTL8 (x : Word) : Word := ((x <<< 8) &&& (0xFFFFFFFF : Word)) ||| (x >>> 24)

/-- Four octets put together with `^`, the first in the lowest place. -/
def assembled (b0 b1 b2 b3 : Nat) : Word :=
  BitVec.ofNat 32 b0 ^^^ (BitVec.ofNat 32 b1 <<< 8) ^^^ (BitVec.ofNat 32 b2 <<< 16) ^^^
    (BitVec.ofNat 32 b3 <<< 24)

def FT0 : List Word := (List.range 256).map fun i =>
  let x := FSb.getD i 0
  let y := XTIME x &&& 0xFF
  let z := (y ^^^ x) &&& 0xFF
  assembled y x x z

def FT1 : List Word := FT0.map ROTL8
def FT2 : List Word := FT1.map ROTL8
def FT3 : List Word := FT2.map ROTL8

def RT0 : List Word := (List.range 256).map fun i =>
  let x := RSb.getD i 0
  assembled (MUL 0x0E x) (MUL 0x09 x) (MUL 0x0D x) (MUL 0x0B x)

def RT1 : List Word := RT0.map ROTL8
def RT2 : List Word := RT1.map ROTL8
def RT3 : List Word := RT2.map ROTL8

end tables

section keys

/-- `aes_context`: the number of rounds, and the words from `rk` on that are set. -/
structure AesContext where
  nr : Nat
  rk : List Word

/-- `( w >> 8k ) & 0xFF`. -/
def octet (w : Word) (k : Nat) : Nat := ((w >>> (8 * k)) &&& 0xFF).toNat

/-- The S-box on four octets. -/
def boxed (box : List Nat) (i0 i1 i2 i3 : Nat) : Word :=
  assembled (box.getD i0 0) (box.getD i1 0) (box.getD i2 0) (box.getD i3 0)

/-- `RCON[i] ^ FSb[ ( w >> 8 ) & 0xFF ] ^ …`, the octets rotated by one place. -/
def rotatedBoxed (w : Word) : Word := boxed FSb (octet w 1) (octet w 2) (octet w 3) (octet w 0)

/-- An iteration for a key of 128 bits, `RK` at word `4 * i`. -/
def expand128 (rk : List Word) (i : Nat) : List Word :=
  let RK n := rk.getD (4 * i + n) 0
  let w4 := RK 0 ^^^ RCON.getD i 0 ^^^ rotatedBoxed (RK 3)
  let w5 := RK 1 ^^^ w4
  let w6 := RK 2 ^^^ w5
  let w7 := RK 3 ^^^ w6
  rk ++ [w4, w5, w6, w7]

/-- One for a key of 192 bits. -/
def expand192 (rk : List Word) (i : Nat) : List Word :=
  let RK n := rk.getD (6 * i + n) 0
  let w6 := RK 0 ^^^ RCON.getD i 0 ^^^ rotatedBoxed (RK 5)
  let w7 := RK 1 ^^^ w6
  let w8 := RK 2 ^^^ w7
  let w9 := RK 3 ^^^ w8
  let w10 := RK 4 ^^^ w9
  let w11 := RK 5 ^^^ w10
  rk ++ [w6, w7, w8, w9, w10, w11]

/-- One for a key of 256 bits. -/
def expand256 (rk : List Word) (i : Nat) : List Word :=
  let RK n := rk.getD (8 * i + n) 0
  let w8 := RK 0 ^^^ RCON.getD i 0 ^^^ rotatedBoxed (RK 7)
  let w9 := RK 1 ^^^ w8
  let w10 := RK 2 ^^^ w9
  let w11 := RK 3 ^^^ w10
  let w12 := RK 4 ^^^ boxed FSb (octet w11 0) (octet w11 1) (octet w11 2) (octet w11 3)
  let w13 := RK 5 ^^^ w12
  let w14 := RK 6 ^^^ w13
  let w15 := RK 7 ^^^ w14
  rk ++ [w8, w9, w10, w11, w12, w13, w14, w15]

/-- `none` is `POLARSSL_ERR_AES_INVALID_KEY_LENGTH`. -/
def aes_setkey_enc (key : Bytes) (keysize : Nat) : Option AesContext :=
  let words := (List.range (keysize / 32)).map fun i => leWord (key.drop (4 * i))
  if keysize = 128 then some ⟨10, (List.range 10).foldl expand128 words⟩
  else if keysize = 192 then some ⟨12, (List.range 8).foldl expand192 words⟩
  else if keysize = 256 then some ⟨14, (List.range 7).foldl expand256 words⟩
  else none

/-- `RT0[ FSb[ ( *SK ) & 0xFF ] ] ^ RT1[ … ] ^ RT2[ … ] ^ RT3[ … ]` -/
def unmixedKey (w : Word) : Word :=
  RT0.getD (FSb.getD (octet w 0) 0) 0 ^^^ RT1.getD (FSb.getD (octet w 1) 0) 0 ^^^
    RT2.getD (FSb.getD (octet w 2) 0) 0 ^^^ RT3.getD (FSb.getD (octet w 3) 0) 0

/-- The four words at `SK`. -/
def fourWords (sk : List Word) (at_ : Nat) : List Word := (sk.drop at_).take 4

/-- `for( i = nr - 1, SK -= 8; i > 0; i--, SK -= 8 )`: `i` is also the number of the round key
that `SK` is at. -/
def unmixKeys (sk : List Word) : (i : Nat) → List Word
  | 0 => []
  | i + 1 => (fourWords sk (4 * (i + 1))).map unmixedKey ++ unmixKeys sk i

def aes_setkey_dec (key : Bytes) (keysize : Nat) : Option AesContext :=
  (aes_setkey_enc key keysize).map fun cty =>
    ⟨cty.nr, fourWords cty.rk (4 * cty.nr) ++ unmixKeys cty.rk (cty.nr - 1) ++ fourWords cty.rk 0⟩

end keys

section rounds

/-- The words `X0` to `X3`. -/
structure Quad where
  X0 : Word
  X1 : Word
  X2 : Word
  X3 : Word
  deriving DecidableEq, Repr

def Quad.get (X : Quad) (j : Fin 4) : Word :=
  match j with
  | 0 => X.X0
  | 1 => X.X1
  | 2 => X.X2
  | 3 => X.X3

def Quad.of (word : Fin 4 → Word) : Quad := ⟨word 0, word 1, word 2, word 3⟩

def AES_FROUND (RK : List Word) (Y : Quad) : Quad := .of fun j =>
  RK.getD j 0 ^^^ FT0.getD (octet (Y.get j) 0) 0 ^^^ FT1.getD (octet (Y.get (j + 1)) 1) 0 ^^^
    FT2.getD (octet (Y.get (j + 2)) 2) 0 ^^^ FT3.getD (octet (Y.get (j + 3)) 3) 0

def AES_RROUND (RK : List Word) (Y : Quad) : Quad := .of fun j =>
  RK.getD j 0 ^^^ RT0.getD (octet (Y.get j) 0) 0 ^^^ RT1.getD (octet (Y.get (j + 3)) 1) 0 ^^^
    RT2.getD (octet (Y.get (j + 2)) 2) 0 ^^^ RT3.getD (octet (Y.get (j + 1)) 3) 0

/-- The last round of encryption. -/
def lastForward (RK : List Word) (Y : Quad) : Quad := .of fun j =>
  RK.getD j 0 ^^^ boxed FSb (octet (Y.get j) 0) (octet (Y.get (j + 1)) 1)
    (octet (Y.get (j + 2)) 2) (octet (Y.get (j + 3)) 3)

/-- That of decryption. -/
def lastReverse (RK : List Word) (Y : Quad) : Quad := .of fun j =>
  RK.getD j 0 ^^^ boxed RSb (octet (Y.get j) 0) (octet (Y.get (j + 3)) 1)
    (octet (Y.get (j + 2)) 2) (octet (Y.get (j + 1)) 3)

/-- `for( i = (nr >> 1) - 1; i > 0; i-- )`, two rounds each, with where `RK` is then. -/
def roundPairs (round : List Word → Quad → Quad) : (i : Nat) → List Word → Quad → Quad × List Word
  | 0, RK, X => (X, RK)
  | i + 1, RK, X => roundPairs round i (RK.drop 8) (round (RK.drop 4) (round RK X))

/-- `aes_crypt_ecb` with the rounds of a mode. -/
def cryptEcb (round last : List Word → Quad → Quad) (ctx : AesContext) (input : Bytes) : Bytes :=
  let X := Quad.of fun j => leWord (input.drop (4 * j)) ^^^ ctx.rk.getD j 0
  let (X, RK) := roundPairs round (ctx.nr / 2 - 1) (ctx.rk.drop 4) X
  let Y := round RK X
  let X := last (RK.drop 4) Y
  leBytes X.X0 ++ leBytes X.X1 ++ leBytes X.X2 ++ leBytes X.X3

inductive AesMode where
  | AES_ENCRYPT | AES_DECRYPT
  deriving DecidableEq, Repr

def aes_crypt_ecb (ctx : AesContext) (mode : AesMode) (input : Bytes) : Bytes :=
  match mode with
  | .AES_DECRYPT => cryptEcb AES_RROUND lastReverse ctx input
  | .AES_ENCRYPT => cryptEcb AES_FROUND lastForward ctx input

end rounds

end BlmLink.Source
