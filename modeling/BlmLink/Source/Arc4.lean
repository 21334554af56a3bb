import BlmLink.Source.Bytes

/-!
# RC4 as `RC4::rc4` and `RC4::rc4buf` use it

blmutil.cpp:82-94 over polarssl/library/arc4.c:40-96. Every call sets up a new
context from the 32-byte key, so no call sees what an earlier one left behind.
`unsigned char` arithmetic is arithmetic modulo 256; the `& 0xFF` of the source
is the wrap of `Byte` addition.

`RC4.State` has what such a call can see: the object with its key, and the stack memory of
the local `rc4ctx`, where an earlier call, or anybody else in between, has left something.
-/
namespace BlmLink.Source

/-- `arc4_context`: the two indices and the permutation table. -/
structure Arc4Context where
  x : Byte
  y : Byte
  m : List Byte
  deriving DecidableEq, Repr

/-- The key schedule loop of `arc4_setup` with `n` iterations to go. -/
def arc4SetupLoop (key : Bytes) : (n i k : Nat) → (j : Byte) → (m : List Byte) → List Byte
  | 0, _, _, _, m => m
  | n + 1, i, k, j, m =>
    let k := if key.length ≤ k then 0 else k
    let a := m.getD i 0
    let j := j + a + key.getD k 0
    arc4SetupLoop key n (i + 1) (k + 1) j ((m.set i (m.getD j.toNat 0)).set j.toNat a)

def arc4Setup (key : Bytes) : Arc4Context :=
  { x := 0, y := 0
    m := arc4SetupLoop key 256 0 0 0 ((List.range 256).map (BitVec.ofNat 8)) }

/-- One iteration of `arc4_crypt`: the octet it mixes in and the next context. -/
def arc4Next (ctx : Arc4Context) : Byte × Arc4Context :=
  let x := ctx.x + 1
  let a := ctx.m.getD x.toNat 0
  let y := ctx.y + a
  let b := ctx.m.getD y.toNat 0
  let m := (ctx.m.set x.toNat b).set y.toNat a
  (m.getD (a + b).toNat 0, { x, y, m })

def arc4Crypt : Arc4Context → Bytes → Bytes
  | _, [] => []
  | ctx, b :: rest => (b ^^^ (arc4Next ctx).1) :: arc4Crypt (arc4Next ctx).2 rest

/-- `RC4::rc4` on an object whose key is `key`. -/
def rc4 (key : Bytes) (data : Bytes) : Bytes := arc4Crypt (arc4Setup key) data

/-- `RC4::rc4buf` overwrites the buffer with what `rc4` returns for it. -/
def rc4buf (key : Bytes) (data : Bytes) : Bytes := rc4 key data

@[simp] theorem length_arc4Crypt (ctx : Arc4Context) (data : Bytes) :
    (arc4Crypt ctx data).length = data.length := by
  induction data generalizing ctx with
  | nil => rfl
  | cons b rest ih => simp [arc4Crypt, ih]

/-- The table evolves independently of the data, so a second pass undoes the first. -/
theorem arc4Crypt_arc4Crypt (ctx : Arc4Context) (data : Bytes) :
    arc4Crypt ctx (arc4Crypt ctx data) = data := by
  induction data generalizing ctx with
  | nil => rfl
  | cons b rest ih =>
    simp only [arc4Crypt, ih]
    rw [BitVec.xor_assoc, BitVec.xor_self, BitVec.xor_zero]

@[simp] theorem length_rc4buf (key data : Bytes) : (rc4buf key data).length = data.length :=
  length_arc4Crypt _ _

@[simp] theorem rc4buf_rc4buf (key data : Bytes) : rc4buf key (rc4buf key data) = data :=
  arc4Crypt_arc4Crypt _ _

/-- The memory of an `arc4_context`. -/
abbrev Arc4Memory := { ctx : Arc4Context // ctx.m.length = 256 }

/-- The first loop of `arc4_setup`: `m[i] = (unsigned char) i`. -/
def arc4Identity (m : List Byte) : List Byte :=
  (List.range 256).foldl (fun m i => m.set i (BitVec.ofNat 8 i)) m

@[simp] theorem length_arc4Identity (m : List Byte) : (arc4Identity m).length = m.length := by
  unfold arc4Identity
  generalize List.range 256 = indices
  induction indices generalizing m with
  | nil => rfl
  | cons i indices ih => rw [List.foldl_cons, ih, List.length_set]

@[simp] theorem length_arc4SetupLoop (key : Bytes) (n i k : Nat) (j : Byte) (m : List Byte) :
    (arc4SetupLoop key n i k j m).length = m.length := by
  induction n generalizing i k j m with
  | zero => rfl
  | succ n ih => simp [arc4SetupLoop, ih]

@[simp] theorem length_arc4Next (ctx : Arc4Context) :
    (arc4Next ctx).2.m.length = ctx.m.length := by
  simp [arc4Next]

/-- `arc4_setup` on a context that holds something already. -/
def arc4SetupIn (ctx : Arc4Memory) (key : Bytes) : Arc4Memory :=
  ⟨{ x := 0, y := 0, m := arc4SetupLoop key 256 0 0 0 (arc4Identity ctx.val.m) },
    by simp [ctx.property]⟩

/-- What `arc4_crypt` of `n` octets leaves in the context. -/
def arc4Skip : Nat → Arc4Memory → Arc4Memory
  | 0, ctx => ctx
  | n + 1, ctx => arc4Skip n ⟨(arc4Next ctx.val).2, by simp [ctx.property]⟩

structure RC4 where
  key : Bytes
  sized : key.length = 32

namespace RC4

structure State where
  object : RC4
  rc4ctx : Arc4Memory

/-- `RC4::rc4`, with what is returned. -/
def State.rc4 (s : State) (data : Bytes) : Bytes × State :=
  let ctx := arc4SetupIn s.rc4ctx s.object.key
  (arc4Crypt ctx.val data, { s with rc4ctx := arc4Skip data.length ctx })

/-- `RC4::rc4buf`, with what the buffer holds afterwards: `memcpy` overwrites all of it. -/
def State.rc4buf (s : State) (buf : Bytes) : Bytes × State := s.rc4 buf

inductive Event where
  | rc4 (data : Bytes)
  | rc4buf (buf : Bytes)
  /-- Other code uses the stack. -/
  | stack (ctx : Arc4Memory)

def next (s : State) : Event → State
  | .rc4 data => (s.rc4 data).2
  | .rc4buf buf => (s.rc4buf buf).2
  | .stack ctx => { s with rc4ctx := ctx }

def after (s : State) (events : List Event) : State := events.foldl next s

end RC4

end BlmLink.Source
