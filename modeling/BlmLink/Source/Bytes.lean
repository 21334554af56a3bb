import Mathlib

/-!
# Bytes, plain `char` and C `int`

The C types that blmcomm.cpp and blmutil.cpp compute with. A `std::string` and
a `(const char*, int)` pair are both lists of octets; the length is the list's.
An `int` that crosses the wire is its 32-bit word, so a value that overflows
wraps as the compiled code does. Plain `char` is signed on the x86 targets and
unsigned on the ARM ones, so its signedness stays a parameter.
-/
namespace BlmLink.Source

abbrev Byte := BitVec 8
abbrev Bytes := List Byte

/-- A C `int`, as the word a struct member holds. -/
abbrev CInt := BitVec 32

/-- The octet of a character of the source text. -/
def chr (c : Char) : Byte := BitVec.ofNat 8 c.toNat

/-- What a block returned by `new char[n]` holds before anything is written. -/
abbrev FreshMem := Nat → Byte

/-- The first `n` bytes of a fresh block. -/
def FreshMem.bytes (mem : FreshMem) (n : Nat) : Bytes := (List.range n).map mem

@[simp] theorem FreshMem.length_bytes (mem : FreshMem) (n : Nat) : (mem.bytes n).length = n := by
  simp [FreshMem.bytes]

/-- Every string of octets is what some fresh block holds. -/
theorem FreshMem.exists_bytes (bs : Bytes) : ∃ mem : FreshMem, mem.bytes bs.length = bs := by
  refine ⟨fun i => bs.getD i 0, List.ext_getElem (by simp [bytes]) ?_⟩
  intro i _ inside
  simp [bytes, inside]

/-- Outcomes of a call that are not a returned value. -/
inductive Fault where
  /-- The loop bound of the model was used up; the code keeps looping. -/
  | outOfFuel
  /-- `string(first, last)` with `last` before `first`. -/
  | badRange
  /-- A member of an object used after its `delete`. -/
  | useAfterFree
  /-- `delete` of an object that was deleted before. -/
  | doubleFree
  /-- `front()` of an empty container. -/
  | emptyFront
  /-- A callback that does not return. -/
  | noReply
  deriving DecidableEq, Repr

theorem bind_ok {ε α β : Type} {step : Except ε α} {next : α → Except ε β} {value : β}
    (h : (step >>= next) = .ok value) : ∃ x, step = .ok x ∧ next x = .ok value := by
  cases step with
  | error reason => cases h
  | ok x => exact ⟨x, rfl, h⟩

theorem map_ok {α β : Type} {step : Except Fault α} {f : α → β} {value : β}
    (h : step.map f = .ok value) : ∃ x, step = .ok x ∧ f x = value := by
  cases step with
  | error reason => cases h
  | ok x =>
    cases h
    exact ⟨x, rfl, rfl⟩

/-- Signedness of plain `char`. -/
inductive CharSign where
  | signed | unsigned
  deriving DecidableEq, Repr

/-- A `char` promoted to `int`. -/
def charToInt : CharSign → Byte → Int
  | .signed, c => c.toInt
  | .unsigned, c => (c.toNat : Int)

/-- An `int` stored into a `char`. -/
def intToChar (v : Int) : Byte := BitVec.ofInt 8 v

/-- Storing into a `char` and promoting again keeps the value modulo 256. -/
theorem charToInt_intToChar (sign : CharSign) (v : Int) :
    charToInt sign (intToChar v) % 256 = v % 256 := by
  cases sign with
  | signed =>
    simp only [charToInt, intToChar, BitVec.toInt_ofInt]
    exact Int.bmod_emod
  | unsigned =>
    simp only [charToInt, intToChar, BitVec.toNat_ofInt]
    omega

/-- The four octets of an `int` in memory on a little-endian host. -/
def leBytes (v : CInt) : Bytes :=
  [v.extractLsb' 0 8, v.extractLsb' 8 8, v.extractLsb' 16 8, v.extractLsb' 24 8]

/-- The `int` whose four octets in memory are the first four of the list. -/
def leWord (bs : Bytes) : CInt :=
  bs.getD 3 0 ++ bs.getD 2 0 ++ bs.getD 1 0 ++ bs.getD 0 0

@[simp] theorem length_leBytes (v : CInt) : (leBytes v).length = 4 := rfl

theorem leWord_leBytes_append (v : CInt) (rest : Bytes) : leWord (leBytes v ++ rest) = v := by
  simp only [leWord, leBytes, List.cons_append, List.nil_append, List.getD_cons_zero,
    List.getD_cons_succ]
  ext i h
  simp only [BitVec.getElem_append, BitVec.getElem_extractLsb']
  grind

end BlmLink.Source
