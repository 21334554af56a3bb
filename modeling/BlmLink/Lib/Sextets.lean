import Mathlib

/-!
# Base 64 text

The standard text of a string of octets: its bits, the most significant of each octet first,
are cut into groups of six, the last one filled with zero bits; each group is a letter of the
alphabet, and the text is filled to a multiple of four characters.
-/
namespace BlmLink.Lib.Sextets

/-- The number that bits stand for, the most significant first. -/
def value (bits : List Bool) : Nat := bits.foldl (fun v b => 2 * v + b.toNat) 0

/-- The eight bits of an octet. -/
def octetBits (n : Nat) : List Bool :=
  [n.testBit 7, n.testBit 6, n.testBit 5, n.testBit 4, n.testBit 3, n.testBit 2, n.testBit 1,
    n.testBit 0]

/-- The values of the groups of six; `group` holds the bits of one that is not full yet. -/
def groups (group : List Bool) : List Bool → List Nat
  | [] => if group = [] then [] else [value (group ++ List.replicate (6 - group.length) false)]
  | b :: bits =>
    if group.length = 5 then value (group ++ [b]) :: groups [] bits else groups (group ++ [b]) bits

variable {α : Type}

/-- Fills a text to a multiple of four characters. -/
def fill (pad : α) (text : List α) : List α :=
  text ++ List.replicate ((4 - text.length % 4) % 4) pad

/-- The text of a string of octets. -/
def text (alphabet : Nat → α) (pad : α) (octets : List Nat) : List α :=
  fill pad ((groups [] (octets.flatMap octetBits)).map alphabet)

theorem fill_cons_four (pad a b c d : α) (text : List α) :
    fill pad (a :: b :: c :: d :: text) = a :: b :: c :: d :: fill pad text := by
  simp [fill, Nat.add_mod_right, Nat.add_assoc]

theorem octet_parts : ∀ n < 256,
    value [n.testBit 7, n.testBit 6, n.testBit 5, n.testBit 4, n.testBit 3, n.testBit 2] = n / 4 ∧
      2 * (n.testBit 1).toNat + (n.testBit 0).toNat = n % 4 ∧
      value [n.testBit 7, n.testBit 6, n.testBit 5, n.testBit 4] = n / 16 ∧
      value [n.testBit 3, n.testBit 2, n.testBit 1, n.testBit 0] = n % 16 ∧
      2 * (n.testBit 7).toNat + (n.testBit 6).toNat = n / 64 ∧
      value [n.testBit 5, n.testBit 4, n.testBit 3, n.testBit 2, n.testBit 1, n.testBit 0] =
        n % 64 := by
  decide +kernel

section three

variable {c1 c2 c3 : Nat} (b1 : c1 < 256) (b2 : c2 < 256) (b3 : c3 < 256)
include b1

theorem groups_one : groups [] (octetBits c1) = [c1 / 4, c1 % 4 * 16] := by
  have parts := octet_parts c1 b1
  simp only [value, List.foldl_cons, List.foldl_nil] at parts
  simp [groups, octetBits, value, -Nat.testBit_zero]
  omega

include b2

theorem groups_two : groups [] (octetBits c1 ++ octetBits c2) =
    [c1 / 4, c1 % 4 * 16 + c2 / 16, c2 % 16 * 4] := by
  have parts1 := octet_parts c1 b1
  have parts2 := octet_parts c2 b2
  simp only [value, List.foldl_cons, List.foldl_nil] at parts1 parts2
  simp [groups, octetBits, value, -Nat.testBit_zero]
  omega

include b3

/-- Three octets make four whole groups. -/
theorem groups_three (bits : List Bool) :
    groups [] (octetBits c1 ++ octetBits c2 ++ octetBits c3 ++ bits) =
      c1 / 4 :: (c1 % 4 * 16 + c2 / 16) :: (c2 % 16 * 4 + c3 / 64) :: c3 % 64 :: groups [] bits := by
  have parts1 := octet_parts c1 b1
  have parts2 := octet_parts c2 b2
  have parts3 := octet_parts c3 b3
  simp only [value, List.foldl_cons, List.foldl_nil] at parts1 parts2 parts3
  simp [groups, octetBits, value, -Nat.testBit_zero]
  omega

end three

end BlmLink.Lib.Sextets
