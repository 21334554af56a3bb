import Mathlib

/-!
# Cipher block chaining over an arbitrary block type

The chaining mode alone: the block permutation is a parameter, and so is the
operation that mixes a block with the previous ciphertext. Nothing here knows
how a block is laid out.
-/
namespace BlmLink.Lib.Cbc

variable {β : Type} (mix : β → β → β) (enc dec : β → β)

/-- Each plaintext block is mixed with the previous ciphertext block first. -/
def encrypt : β → List β → List β
  | _, [] => []
  | iv, x :: rest =>
    let c := enc (mix x iv)
    c :: encrypt c rest

def decrypt : β → List β → List β
  | _, [] => []
  | iv, c :: rest => mix (dec c) iv :: decrypt c rest

@[simp] theorem length_encrypt (iv : β) (xs : List β) :
    (encrypt mix enc iv xs).length = xs.length := by
  induction xs generalizing iv with
  | nil => rfl
  | cons x rest ih => simp [encrypt, ih]

@[simp] theorem length_decrypt (iv : β) (cs : List β) :
    (decrypt mix dec iv cs).length = cs.length := by
  induction cs generalizing iv with
  | nil => rfl
  | cons c rest ih => simp [decrypt, ih]

/-- Decryption inverts encryption as soon as the block permutation is inverted
and mixing twice with one block does nothing. -/
theorem decrypt_encrypt (inverse : ∀ x, dec (enc x) = x) (cancel : ∀ x y, mix (mix x y) y = x)
    (iv : β) (xs : List β) : decrypt mix dec iv (encrypt mix enc iv xs) = xs := by
  induction xs generalizing iv with
  | nil => rfl
  | cons x rest ih =>
    simp only [encrypt, decrypt, inverse, cancel]
    rw [ih]

end BlmLink.Lib.Cbc
