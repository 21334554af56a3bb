import Mathlib

/-!
# A cipher of keyed rounds

A round substitutes, mixes and adds a key; a key is added before the first round and the last
round does not mix. The inverse in the same shape substitutes back, unmixes and adds an unmixed
key, the keys in the reverse order: it is the inverse because unmixing a sum is the sum of the
unmixed (`decrypt_encrypt`).
-/
namespace BlmLink.Lib.KeyedRounds

/-- The layers of a round, with the laws that the inverse rests on. -/
structure Layers (σ : Type) where
  add : σ → σ → σ
  sub : σ → σ
  unsub : σ → σ
  mix : σ → σ
  unmix : σ → σ
  cancel : ∀ x k, add (add x k) k = x
  unsub_sub : ∀ x, unsub (sub x) = x
  unmix_mix : ∀ x, unmix (mix x) = x
  unmix_add : ∀ x y, unmix (add x y) = add (unmix x) (unmix y)

variable {σ : Type} (l : Layers σ)

def Layers.round (x k : σ) : σ := l.add (l.mix (l.sub x)) k

def Layers.unround (x k : σ) : σ := l.add (l.unmix (l.unsub x)) (l.unmix k)

def encrypt (first : σ) (middle : List σ) (last : σ) (x : σ) : σ :=
  l.add (l.sub (middle.foldl l.round (l.add x first))) last

def decrypt (first : σ) (middle : List σ) (last : σ) (y : σ) : σ :=
  l.add (l.unsub (middle.reverse.foldl l.unround (l.add y last))) first

theorem unround_sub_round (x k : σ) : l.unround (l.sub (l.round x k)) k = l.sub x := by
  rw [Layers.unround, l.unsub_sub, Layers.round, l.unmix_add, l.unmix_mix, l.cancel]

/-- The inverse rounds undo the rounds, the last one first. -/
theorem foldl_unround (middle : List σ) (x : σ) :
    middle.reverse.foldl l.unround (l.sub (middle.foldl l.round x)) = l.sub x := by
  induction middle using List.reverseRecOn with
  | nil => rfl
  | append_singleton middle k ih =>
    rw [List.foldl_append, List.foldl_cons, List.foldl_nil, List.reverse_append,
      List.reverse_singleton, List.singleton_append, List.foldl_cons, unround_sub_round, ih]

theorem decrypt_encrypt (first : σ) (middle : List σ) (last x : σ) :
    decrypt l first middle last (encrypt l first middle last x) = x := by
  rw [decrypt, encrypt, l.cancel, foldl_unround, l.unsub_sub, l.cancel]

end BlmLink.Lib.KeyedRounds
