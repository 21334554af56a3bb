import BlmLink.Source.Arc4

/-!
# The key stream of `RC4` starts anew on every call

`arc4_setup` writes the whole context, so a call of `rc4` or `rc4buf` is the one of the key
alone, whatever the calls before it left on the stack (`rc4_eq`). The octets mixed in depend
on the key and the position only (`arc4Crypt_eq_mapIdx`).
-/
namespace BlmLink.Guarantees.KeyStream

open BlmLink.Source

section stream

/-- The octet that `arc4_crypt` mixes in at a position. -/
def keyOctet (ctx : Arc4Context) : Nat → Byte
  | 0 => (arc4Next ctx).1
  | n + 1 => keyOctet (arc4Next ctx).2 n

theorem arc4Crypt_eq_mapIdx (ctx : Arc4Context) (data : Bytes) :
    arc4Crypt ctx data = data.mapIdx fun i b => b ^^^ keyOctet ctx i := by
  induction data generalizing ctx with
  | nil => rfl
  | cons b rest ih =>
    rw [arc4Crypt, List.mapIdx_cons, ih]
    rfl

theorem arc4Crypt_append_prefix (ctx : Arc4Context) (buf more : Bytes) :
    arc4Crypt ctx buf <+: arc4Crypt ctx (buf ++ more) := by
  rw [arc4Crypt_eq_mapIdx, arc4Crypt_eq_mapIdx, List.mapIdx_append]
  exact List.prefix_append _ _

end stream

section setup

/-- After `n` rounds the first `n` entries are set and the others are as they were. -/
theorem getElem?_identity (n : Nat) (m : List Byte) (k : Nat) :
    ((List.range n).foldl (fun m i => m.set i (BitVec.ofNat 8 i)) m)[k]? =
      if k < n then m[k]?.map fun _ => BitVec.ofNat 8 k else m[k]? := by
  induction n with
  | zero => simp
  | succ n ih =>
    rw [List.range_succ, List.foldl_append, List.foldl_cons, List.foldl_nil, List.getElem?_set']
    by_cases last : n = k
    · subst last
      rw [if_pos rfl, ih, if_neg (Nat.lt_irrefl n), if_pos (Nat.lt_succ_self n)]
      rfl
    · rw [if_neg last, ih]
      have same : k < n + 1 ↔ k < n := by omega
      simp only [same]

/-- The table that the key schedule starts from does not depend on the memory. -/
theorem arc4Identity_eq (m : List Byte) (table : m.length = 256) :
    arc4Identity m = (List.range 256).map (BitVec.ofNat 8) := by
  apply List.ext_getElem?
  intro k
  rw [arc4Identity, getElem?_identity, List.getElem?_map]
  by_cases inside : k < 256
  · rw [if_pos inside, List.getElem?_eq_getElem (table.symm ▸ inside), List.getElem?_range inside]
    rfl
  · have outside : 256 ≤ k := Nat.le_of_not_lt inside
    rw [if_neg inside, List.getElem?_eq_none (table.symm ▸ outside),
      List.getElem?_eq_none (by simpa using outside)]
    rfl

theorem arc4SetupIn_eq (ctx : Arc4Memory) (key : Bytes) :
    (arc4SetupIn ctx key).val = arc4Setup key := by
  unfold arc4SetupIn arc4Setup
  simp only [arc4Identity_eq ctx.val.m ctx.property]

end setup

section calls

open RC4

theorem rc4_eq (s : State) (data : Bytes) : (s.rc4 data).1 = arc4Crypt (arc4Setup s.object.key) data := by
  rw [State.rc4, arc4SetupIn_eq]

theorem object_next (s : State) (e : Event) : (next s e).object = s.object := by
  cases e <;> rfl

/-- No sequence of calls changes the key. -/
theorem object_after (s : State) (events : List Event) : (after s events).object = s.object := by
  induction events generalizing s with
  | nil => rfl
  | cons e events ih => rw [after, List.foldl_cons, ← after, ih, object_next]

/-- After any calls, `rc4buf` applied twice restores the buffer, and its output for a buffer
begins the one for a longer buffer; a peer with the same key restores it too, after any calls
of its own, and from the longer buffer it gets the same beginning. -/
theorem rc4buf_restarts (object : RC4) (memory memory' : Arc4Memory) (events events' : List Event)
    (buf more : Bytes) :
    let sender := after ⟨object, memory⟩ events
    let peer := after ⟨object, memory'⟩ events'
    ((sender.rc4buf buf).2.rc4buf (sender.rc4buf buf).1).1 = buf ∧
    (sender.rc4buf buf).1 <+: (sender.rc4buf (buf ++ more)).1 ∧
    (peer.rc4buf (sender.rc4buf buf).1).1 = buf ∧
    buf <+: (peer.rc4buf (sender.rc4buf (buf ++ more)).1).1 := by
  intro sender peer
  have key : sender.object = object := object_after _ events
  have key' : peer.object = object := object_after _ events'
  have again : (sender.rc4buf buf).2.object = object := key
  simp only [State.rc4buf, rc4_eq, key, key'] at again ⊢
  rw [again]
  refine ⟨arc4Crypt_arc4Crypt _ buf, arc4Crypt_append_prefix _ buf more,
    arc4Crypt_arc4Crypt _ buf, ?_⟩
  rw [arc4Crypt_arc4Crypt]
  exact List.prefix_append buf more

end calls

end BlmLink.Guarantees.KeyStream
