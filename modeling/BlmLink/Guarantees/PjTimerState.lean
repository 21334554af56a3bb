import Mathlib
import BlmLink.Lib.SwapRemove
import BlmLink.Guarantees.PjTimerArrays

/-!
# The invariant of the timer heap

pjlib/src/pj/timer.c:109-306. Between two calls the entries that are scheduled are a heap in the
array, `timer_ids` has the slot of each under its id, and the other ids are on the free list that
is threaded through the same array and ends at its size (`Sound`). `remove_node` and
`schedule_entry` keep it, growing included, and one id is always free.
-/
namespace BlmLink.Guarantees.PjTimerState

open BlmLink.Lib BlmLink.Lib.BinaryHeap BlmLink.Source PjTimerHeap PjTimerArrays

section invariant

/-- The free list, threaded through `timer_ids`: it ends at the size of the array. -/
def Chain (ht : PjTimerHeap) : (start : Int) → (free : List Nat) → Prop
  | start, [] => start = ht.max_size
  | start, f :: free => start = f ∧ ∃ next, ht.timerId f = some (-next) ∧ Chain ht next free

/-- The entries of `v` are scheduled, and the timer ids in `free` are free. -/
structure Sound (ht : PjTimerHeap) (v free : List Nat) : Prop where
  laid : Holed ht v v.length
  cur_size : ht.cur_size = v.length
  heapSize : ht.heap.length = ht.max_size
  idsSize : ht.timer_ids.length = ht.max_size
  ordered : IsHeap (later ht) v
  chain : Chain ht ht.timer_ids_freelist free
  nodup : free.Nodup
  unused : ∀ f ∈ free, 1 ≤ f ∧ f < ht.max_size ∧ ∀ p ∈ v, (ht.entries p)._timer_id ≠ f
  count : free.length + v.length + 1 = ht.max_size
  room : v.length + 2 ≤ ht.max_size
  zero : ht.timerId 0 = some (-1)
  idle : ∀ p, p ∉ v → (ht.entries p)._timer_id < 1

variable {ht ht' : PjTimerHeap} {v free : List Nat}

theorem Chain.congr {start : Int} (chain : Chain ht start free) (size : ht'.max_size = ht.max_size)
    (same : ∀ f ∈ free, ht'.timerId (f : Nat) = ht.timerId (f : Nat)) : Chain ht' start free := by
  induction free generalizing start with
  | nil => exact chain.trans (by rw [size])
  | cons f free ih =>
    obtain ⟨here, next, link, rest⟩ := chain
    exact ⟨here, next, by rw [same f List.mem_cons_self, link],
      ih rest fun f member => same f (List.mem_cons_of_mem _ member)⟩

/-- The heap once the id of an entry is on the free list. -/
def released (ht : PjTimerHeap) (p : Nat) : PjTimerHeap :=
  { ht with
    cur_size := ht.cur_size - 1
    timer_ids := ht.timer_ids.set (ht.entries p)._timer_id.toNat (-ht.timer_ids_freelist)
    timer_ids_freelist := (ht.entries p)._timer_id
    entries := Function.update ht.entries p { ht.entries p with _timer_id := -1 } }

theorem expiry_released (ht : PjTimerHeap) (p q : Nat) : expiry (released ht p) q = expiry ht q := by
  rw [expiry, expiry, released]
  dsimp only
  by_cases same : q = p
  · rw [same, Function.update_self]
  · rw [Function.update_of_ne same]

theorem later_of_expiry {ht ht' : PjTimerHeap} {v : List Nat}
    (same : ∀ p ∈ v, expiry ht' p = expiry ht p) :
    ∀ p ∈ v, ∀ q ∈ v, later ht p q = later ht' p q := by
  intro p hp q hq
  rw [Bool.eq_iff_iff, later_iff, later_iff, same p hp, same q hq]

/-- The array without the entry, the last one in its place and a hole there. -/
theorem released_holed {slot p : Nat} (sound : Sound ht v free) (at_ : v[slot]? = some p) :
    Holed (released ht p) (swapRemove v slot) slot ∧ ∀ id : Int, (released ht p).timerId id =
      if id = (ht.entries p)._timer_id then some (-ht.timer_ids_freelist) else ht.timerId id := by
  obtain ⟨below, value⟩ := List.getElem?_eq_some_iff.mp at_
  have perm := swapRemove_perm v slot below
  rw [value] at perm
  obtain ⟨gone, nodup⟩ := List.nodup_cons.mp (perm.nodup_iff.mpr sound.laid.nodup)
  have members (q : Nat) (member : q ∈ swapRemove v slot) : q ∈ v ∧ q ≠ p :=
    ⟨perm.mem_iff.mp (List.mem_cons_of_mem _ member), fun same => gone (same ▸ member)⟩
  have kept (q : Nat) (member : q ∈ swapRemove v slot) :
      (released ht p).entries q = ht.entries q := Function.update_of_ne (members q member).2 _ _
  obtain ⟨positive, inside⟩ := sound.laid.inside p (List.mem_of_getElem? at_)
  have ids (id : Int) : (released ht p).timerId id =
      if id = (ht.entries p)._timer_id then some (-ht.timer_ids_freelist) else ht.timerId id :=
    timerId_set ht _ (by omega) inside id
  have places (i q : Nat) (hi : (swapRemove v slot)[i]? = some q) (other : i ≠ slot) :
      v[i]? = some q := by
    have small := (List.getElem?_eq_some_iff.mp hi).1
    rw [length_swapRemove] at small
    rw [swapRemove, List.getElem?_dropLast, List.length_swap, if_pos small] at hi
    by_cases last : slot = v.length - 1
    · rwa [← last, List.swap_self] at hi
    · rwa [getElem?_swap below (by omega) last, if_neg other, if_neg (by omega)] at hi
  refine ⟨⟨?_, ?_, ?_, ?_, ?_, nodup⟩, ids⟩
  · have fits := sound.laid.fits
    rw [length_swapRemove]
    exact Nat.le_trans (Nat.sub_le _ _) fits
  · intro i q hi other
    have hv := places i q hi other
    exact sound.laid.stored i q hv (Nat.ne_of_lt (List.getElem?_eq_some_iff.mp hv).1)
  · intro i q hi other
    have hv := places i q hi other
    rw [kept q (List.mem_of_getElem? hi), ids, if_neg (sound.laid.ids_ne hv at_ other)]
    exact sound.laid.numbered i q hv (Nat.ne_of_lt (List.getElem?_eq_some_iff.mp hv).1)
  · intro q member
    rw [kept q member]
    obtain ⟨positive, inside⟩ := sound.laid.inside q (members q member).1
    exact ⟨positive, by rw [released, List.length_set]; exact inside⟩
  · intro q member r member' same
    rw [kept q member, kept r member'] at same
    exact sound.laid.unique q (members q member).1 r (members r member').1 same

/-- Once the entries that are left are in order again, the heap is sound without the entry. -/
theorem Sound.without {slot p : Nat} {w : List Nat} (sound : Sound ht v free)
    (at_ : v[slot]? = some p) (same : Same (released ht p) ht' (swapRemove v slot))
    (perm : w.Perm (swapRemove v slot)) (laid : Holed ht' w w.length)
    (ordered : IsHeap (later ht') w) :
    Sound ht' w ((ht.entries p)._timer_id.toNat :: free) := by
  obtain ⟨below, value⟩ := List.getElem?_eq_some_iff.mp at_
  have removed := swapRemove_perm v slot below
  rw [value] at removed
  obtain ⟨holed, ids⟩ := released_holed sound at_
  have memberP := List.mem_of_getElem? at_
  obtain ⟨positive, inside⟩ := sound.laid.inside p memberP
  rw [sound.idsSize] at inside
  obtain ⟨gone, -⟩ := List.nodup_cons.mp (removed.nodup_iff.mpr sound.laid.nodup)
  have size : w.length = v.length - 1 := perm.length_eq.trans (length_swapRemove v slot)
  have members (q : Nat) (member : q ∈ w) : q ∈ v ∧ q ≠ p :=
    ⟨removed.mem_iff.mp (List.mem_cons_of_mem _ (perm.mem_iff.mp member)),
      fun same => gone (same ▸ perm.mem_iff.mp member)⟩
  have kept (q : Nat) (other : q ≠ p) : ht'.entries q = ht.entries q := by
    rw [same.entries]
    exact Function.update_of_ne other _ _
  -- Sifting does not touch the ids that no entry left has.
  have untouched (id : Int) (none : ∀ q ∈ swapRemove v slot, (ht.entries q)._timer_id ≠ id) :
      ht'.timerId id = if id = (ht.entries p)._timer_id then some (-ht.timer_ids_freelist)
        else ht.timerId id := by
    rw [same.others id fun q member => ?_, ids]
    have other := (members q (perm.mem_iff.mpr member)).2
    rw [show (released ht p).entries q = ht.entries q from Function.update_of_ne other _ _]
    exact none q member
  have natural : (((ht.entries p)._timer_id.toNat : Nat) : Int) = (ht.entries p)._timer_id :=
    Int.toNat_of_nonneg (by omega)
  have fresh (q : Nat) (member : q ∈ w) : (ht'.entries q)._timer_id ≠ (ht.entries p)._timer_id := by
    obtain ⟨old, other⟩ := members q member
    rw [kept q other]
    exact fun equal => other (sound.laid.unique q old p memberP equal)
  refine ⟨laid, ?_, ?_, ?_, ordered, ?_, ?_, ?_, ?_, ?_, ?_, ?_⟩
  · rw [same.cur_size, size]
    exact congrArg (· - 1) sound.cur_size
  · exact same.heap.trans (sound.heapSize.trans same.max_size.symm)
  · exact same.timer_ids.trans ((List.length_set ..).trans (sound.idsSize.trans same.max_size.symm))
  · refine ⟨same.freelist.trans natural.symm, ht.timer_ids_freelist, ?_, ?_⟩
    · rw [natural, untouched, if_pos rfl]
      intro q member
      rw [← kept q (members q (perm.mem_iff.mpr member)).2]
      exact fresh q (perm.mem_iff.mpr member)
    · apply sound.chain.congr same.max_size
      intro f member
      obtain ⟨-, -, none⟩ := sound.unused f member
      rw [untouched, if_neg (none p memberP).symm]
      exact fun q member => none q (members q (perm.mem_iff.mpr member)).1
  · refine List.nodup_cons.mpr ⟨fun member => ?_, sound.nodup⟩
    exact (sound.unused _ member).2.2 p memberP natural.symm
  · intro f member
    rw [same.max_size]
    rcases List.mem_cons.mp member with rfl | member
    · refine ⟨by omega, inside, fun q here => ?_⟩
      rw [natural]
      exact fresh q here
    · obtain ⟨low, high, none⟩ := sound.unused f member
      refine ⟨low, high, fun q here => ?_⟩
      rw [kept q (members q here).2]
      exact none q (members q here).1
  · have count := sound.count
    rw [List.length_cons, size, same.max_size]
    change _ = ht.max_size
    omega
  · have room := sound.room
    rw [size, same.max_size]
    change _ ≤ ht.max_size
    omega
  · rw [untouched, if_neg (by omega), sound.zero]
    intro q member
    have := (sound.laid.inside q (members q (perm.mem_iff.mpr member)).1).1
    omega
  · intro q outside
    by_cases here : q = p
    · rw [here, same.entries, show (released ht p).entries p = _ from Function.update_self ..]
      dsimp only
      omega
    · rw [kept q here]
      refine sound.idle q fun old => outside (perm.mem_iff.mpr ?_)
      exact (List.mem_cons.mp (removed.mem_iff.mpr old)).resolve_left here

end invariant

section operations

variable {ht : PjTimerHeap} {v free : List Nat}

/-- The end of `remove_node`: the entry that took the place of the removed one is moved to where it
belongs. -/
theorem reheap_eq {slot moved : Nat} {w : List Nat}
    (laid : Holed ht (w.set slot moved) (w.set slot moved).length) (size : ht.cur_size = w.length)
    (inside : slot < w.length) (heap : IsHeap (later ht) w) :
    ∃ ht' u, ht.reheap moved slot (HEAP_PARENT slot) = some ht' ∧ u.Perm (w.set slot moved) ∧
      Holed ht' u u.length ∧ Same ht ht' (w.set slot moved) ∧ IsHeap (later ht) u := by
  have here : (w.set slot moved)[slot]? = some moved := List.getElem?_set_self inside
  have above : HEAP_PARENT slot < (w.set slot moved).length := by
    rw [HEAP_PARENT, List.length_set]
    split <;> omega
  obtain ⟨upper, hupper⟩ : ∃ upper, (w.set slot moved)[HEAP_PARENT slot]? = some upper :=
    ⟨_, List.getElem?_eq_getElem above⟩
  have order := strictWeak ht
  have parentIs {i : Nat} (child : Child i slot) : i = HEAP_PARENT slot ∧ i ≠ slot := by
    unfold Child at child
    rw [HEAP_PARENT, if_neg (by omega)]
    omega
  have size' : ht.cur_size = (w.set slot moved).length := by rw [size, List.length_set]
  rw [reheap, laid.stored _ upper hupper (Nat.ne_of_lt above), Option.bind_eq_bind, Option.bind_some]
  split
  next low =>
    obtain ⟨ht', ran, laid', same⟩ := reheap_down_eq (ht.cur_size + 1) (laid.forget slot) size' here
      (by omega)
    refine ⟨ht', _, ran, siftDown_perm _ _ _, laid', same, ?_⟩
    have ready : DownReady (later ht) 0 (w.set slot moved) slot := by
      apply DownReady.of_set (order _) heap inside
      intro i a child ha
      obtain ⟨parent, other⟩ := parentIs child
      rw [← parent, List.getElem?_set_ne other.symm, ha] at hupper
      cases hupper
      rw [later_false]
      exact (gte_iff _ _).mp low
    have sifted := siftDown_heapFrom 0 (ht.cur_size + 1) slot _ (order _) (by omega)
      (Nat.zero_le slot) ready
    exact fun i k child => sifted i k (Nat.zero_le i) child
  next high =>
    obtain ⟨ht', ran, laid', same⟩ := reheap_up_eq (ht.cur_size + 1) (laid.forget slot) here
      (by omega)
    refine ⟨ht', _, ran, siftUp_perm _ _ _, laid', same, ?_⟩
    have earlier : later ht upper moved = true := by
      rw [later_iff]
      exact not_le.mp fun above => high ((gte_iff _ _).mpr above)
    have positive : 0 < slot := by
      by_contra root
      have zero : slot = 0 := by omega
      subst zero
      rw [HEAP_PARENT, if_pos rfl, here] at hupper
      cases hupper
      exact absurd ((later_iff ht _ _).mp earlier) (lt_irrefl _)
    have child : Child (HEAP_PARENT slot) slot := by
      unfold Child
      rw [HEAP_PARENT, if_neg (by omega)]
      omega
    rw [List.getElem?_set_ne (parentIs child).2.symm] at hupper
    exact siftUp_isHeap _ _ _ (order _) (by omega) (by rw [List.length_set]; exact inside)
      (UpReady.of_set (order _) heap inside child hupper earlier)

/-- `remove_node` once the id is on the free list. -/
theorem remove_node_released {slot p : Nat} (sound : Sound ht v free) (at_ : v[slot]? = some p) :
    ht.remove_node slot =
      if slot < (released ht p).cur_size then do
        let moved ← (released ht p).node (released ht p).cur_size
        let ht ← (released ht p).copy_node slot moved
        let ht ← ht.reheap moved slot (HEAP_PARENT slot)
        some (p, ht)
      else some (p, released ht p) := by
  have below := (List.getElem?_eq_some_iff.mp at_).1
  obtain ⟨positive, inside⟩ := sound.laid.inside p (List.mem_of_getElem? at_)
  have pushed : ht.push_freelist (ht.entries p)._timer_id = some { ht with
      timer_ids := ht.timer_ids.set (ht.entries p)._timer_id.toNat (-ht.timer_ids_freelist)
      timer_ids_freelist := (ht.entries p)._timer_id } := by
    rw [push_freelist, setTimerId, if_pos ⟨by omega, inside⟩]
    rfl
  rw [remove_node, sound.laid.stored slot p at_ (Nat.ne_of_lt below), Option.bind_eq_bind,
    Option.bind_some, pushed, Option.bind_eq_bind, Option.bind_some]
  rfl

theorem remove_node_eq {slot p : Nat} (sound : Sound ht v free) (at_ : v[slot]? = some p) :
    ∃ ht' w free', ht.remove_node slot = some (p, ht') ∧ Sound ht' w free' ∧ (p :: w).Perm v ∧
      (∀ q, q ≠ p → ht'.entries q = ht.entries q) ∧
      ht'.max_entries_per_poll = ht.max_entries_per_poll := by
  obtain ⟨below, value⟩ := List.getElem?_eq_some_iff.mp at_
  have removed := swapRemove_perm v slot below
  rw [value] at removed
  obtain ⟨holed, -⟩ := released_holed sound at_
  have values : ∀ p₁ ∈ v, ∀ p₂ ∈ v, later ht p₁ p₂ = later (released ht p) p₁ p₂ :=
    later_of_expiry fun q _ => expiry_released ht p q
  have ordered := sound.ordered.congr values
  have size : (released ht p).cur_size = v.length - 1 := congrArg (· - 1) sound.cur_size
  have kept {ht' : PjTimerHeap} (same : Same (released ht p) ht' (swapRemove v slot)) (q : Nat)
      (other : q ≠ p) : ht'.entries q = ht.entries q := by
    rw [same.entries]
    exact Function.update_of_ne other _ _
  have front : IsHeap (later (released ht p)) v.dropLast := by
    obtain ⟨more, whole⟩ := List.dropLast_prefix v
    have here {j q : Nat} (hq : v.dropLast[j]? = some q) : v[j]? = some q := by
      rw [← whole, List.getElem?_append_left (List.getElem?_eq_some_iff.mp hq).1, hq]
    exact fun i k child a b ha hb => ordered i k child a b (here ha) (here hb)
  rw [remove_node_released sound at_, size]
  split
  next middle =>
    obtain ⟨last, hlast⟩ : ∃ last, v[v.length - 1]? = some last :=
      ⟨_, List.getElem?_eq_getElem (by omega)⟩
    have closed := swapRemove_eq_set middle hlast
    have here : (swapRemove v slot)[slot]? = some last := by
      rw [closed, List.getElem?_set_self (by rw [List.length_dropLast]; exact middle)]
    obtain ⟨ht₁, copied, laid₁, same₁⟩ := holed.fill here
    have read : (released ht p).node (v.length - 1) = some last :=
      sound.laid.stored _ last hlast (by omega)
    have front₁ : IsHeap (later ht₁) v.dropLast := by
      rw [later_of_same same₁]
      exact front
    rw [closed] at laid₁
    obtain ⟨ht₂, u, ran, perm, laid₂, same₂, heap₂⟩ := reheap_eq laid₁
      (by rw [same₁.cur_size, size, List.length_dropLast])
      (by rw [List.length_dropLast]; exact middle) front₁
    rw [← closed] at perm same₂
    have same : Same (released ht p) ht₂ (swapRemove v slot) := same₁.trans same₂ fun _ member => member
    rw [read, Option.bind_eq_bind, Option.bind_some, copied, Option.bind_eq_bind, Option.bind_some,
      ran, Option.bind_some]
    refine ⟨ht₂, u, _, rfl, sound.without at_ same perm laid₂ ?_, (perm.cons p).trans removed,
      kept same, same.perPoll⟩
    rw [later_of_same same₂]
    exact heap₂
  next atEnd =>
    have same := Same.refl (released ht p) (swapRemove v slot)
    have lastSlot : slot = v.length - 1 := by omega
    have dropped : swapRemove v slot = v.dropLast := by
      rw [swapRemove, lastSlot, List.swap_self]
    have whole : Holed (released ht p) (swapRemove v slot) (swapRemove v slot).length := by
      rwa [length_swapRemove, ← lastSlot]
    refine ⟨released ht p, _, _, rfl, sound.without at_ same (.refl _) whole ?_, removed, kept same,
      rfl⟩
    rw [dropped]
    exact front

end operations

section scheduling

variable {ht : PjTimerHeap} {v free : List Nat} {entry : Nat}

/-- An entry has been given an id and is not in the array yet. -/
structure Opened (ht : PjTimerHeap) (v free : List Nat) (entry : Nat) : Prop where
  laid : Holed ht (v ++ [entry]) v.length
  cur_size : ht.cur_size = v.length
  heapSize : ht.heap.length = ht.max_size
  idsSize : ht.timer_ids.length = ht.max_size
  ordered : IsHeap (later ht) v
  chain : Chain ht ht.timer_ids_freelist free
  nodup : free.Nodup
  unused : ∀ f ∈ free, 1 ≤ f ∧ f < ht.max_size ∧ ∀ p ∈ v ++ [entry], (ht.entries p)._timer_id ≠ f
  count : free.length + (v.length + 1) + 1 = ht.max_size
  room : v.length + 2 ≤ ht.max_size
  zero : ht.timerId 0 = some (-1)
  idle : ∀ p, p ∉ v ++ [entry] → (ht.entries p)._timer_id < 1

/-- The array once it has grown, and `timer_ids`. -/
theorem grow_heap_reads (heapSize : ht.heap.length = ht.max_size)
    (idsSize : ht.timer_ids.length = ht.max_size) :
    (∀ i < ht.max_size, ht.grow_heap.node i = ht.node i) ∧
      (∀ id : Nat, id < ht.max_size → ht.grow_heap.timerId id = ht.timerId id) ∧
      ∀ id : Nat, ht.max_size ≤ id → id < ht.max_size * 2 →
        ht.grow_heap.timerId id = some (-((id : Int) + 1)) := by
  refine ⟨?_, ?_, ?_⟩
  · intro i inside
    rw [node, node, grow_heap]
    dsimp only
    rw [List.getElem?_append_left (by rw [List.length_take]; omega), List.getElem?_take_of_lt inside]
  · intro id inside
    rw [timerId, timerId, if_pos (by omega), if_pos (by omega), Int.toNat_natCast, grow_heap]
    dsimp only
    rw [List.getElem?_append_left (by rw [List.length_take]; omega), List.getElem?_take_of_lt inside]
  · intro id behind inside
    rw [timerId, if_pos (by omega), Int.toNat_natCast, grow_heap]
    dsimp only
    rw [List.getElem?_append_right (by rw [List.length_take]; omega), List.length_take,
      Nat.min_eq_left (by omega), List.getElem?_map, List.getElem?_range' (by omega), Option.map_some]
    congr 2
    push_cast
    omega

/-- Ids that each lead to the next one are threaded to the end of the array. -/
theorem chain_range (first n : Nat)
    (links : ∀ f, first ≤ f → f < ht.max_size → ht.timerId f = some (-((f : Int) + 1)))
    (whole : first + n = ht.max_size) : Chain ht first (List.range' first n) := by
  induction n generalizing first with
  | zero => exact congrArg Nat.cast whole
  | succ n ih =>
    rw [List.range'_succ]
    exact ⟨rfl, first + 1, links first le_rfl (by omega),
      ih (first + 1) (fun f late inside => links f (by omega) inside) (by omega)⟩

/-- The new ids come after the old ones on the free list. -/
theorem chain_grown (heapSize : ht.heap.length = ht.max_size)
    (idsSize : ht.timer_ids.length = ht.max_size) {start : Int} (chain : Chain ht start free)
    (inside : ∀ f ∈ free, f < ht.max_size) :
    Chain ht.grow_heap start (free ++ List.range' ht.max_size ht.max_size) := by
  obtain ⟨-, old, new⟩ := grow_heap_reads heapSize idsSize
  have doubled : ht.grow_heap.max_size = ht.max_size * 2 := rfl
  induction free generalizing start with
  | nil =>
    rw [show start = ht.max_size from chain]
    exact chain_range _ _ (fun f late inside => new f late (doubled ▸ inside)) (by omega)
  | cons f free ih =>
    obtain ⟨here, next, link, rest⟩ := chain
    exact ⟨here, next, by rw [old f (inside f List.mem_cons_self), link],
      ih rest fun f member => inside f (List.mem_cons_of_mem _ member)⟩

theorem Opened.grown (opened : Opened ht v free entry) :
    Opened ht.grow_heap v (free ++ List.range' ht.max_size ht.max_size) entry := by
  obtain ⟨nodes, ids, -⟩ := grow_heap_reads opened.heapSize opened.idsSize
  have idsKept (p : Nat) (member : p ∈ v ++ [entry]) :
      ht.grow_heap.timerId (ht.entries p)._timer_id = ht.timerId (ht.entries p)._timer_id := by
    obtain ⟨positive, inside⟩ := opened.laid.inside p member
    rw [opened.idsSize] at inside
    have natural : (((ht.entries p)._timer_id.toNat : Nat) : Int) = (ht.entries p)._timer_id :=
      Int.toNat_of_nonneg (by omega)
    rw [← natural]
    exact ids _ inside
  have heapSize : ht.grow_heap.heap.length = ht.max_size * 2 := by
    have := opened.heapSize
    simp only [grow_heap, List.length_append, List.length_take, List.length_replicate]
    omega
  have idsSize : ht.grow_heap.timer_ids.length = ht.max_size * 2 := by
    have := opened.idsSize
    simp only [grow_heap, List.length_append, List.length_take, List.length_map, List.length_range']
    omega
  have fits := opened.laid.fits
  rw [opened.heapSize] at fits
  refine ⟨⟨?_, ?_, ?_, ?_, opened.laid.unique, opened.laid.nodup⟩, opened.cur_size, heapSize, idsSize,
    opened.ordered, ?_, ?_, ?_, ?_, ?_, ?_, opened.idle⟩
  · rw [heapSize]
    omega
  · intro i p hi other
    have below := (List.getElem?_eq_some_iff.mp hi).1
    rw [nodes i (by omega)]
    exact opened.laid.stored i p hi other
  · intro i p hi other
    exact (idsKept p (List.mem_of_getElem? hi)).trans (opened.laid.numbered i p hi other)
  · intro p member
    obtain ⟨positive, inside⟩ := opened.laid.inside p member
    rw [opened.idsSize] at inside
    exact ⟨positive, by rw [idsSize]; exact Nat.lt_of_lt_of_le inside (by omega)⟩
  · exact chain_grown opened.heapSize opened.idsSize opened.chain fun f member =>
      (opened.unused f member).2.1
  · refine List.nodup_append'.mpr ⟨opened.nodup, List.nodup_range', fun f old new => ?_⟩
    have below := (opened.unused f old).2.1
    have behind := (List.mem_range'_1.mp new).1
    omega
  · intro f member
    change _ ∧ f < ht.max_size * 2 ∧ _
    rcases List.mem_append.mp member with old | new
    · obtain ⟨low, high, none⟩ := opened.unused f old
      exact ⟨low, by omega, none⟩
    · obtain ⟨low, high⟩ := List.mem_range'_1.mp new
      have room := opened.room
      refine ⟨by omega, by omega, fun p here => ?_⟩
      obtain ⟨positive, inside⟩ := opened.laid.inside p here
      rw [opened.idsSize] at inside
      change (ht.entries p)._timer_id ≠ f
      omega
  · have count := opened.count
    rw [List.length_append, List.length_range']
    change _ = ht.max_size * 2
    omega
  · have room := opened.room
    change _ ≤ ht.max_size * 2
    omega
  · have room := opened.room
    exact (ids 0 (by omega)).trans opened.zero

/-- `insert_node` puts the entry in the array. -/
theorem insert_node_eq (opened : Opened ht v free entry) :
    ∃ ht' w free', ht.insert_node entry = some ht' ∧ Sound ht' w free' ∧ w.Perm (entry :: v) ∧
      ht'.entries = ht.entries ∧ ht'.max_entries_per_poll = ht.max_entries_per_poll := by
  -- Growing first, if at all, leaves everything as it was but for the room.
  obtain ⟨ht₀, free₀, large, opened₀, wide, entries, perPoll⟩ : ∃ ht₀ free₀,
      (if ht.max_size ≤ ht.cur_size + 2 then ht.grow_heap else ht) = ht₀ ∧
      Opened ht₀ v free₀ entry ∧ v.length + 1 + 2 ≤ ht₀.max_size ∧ ht₀.entries = ht.entries ∧
      ht₀.max_entries_per_poll = ht.max_entries_per_poll := by
    have room := opened.room
    have size := opened.cur_size
    split
    next => exact ⟨_, _, rfl, opened.grown, by change _ ≤ ht.max_size * 2; omega, rfl, rfl⟩
    next => exact ⟨_, _, rfl, opened, by omega, rfl, rfl⟩
  have last : (v ++ [entry])[v.length]? = some entry := by simp
  obtain ⟨ht', ran, laid, same⟩ := reheap_up_eq (ht₀.cur_size + 1) opened₀.laid last
    (by rw [opened₀.cur_size]; omega)
  have heap := sifting_spec.push_isHeap (later ht₀) (v ++ [entry]) (strictWeak ht₀ _)
    (by rw [List.dropLast_concat]; exact opened₀.ordered)
  have perm : (siftUp (later ht₀) (ht₀.cur_size + 1) v.length (v ++ [entry])).Perm (v ++ [entry]) :=
    siftUp_perm _ _ _
  have size : ht₀.cur_size + 1 = (v ++ [entry]).length := by
    rw [opened₀.cur_size, List.length_append, List.length_singleton]
  change IsHeap (later ht₀) (siftUp (later ht₀) (v ++ [entry]).length ((v ++ [entry]).length - 1) _)
    at heap
  rw [← size, show ht₀.cur_size + 1 - 1 = v.length by rw [opened₀.cur_size]; rfl] at heap
  generalize siftUp (later ht₀) (ht₀.cur_size + 1) v.length (v ++ [entry]) = w at laid heap perm
  have members (p : Nat) : p ∈ w ↔ p ∈ v ++ [entry] := perm.mem_iff
  have length : w.length = v.length + 1 := by
    rw [perm.length_eq, List.length_append, List.length_singleton]
  refine ⟨{ ht' with cur_size := ht'.cur_size + 1 }, w, free₀, ?_, ?_, ?_, ?_, ?_⟩
  · rw [opened₀.cur_size] at ran
    rw [insert_node, large, opened₀.cur_size, ran]
    rfl
  · refine ⟨⟨laid.fits, laid.stored, laid.numbered, laid.inside, laid.unique, laid.nodup⟩, ?_,
      same.heap.trans (opened₀.heapSize.trans same.max_size.symm),
      same.timer_ids.trans (opened₀.idsSize.trans same.max_size.symm), ?_, ?_, opened₀.nodup, ?_, ?_,
      ?_, ?_, ?_⟩
    · change ht'.cur_size + 1 = w.length
      rw [same.cur_size, opened₀.cur_size, length]
    · refine heap.congr fun p _ q _ => ?_
      exact congrFun (congrFun (later_of_same same).symm p) q
    · change Chain _ ht'.timer_ids_freelist free₀
      rw [same.freelist]
      refine opened₀.chain.congr same.max_size fun f member => ?_
      exact same.others f (opened₀.unused f member).2.2
    · intro f member
      obtain ⟨low, high, none⟩ := opened₀.unused f member
      refine ⟨low, high.trans_eq same.max_size.symm, fun p here => ?_⟩
      change (ht'.entries p)._timer_id ≠ f
      rw [same.entries]
      exact none p ((members p).mp here)
    · have count := opened₀.count
      rw [length]
      exact count.trans same.max_size.symm
    · rw [length]
      exact wide.trans_eq same.max_size.symm
    · refine (same.others 0 fun p member => ?_).trans opened₀.zero
      have := (opened₀.laid.inside p member).1
      omega
    · intro p outside
      change (ht'.entries p)._timer_id < 1
      rw [same.entries]
      exact opened₀.idle p fun member => outside ((members p).mpr member)
  · exact perm.trans (List.perm_append_singleton entry v)
  · exact same.entries.trans entries
  · exact same.perPoll.trans perPoll

/-- An id from the free list is given to an entry. -/
theorem Sound.opened {f : Nat} {next : Int} (sound : Sound ht v (f :: free)) (new : entry ∉ v)
    (rest : Chain ht next free) (future_time : PjTimeVal) :
    Opened ({ ht with timer_ids_freelist := next }.setEntry entry ⟨f, future_time⟩) v free entry := by
  obtain ⟨low, high, none⟩ := sound.unused f List.mem_cons_self
  obtain ⟨fresh, nodup⟩ := List.nodup_cons.mp sound.nodup
  have kept {p : Nat} (member : p ∈ v) :
      Function.update ht.entries entry ⟨f, future_time⟩ p = ht.entries p := by
    have other : p ≠ entry := fun same => new (same ▸ member)
    exact Function.update_of_ne other _ _
  have room := sound.room
  have inV {i p : Nat} (hi : (v ++ [entry])[i]? = some p) (other : i ≠ v.length) : v[i]? = some p := by
    have below := (List.getElem?_eq_some_iff.mp hi).1
    rw [List.length_append, List.length_singleton] at below
    rwa [List.getElem?_append_left (by omega)] at hi
  have values : ∀ p ∈ v, expiry ({ ht with timer_ids_freelist := next }.setEntry entry
      ⟨f, future_time⟩) p = expiry ht p := by
    intro p member
    rw [expiry, expiry, setEntry]
    dsimp only
    rw [kept member]
  refine ⟨⟨?_, ?_, ?_, ?_, ?_, ?_⟩, sound.cur_size, sound.heapSize, sound.idsSize,
    sound.ordered.congr (later_of_expiry values), ?_, nodup, ?_, ?_, room, sound.zero, ?_⟩
  · rw [List.length_append, List.length_singleton]
    change _ ≤ ht.heap.length
    rw [sound.heapSize]
    omega
  · intro i p hi other
    exact sound.laid.stored i p (inV hi other) other
  · intro i p hi other
    have hv := inV hi other
    rw [setEntry]
    dsimp only
    rw [kept (List.mem_of_getElem? hv)]
    exact sound.laid.numbered i p hv other
  · intro p member
    rw [setEntry]
    dsimp only
    rcases List.mem_append.mp member with old | here
    · rw [kept old]
      exact sound.laid.inside p old
    · rw [List.mem_singleton.mp here, Function.update_self, sound.idsSize]
      dsimp only
      omega
  · intro p member q member' same
    rw [setEntry] at same
    dsimp only at same
    rcases List.mem_append.mp member with old | here <;>
      rcases List.mem_append.mp member' with old' | here'
    · rw [kept old, kept old'] at same
      exact sound.laid.unique p old q old' same
    · rw [kept old, List.mem_singleton.mp here', Function.update_self] at same
      exact absurd same (none p old)
    · rw [kept old', List.mem_singleton.mp here, Function.update_self] at same
      exact absurd same.symm (none q old')
    · rw [List.mem_singleton.mp here, List.mem_singleton.mp here']
  · refine List.nodup_append'.mpr ⟨sound.laid.nodup, List.nodup_singleton _, ?_⟩
    exact List.disjoint_singleton.mpr new
  · exact rest.congr rfl fun _ _ => rfl
  · intro g member
    obtain ⟨low, high, none⟩ := sound.unused g (List.mem_cons_of_mem _ member)
    refine ⟨low, high, fun p here => ?_⟩
    rw [setEntry]
    dsimp only
    rcases List.mem_append.mp here with old | last
    · rw [kept old]
      exact none p old
    · rw [List.mem_singleton.mp last, Function.update_self]
      exact fun same => fresh (Int.ofNat_inj.mp same ▸ member)
  · have count := sound.count
    rw [List.length_cons] at count
    change _ = ht.max_size
    omega
  · intro p outside
    rw [List.mem_append, List.mem_singleton, not_or] at outside
    rw [setEntry]
    dsimp only
    rw [Function.update_of_ne outside.2]
    exact sound.idle p outside.1

/-- `schedule_entry` always finds a free id. -/
theorem schedule_entry_eq (sound : Sound ht v free) (new : entry ∉ v) (future_time : PjTimeVal) :
    ∃ ht' w free', ht.schedule_entry entry future_time = some (0, ht') ∧ Sound ht' w free' ∧
      w.Perm (entry :: v) ∧ (ht'.entries entry)._timer_value = future_time ∧
      (∀ q, q ≠ entry → ht'.entries q = ht.entries q) ∧
      ht'.max_entries_per_poll = ht.max_entries_per_poll := by
  have count := sound.count
  have room := sound.room
  cases free with
  | nil =>
    rw [List.length_nil] at count
    omega
  | cons f free =>
    obtain ⟨start, next, link, rest⟩ := sound.chain
    obtain ⟨ht', w, free', inserted, sound', perm, entries, perPoll⟩ :=
      insert_node_eq (sound.opened new rest future_time)
    refine ⟨ht', w, free', ?_, sound', perm, ?_, ?_, perPoll⟩
    · rw [schedule_entry, if_pos (by rw [sound.cur_size]; omega), pop_freelist, start, link]
      simp only [Option.bind_eq_bind, Option.bind_some, neg_neg]
      rw [inserted]
      rfl
    · rw [entries, setEntry]
      dsimp only
      rw [Function.update_self]
    · intro q other
      rw [entries, setEntry]
      dsimp only
      rw [Function.update_of_ne other]

end scheduling

end BlmLink.Guarantees.PjTimerState
