import Mathlib
import BlmLink.Lib.BinaryHeap
import BlmLink.Source.PjTimer

/-!
# The arrays of the timer heap

pjlib/src/pj/timer.c:91-206. `reheap_up` and `reheap_down` move a hole through the array: they
copy entries into it, each time with its new place in `timer_ids`, and fill it at the end. With
the entry that will fill it taken as being in the hole, they are the sifts of a binary heap
(`reheap_up_eq`, `reheap_down_eq`).
-/
namespace BlmLink.Guarantees.PjTimerArrays

open BlmLink.Lib BlmLink.Lib.BinaryHeap BlmLink.Source PjTimerHeap

section times

/-- A time as a pair to be compared from left to right. -/
def stamp (t : PjTimeVal) : Int ×ₗ Int := toLex (t.sec, t.msec)

theorem gt_iff (a b : PjTimeVal) : a.gt b = true ↔ stamp b < stamp a := by
  rw [stamp, stamp, Prod.Lex.toLex_lt_toLex, PjTimeVal.gt]
  simp only [gt_iff_lt, Bool.or_eq_true, decide_eq_true_eq, Bool.and_eq_true, beq_iff_eq]
  exact or_congr Iff.rfl (and_congr eq_comm Iff.rfl)

theorem lte_iff (a b : PjTimeVal) : a.lte b = true ↔ stamp a ≤ stamp b := by
  rw [PjTimeVal.lte, Bool.not_eq_true', ← Bool.not_eq_true, gt_iff, not_lt]

theorem gte_iff (a b : PjTimeVal) : a.gte b = true ↔ stamp b ≤ stamp a := by
  have same : (a.sec == b.sec && a.msec == b.msec) = true ↔ stamp b = stamp a := by
    rw [stamp, stamp, toLex_inj, Prod.mk.injEq, Bool.and_eq_true, beq_iff_eq, beq_iff_eq]
    exact and_congr eq_comm eq_comm
  rw [PjTimeVal.gte, Bool.or_eq_true, gt_iff, same, le_iff_lt_or_eq]

theorem lt_iff (a b : PjTimeVal) : a.lt b = true ↔ stamp a < stamp b := by
  rw [PjTimeVal.lt, Bool.not_eq_true', ← Bool.not_eq_true, gte_iff, not_le]

/-- The expiry of an entry. -/
def expiry (ht : PjTimerHeap) (p : Nat) : Int ×ₗ Int := stamp (ht.entries p)._timer_value

/-- The order of the heap: an entry belongs below one that expires earlier. -/
def later (ht : PjTimerHeap) (p q : Nat) : Bool := ht.before q p

theorem later_iff (ht : PjTimerHeap) (p q : Nat) : later ht p q = true ↔ expiry ht q < expiry ht p :=
  lt_iff _ _

theorem later_false (ht : PjTimerHeap) (p q : Nat) :
    later ht p q = false ↔ expiry ht p ≤ expiry ht q := by
  rw [← Bool.not_eq_true, later_iff, not_lt]

theorem strictWeak (ht : PjTimerHeap) (v : List Nat) : StrictWeak (later ht) v where
  asymm a _ b _ after := by
    rw [later_iff] at after
    rw [later_false]
    exact after.le
  trans a _ b _ c _ first second := by
    rw [later_false] at first second ⊢
    exact first.trans second

end times

section arrays

/-- The entries of `v` are in the array, but for the one at the hole, and `timer_ids` says where
they are. -/
structure Holed (ht : PjTimerHeap) (v : List Nat) (hole : Nat) : Prop where
  fits : v.length ≤ ht.heap.length
  stored : ∀ i p, v[i]? = some p → i ≠ hole → ht.node i = some p
  numbered : ∀ i p, v[i]? = some p → i ≠ hole → ht.timerId (ht.entries p)._timer_id = some (i : Int)
  inside : ∀ p ∈ v, 1 ≤ (ht.entries p)._timer_id ∧
    (ht.entries p)._timer_id.toNat < ht.timer_ids.length
  unique : ∀ p ∈ v, ∀ q ∈ v, (ht.entries p)._timer_id = (ht.entries q)._timer_id → p = q
  nodup : v.Nodup

/-- What moving the entries of `v` about leaves as it was. -/
structure Same (ht ht' : PjTimerHeap) (v : List Nat) : Prop where
  entries : ht'.entries = ht.entries
  cur_size : ht'.cur_size = ht.cur_size
  max_size : ht'.max_size = ht.max_size
  perPoll : ht'.max_entries_per_poll = ht.max_entries_per_poll
  freelist : ht'.timer_ids_freelist = ht.timer_ids_freelist
  heap : ht'.heap.length = ht.heap.length
  timer_ids : ht'.timer_ids.length = ht.timer_ids.length
  others : ∀ id : Int, (∀ p ∈ v, (ht.entries p)._timer_id ≠ id) → ht'.timerId id = ht.timerId id

variable {ht ht' ht'' : PjTimerHeap} {v w : List Nat}

theorem Same.refl (ht : PjTimerHeap) (v : List Nat) : Same ht ht v :=
  ⟨rfl, rfl, rfl, rfl, rfl, rfl, rfl, fun _ _ => rfl⟩

theorem Same.trans (first : Same ht ht' v) (second : Same ht' ht'' w) (subset : ∀ p ∈ w, p ∈ v) :
    Same ht ht'' v where
  entries := second.entries.trans first.entries
  cur_size := second.cur_size.trans first.cur_size
  max_size := second.max_size.trans first.max_size
  perPoll := second.perPoll.trans first.perPoll
  freelist := second.freelist.trans first.freelist
  heap := second.heap.trans first.heap
  timer_ids := second.timer_ids.trans first.timer_ids
  others id outside := by
    rw [second.others id fun p member => by rw [first.entries]; exact outside p (subset p member),
      first.others id outside]

theorem timerId_set (ht : PjTimerHeap) {id : Int} (value : Int) (positive : 0 ≤ id)
    (inside : id.toNat < ht.timer_ids.length) (other : Int) :
    { ht with timer_ids := ht.timer_ids.set id.toNat value }.timerId other =
      if other = id then some value else ht.timerId other := by
  unfold timerId
  by_cases same : other = id
  · subst same
    simp [positive, inside]
  · rw [if_neg same]
    split
    next nonneg =>
      have differs : id.toNat ≠ other.toNat := by omega
      simp [differs]
    next => rfl

/-- `copy_node` of an entry that is somewhere in the array. -/
theorem copy_node_eq (ht : PjTimerHeap) {slot p : Nat} (room : slot < ht.heap.length)
    (positive : 0 ≤ (ht.entries p)._timer_id)
    (inside : (ht.entries p)._timer_id.toNat < ht.timer_ids.length) :
    ∃ ht', ht.copy_node slot p = some ht' ∧ Same ht ht' [p] ∧
      (∀ i, ht'.node i = if i = slot then some p else ht.node i) ∧
      ∀ id, ht'.timerId id = if id = (ht.entries p)._timer_id then some (slot : Int)
        else ht.timerId id := by
  refine ⟨{ ht with
    heap := ht.heap.set slot (some p)
    timer_ids := ht.timer_ids.set (ht.entries p)._timer_id.toNat slot }, ?_, ?_, ?_, ?_⟩
  · rw [copy_node, if_pos room, setTimerId, if_pos ⟨positive, inside⟩]
  · refine ⟨rfl, rfl, rfl, rfl, rfl, List.length_set .., List.length_set .., ?_⟩
    intro id outside
    have differs := outside p List.mem_cons_self
    exact (timerId_set ht _ positive inside id).trans (if_neg differs.symm)
  · intro i
    unfold node
    by_cases here : i = slot
    · subst here
      simp [room]
    · simp [here, Ne.symm here]
  · intro id
    exact timerId_set ht _ positive inside id

theorem Holed.ids_ne {hole i j p q : Nat} (holed : Holed ht v hole) (hi : v[i]? = some p)
    (hj : v[j]? = some q) (different : i ≠ j) :
    (ht.entries p)._timer_id ≠ (ht.entries q)._timer_id := by
  intro same
  obtain rfl := holed.unique p (List.mem_of_getElem? hi) q (List.mem_of_getElem? hj) same
  have below := (List.getElem?_eq_some_iff.mp hi).1
  exact different ((List.getElem?_inj below holed.nodup).mp (hi.trans hj.symm))

/-- `copy_node` of an entry of `v` into a hole. -/
theorem Holed.copied {hole i p : Nat} (holed : Holed ht v hole) (room : hole < v.length)
    (at_ : v[i]? = some p) :
    ∃ ht', ht.copy_node hole p = some ht' ∧ Same ht ht' v ∧ ht'.node hole = some p ∧
      ht'.timerId (ht.entries p)._timer_id = some (hole : Int) ∧
      ∀ j q, v[j]? = some q → j ≠ hole → j ≠ i → ht'.node j = some q ∧
        ht'.timerId (ht.entries q)._timer_id = some (j : Int) := by
  have member := List.mem_of_getElem? at_
  obtain ⟨positive, inside⟩ := holed.inside p member
  obtain ⟨ht', copied, same, nodes, ids⟩ := copy_node_eq ht
    (Nat.lt_of_lt_of_le room holed.fits) (Int.le_trans (by decide) positive) inside
  refine ⟨ht', copied, ?_, by rw [nodes, if_pos rfl], by rw [ids, if_pos rfl], ?_⟩
  · exact (Same.refl ht v).trans same fun q here => List.mem_singleton.mp here ▸ member
  · intro j q hj notHole notHere
    rw [nodes, if_neg notHole, ids, if_neg (holed.ids_ne hj at_ notHere)]
    exact ⟨holed.stored j q hj notHole, holed.numbered j q hj notHole⟩

/-- The hole is filled with the entry that belongs there. -/
theorem Holed.fill {hole moved : Nat} (holed : Holed ht v hole) (at_ : v[hole]? = some moved) :
    ∃ ht', ht.copy_node hole moved = some ht' ∧ Holed ht' v v.length ∧ Same ht ht' v := by
  have room := (List.getElem?_eq_some_iff.mp at_).1
  obtain ⟨ht', copied, same, here, number, others⟩ := holed.copied room at_
  refine ⟨ht', copied, ⟨same.heap ▸ holed.fits, ?_, ?_, ?_, ?_, holed.nodup⟩, same⟩
  · intro i p hi _
    by_cases filled : i = hole
    · subst filled
      rwa [← hi.symm.trans at_] at here
    · exact (others i p hi filled filled).1
  · intro i p hi _
    rw [same.entries]
    by_cases filled : i = hole
    · subst filled
      cases hi.symm.trans at_
      exact number
    · exact (others i p hi filled filled).2
  · rw [same.entries, same.timer_ids]
    exact holed.inside
  · rw [same.entries]
    exact holed.unique

theorem Holed.forget (holed : Holed ht v v.length) (hole : Nat) : Holed ht v hole where
  fits := holed.fits
  stored i p hi _ := holed.stored i p hi (Nat.ne_of_lt (List.getElem?_eq_some_iff.mp hi).1)
  numbered i p hi _ := holed.numbered i p hi (Nat.ne_of_lt (List.getElem?_eq_some_iff.mp hi).1)
  inside := holed.inside
  unique := holed.unique
  nodup := holed.nodup

/-- The hole is filled with another entry, and is then where that entry was. -/
theorem Holed.move {hole i p : Nat} (holed : Holed ht v hole) (room : hole < v.length)
    (at_ : v[i]? = some p) (other : i ≠ hole) :
    ∃ ht', ht.copy_node hole p = some ht' ∧ Holed ht' (v.swap i hole) i ∧ Same ht ht' v := by
  have inside := (List.getElem?_eq_some_iff.mp at_).1
  obtain ⟨ht', copied, same, here, number, others⟩ := holed.copied room at_
  have swapped (j q : Nat) (hj : (v.swap i hole)[j]? = some q) (notHole : j ≠ i) :
      ht'.node j = some q ∧ ht'.timerId (ht.entries q)._timer_id = some (j : Int) := by
    rw [getElem?_swap inside room other, if_neg notHole] at hj
    split at hj
    next filled =>
      subst filled
      cases hj.symm.trans at_
      exact ⟨here, number⟩
    next elsewhere => exact others j q hj elsewhere notHole
  have members (q : Nat) (member : q ∈ v.swap i hole) : q ∈ v := (List.mem_swap _ _).mp member
  refine ⟨ht', copied, ⟨?_, fun j q hj notHole => (swapped j q hj notHole).1, ?_, ?_, ?_, ?_⟩, same⟩
  · rw [List.length_swap, same.heap]
    exact holed.fits
  · rw [same.entries]
    exact fun j q hj notHole => (swapped j q hj notHole).2
  · rw [same.entries, same.timer_ids]
    exact fun q member => holed.inside q (members q member)
  · rw [same.entries]
    exact fun q member r member' => holed.unique q (members q member) r (members r member')
  · exact (List.swap_perm _ _ _).nodup_iff.mpr holed.nodup

end arrays

section sifts

variable {ht : PjTimerHeap} {v : List Nat}

theorem later_of_same {ht' : PjTimerHeap} {w : List Nat} (same : Same ht ht' w) :
    later ht' = later ht := by
  funext p q
  rw [later, later, before, before, same.entries]

/-- `reheap_up` moves the entry in the hole up, as `siftUp` does. -/
theorem reheap_up_eq (fuel : Nat) {slot moved : Nat} (holed : Holed ht v slot)
    (at_ : v[slot]? = some moved) (enough : slot < fuel) :
    ∃ ht', ht.reheap_up fuel moved slot (HEAP_PARENT slot) = some ht' ∧
      Holed ht' (siftUp (later ht) fuel slot v) (siftUp (later ht) fuel slot v).length ∧
      Same ht ht' v := by
  induction fuel generalizing ht v slot with
  | zero => omega
  | succ fuel ih =>
    have room := (List.getElem?_eq_some_iff.mp at_).1
    rw [reheap_up, siftUp, at_]
    split
    next positive =>
      have above : (slot - 1) / 2 < v.length := by omega
      have parent : HEAP_PARENT slot = (slot - 1) / 2 := if_neg (by omega)
      obtain ⟨upper, hupper⟩ : ∃ upper, v[(slot - 1) / 2]? = some upper :=
        ⟨_, List.getElem?_eq_getElem above⟩
      rw [parent, holed.stored _ upper hupper (by omega), hupper, Option.bind_eq_bind,
        Option.bind_some]
      dsimp only
      rw [show later ht upper moved = ht.before moved upper from rfl]
      split
      next =>
        obtain ⟨ht₁, copied, holed₁, same₁⟩ := holed.move room hupper (by omega)
        have at₁ : (v.swap ((slot - 1) / 2) slot)[(slot - 1) / 2]? = some moved := by
          rw [getElem?_swap above room (by omega), if_pos rfl, at_]
        obtain ⟨ht₂, ran, holed₂, same₂⟩ := ih holed₁ at₁ (by omega)
        rw [later_of_same same₁] at holed₂
        refine ⟨ht₂, ?_, holed₂, same₁.trans same₂ fun p member => (List.mem_swap _ _).mp member⟩
        rw [copied]
        exact ran
      next => exact holed.fill at_
    next root =>
      have zero : slot = 0 := by omega
      subst zero
      have still : later ht moved moved = false := (later_false ht _ _).mpr le_rfl
      rw [show (0 - 1) / 2 = 0 from rfl, at_]
      dsimp only
      rw [still, if_neg (by decide)]
      exact holed.fill at_

/-- The children of the hole are in the array. -/
theorem smallerChild_eq {hole : Nat} (holed : Holed ht v hole) (size : ht.cur_size = v.length)
    (inside : 2 * hole + 1 < v.length) :
    ht.smallerChild (HEAP_LEFT hole) = some (upperChild (later ht) v hole) := by
  have left : HEAP_LEFT hole = 2 * hole + 1 := by rw [HEAP_LEFT]; omega
  obtain ⟨l, hl⟩ : ∃ l, v[2 * hole + 1]? = some l := ⟨_, List.getElem?_eq_getElem inside⟩
  rw [smallerChild, upperChild, left, size, hl]
  split
  next both =>
    obtain ⟨r, hr⟩ : ∃ r, v[2 * hole + 2]? = some r := ⟨_, List.getElem?_eq_getElem both⟩
    rw [hr, holed.stored _ r hr (by omega), holed.stored _ l hl (by omega)]
    rfl
  next single => rw [List.getElem?_eq_none (Nat.le_of_not_lt single)]

/-- `reheap_down` moves the entry in the hole down, as `siftDown` does. -/
theorem reheap_down_eq (fuel : Nat) {slot moved : Nat} (holed : Holed ht v slot)
    (size : ht.cur_size = v.length) (at_ : v[slot]? = some moved) (enough : v.length ≤ fuel + slot) :
    ∃ ht', ht.reheap_down fuel moved slot (HEAP_LEFT slot) = some ht' ∧
      Holed ht' (siftDown (later ht) fuel slot v) (siftDown (later ht) fuel slot v).length ∧
      Same ht ht' v := by
  induction fuel generalizing ht v slot with
  | zero =>
    have room := (List.getElem?_eq_some_iff.mp at_).1
    omega
  | succ fuel ih =>
    have room := (List.getElem?_eq_some_iff.mp at_).1
    have left : HEAP_LEFT slot = 2 * slot + 1 := by rw [HEAP_LEFT]; omega
    rw [reheap_down, siftDown, at_, size]
    split
    next inside =>
      have child := child_upperChild (later ht) v slot
      have below : upperChild (later ht) v slot < v.length := by
        by_contra outside
        have none := upperChild_outside (Nat.le_of_not_lt outside) (.inl rfl)
        rw [List.getElem?_eq_none_iff] at none
        omega
      rw [smallerChild_eq holed size (by omega)]
      generalize upperChild (later ht) v slot = m at child below
      have lower : slot < m := by unfold Child at child; omega
      obtain ⟨p, hp⟩ : ∃ p, v[m]? = some p := ⟨_, List.getElem?_eq_getElem below⟩
      rw [hp, Option.bind_eq_bind, Option.bind_some, holed.stored m p hp (by omega),
        Option.bind_eq_bind, Option.bind_some]
      dsimp only
      rw [show later ht moved p = ht.before p moved from rfl]
      split
      next =>
        obtain ⟨ht₁, copied, holed₁, same₁⟩ := holed.move room hp (by omega)
        rw [List.swap_comm] at holed₁
        have at₁ : (v.swap slot m)[m]? = some moved := by
          rw [getElem?_swap room below (by omega), if_neg (by omega), if_pos rfl, at_]
        obtain ⟨ht₂, ran, holed₂, same₂⟩ := ih holed₁ (by rw [same₁.cur_size, size, List.length_swap])
          at₁ (by rw [List.length_swap]; omega)
        rw [later_of_same same₁] at holed₂
        refine ⟨ht₂, ?_, holed₂, same₁.trans same₂ fun p member => (List.mem_swap _ _).mp member⟩
        rw [copied]
        exact ran
      next => exact holed.fill at_
    next outside =>
      have none : v[upperChild (later ht) v slot]? = none := by
        have child := child_upperChild (later ht) v slot
        refine List.getElem?_eq_none ?_
        unfold Child at child
        omega
      rw [none]
      exact holed.fill at_

end sifts

end BlmLink.Guarantees.PjTimerArrays
