import Mathlib

/-!
# Binary heaps in a vector

The heap order of the C++ library: `comp a b` says that `a` belongs below `b`, and
no element of a heap belongs below a child of it. `HeapSpec` is what the library
promises about `push_heap`, `pop_heap` and `make_heap`; `sifting` is an
implementation by sifting, with the proof that it keeps the promise. Last, when a
vector stays a heap although elements are taken out without sifting
(`isHeap_filter`).
-/
namespace BlmLink.Lib.BinaryHeap

variable {α : Type} {comp : α → α → Bool} {v : List α}

def Child (i k : Nat) : Prop := k = 2 * i + 1 ∨ k = 2 * i + 2

instance (i k : Nat) : Decidable (Child i k) := inferInstanceAs (Decidable (_ ∨ _))

/-- The elements at two positions are in order, as far as they exist. -/
def Fine (comp : α → α → Bool) (v : List α) (i k : Nat) : Prop :=
  ∀ a b, v[i]? = some a → v[k]? = some b → comp a b = false

def IsHeap (comp : α → α → Bool) (v : List α) : Prop := ∀ i k, Child i k → Fine comp v i k

instance : Decidable (IsHeap comp v) :=
  decidable_of_iff (∀ i k : Fin v.length, Child i k → comp v[i] v[k] = false) (by
    constructor
    · intro ordered i k child a b ha hb
      obtain ⟨hi, rfl⟩ := List.getElem?_eq_some_iff.mp ha
      obtain ⟨hk, rfl⟩ := List.getElem?_eq_some_iff.mp hb
      exact ordered ⟨i, hi⟩ ⟨k, hk⟩ child
    · intro heap i k child
      exact heap i k child _ _ (List.getElem?_eq_getElem i.isLt) (List.getElem?_eq_getElem k.isLt))

/-- `comp` is a strict weak order among the elements of the vector. -/
structure StrictWeak (comp : α → α → Bool) (v : List α) : Prop where
  asymm : ∀ a ∈ v, ∀ b ∈ v, comp a b = true → comp b a = false
  trans : ∀ a ∈ v, ∀ b ∈ v, ∀ c ∈ v, comp a b = false → comp b c = false → comp a c = false

theorem StrictWeak.mono {w : List α} (order : StrictWeak comp v) (subset : ∀ a ∈ w, a ∈ v) :
    StrictWeak comp w where
  asymm := fun a ha b hb => order.asymm a (subset a ha) b (subset b hb)
  trans := fun a ha b hb c hc => order.trans a (subset a ha) b (subset b hb) c (subset c hc)

theorem StrictWeak.irrefl (order : StrictWeak comp v) {a : α} (member : a ∈ v) :
    comp a a = false := by
  cases self : comp a a with
  | false => rfl
  | true => rw [order.asymm a member a member self] at self; exact self.symm

theorem StrictWeak.fine_trans (order : StrictWeak comp v) {i j k : Nat} (inside : j < v.length)
    (first : Fine comp v i j) (second : Fine comp v j k) : Fine comp v i k := by
  intro a c ha hc
  have hb := List.getElem?_eq_getElem inside
  exact order.trans a (List.mem_of_getElem? ha) _ (List.getElem_mem inside) c
    (List.mem_of_getElem? hc) (first a _ ha hb) (second _ c hb hc)

/-- The front of a heap belongs below no element. -/
theorem IsHeap.front (heap : IsHeap comp v) (order : StrictWeak comp v) (k : Nat) :
    Fine comp v 0 k := by
  induction k using Nat.strongRecOn with
  | ind k ih =>
    intro a b ha hb
    rcases Nat.eq_zero_or_pos k with rfl | positive
    · rw [ha] at hb
      cases hb
      exact order.irrefl (List.mem_of_getElem? ha)
    · have inside : k < v.length := (List.getElem?_eq_some_iff.mp hb).1
      have child : Child ((k - 1) / 2) k := by
        unfold Child
        omega
      exact order.fine_trans (by omega) (ih ((k - 1) / 2) (by omega)) (heap _ _ child) a b ha hb

theorem IsHeap.congr {comp' : α → α → Bool} (heap : IsHeap comp v)
    (same : ∀ a ∈ v, ∀ b ∈ v, comp a b = comp' a b) : IsHeap comp' v := by
  intro i k child a b ha hb
  rw [← same a (List.mem_of_getElem? ha) b (List.mem_of_getElem? hb)]
  exact heap i k child a b ha hb

section library

/-- The heap functions of `<algorithm>`, on a whole vector. -/
structure HeapFns (α : Type) where
  push_heap : (α → α → Bool) → List α → List α
  pop_heap : (α → α → Bool) → List α → List α
  make_heap : (α → α → Bool) → List α → List α

/-- They move elements about and do nothing else. -/
structure Permutes (fns : HeapFns α) : Prop where
  push_heap : ∀ comp v, (fns.push_heap comp v).Perm v
  pop_heap : ∀ comp v, (fns.pop_heap comp v).Perm v
  make_heap : ∀ comp v, (fns.make_heap comp v).Perm v

/-- What they promise for a strict weak order. -/
structure HeapSpec (fns : HeapFns α) : Prop extends Permutes fns where
  push_isHeap : ∀ comp v, StrictWeak comp v → IsHeap comp v.dropLast →
    IsHeap comp (fns.push_heap comp v)
  pop_last : ∀ comp v, StrictWeak comp v → IsHeap comp v →
    (fns.pop_heap comp v).getLast? = v.head?
  pop_isHeap : ∀ comp v, StrictWeak comp v → IsHeap comp v →
    IsHeap comp (fns.pop_heap comp v).dropLast
  make_isHeap : ∀ comp v, StrictWeak comp v → IsHeap comp (fns.make_heap comp v)

end library

section sifting

theorem getElem?_swap {i j : Nat} (hi : i < v.length) (hj : j < v.length) (different : i ≠ j)
    (k : Nat) : (v.swap i j)[k]? = if k = i then v[j]? else if k = j then v[i]? else v[k]? := by
  rw [List.swap_eq_of_lt hi hj, List.getElem?_set, List.getElem?_set]
  have hi' := List.getElem?_eq_getElem hi
  have hj' := List.getElem?_eq_getElem hj
  grind

/-- Order at the positions that the swap did not touch, and at those it did. -/
theorem fine_swap {i j p k : Nat} (hi : i < v.length) (hj : j < v.length) (different : i ≠ j)
    (order : Fine comp v (if p = i then j else if p = j then i else p)
      (if k = i then j else if k = j then i else k)) : Fine comp (v.swap i j) p k := by
  intro a b ha hb
  rw [getElem?_swap hi hj different] at ha hb
  refine order a b ?_ ?_
  · split_ifs at ha ⊢ <;> exact ha
  · split_ifs at hb ⊢ <;> exact hb

/-- Move the element at `j` up while it belongs above its parent. -/
def siftUp (comp : α → α → Bool) : Nat → Nat → List α → List α
  | 0, _, v => v
  | fuel + 1, j, v =>
    match v[(j - 1) / 2]?, v[j]? with
    | some a, some b =>
      if comp a b then siftUp comp fuel ((j - 1) / 2) (v.swap ((j - 1) / 2) j) else v
    | _, _ => v

/-- Only the element at `j` may be out of place, and it may be too low. -/
structure UpReady (comp : α → α → Bool) (v : List α) (j : Nat) : Prop where
  others : ∀ i k, Child i k → k ≠ j → Fine comp v i k
  across : ∀ i k, Child i j → Child j k → Fine comp v i k

theorem UpReady.swap (order : StrictWeak comp v) {i j : Nat} (ready : UpReady comp v j)
    (child : Child i j) {a b : α} (ha : v[i]? = some a) (hb : v[j]? = some b)
    (above : comp a b = true) : UpReady comp (v.swap i j) i := by
  have hi : i < v.length := (List.getElem?_eq_some_iff.mp ha).1
  have hj : j < v.length := (List.getElem?_eq_some_iff.mp hb).1
  have lower : i < j := by unfold Child at child; omega
  have swapped : Fine comp v j i := by
    intro x y hx hy
    rw [hb] at hx
    rw [ha] at hy
    cases hx
    cases hy
    exact order.asymm a (List.mem_of_getElem? ha) b (List.mem_of_getElem? hb) above
  constructor
  · intro p k below notRoot
    apply fine_swap hi hj (by omega)
    by_cases toChild : p = i
    · subst toChild
      rw [if_pos rfl, if_neg (by unfold Child at below; omega)]
      split
      · exact swapped
      next sibling => exact order.fine_trans hi swapped (ready.others p k below sibling)
    · rw [if_neg toChild, if_neg notRoot]
      by_cases fromChild : p = j
      · subst fromChild
        rw [if_pos rfl, if_neg (by unfold Child at below; omega)]
        exact ready.across i k child below
      · rw [if_neg fromChild, if_neg (by unfold Child at below child; omega)]
        exact ready.others p k below (by unfold Child at below child; omega)
  · intro p k above' below
    apply fine_swap hi hj (by omega)
    have up : Fine comp v p i := ready.others p i above' (by omega)
    rw [if_neg (by unfold Child at above'; omega), if_neg (by unfold Child at above'; omega),
      if_neg (by unfold Child at below; omega)]
    split
    · exact up
    next sibling => exact order.fine_trans hi up (ready.others i k below sibling)

theorem siftUp_perm (fuel j : Nat) (v : List α) : (siftUp comp fuel j v).Perm v := by
  induction fuel generalizing j v with
  | zero => exact .refl v
  | succ fuel ih =>
    unfold siftUp
    split
    · split
      · exact (ih _ _).trans (List.swap_perm _ _ _)
      · exact .refl v
    · exact .refl v

theorem siftUp_isHeap (fuel j : Nat) (v : List α) (order : StrictWeak comp v) (enough : j ≤ fuel)
    (inside : j < v.length) (ready : UpReady comp v j) : IsHeap comp (siftUp comp fuel j v) := by
  induction fuel generalizing j v with
  | zero =>
    intro i k child
    apply ready.others i k child
    unfold Child at child
    omega
  | succ fuel ih =>
    have hj := List.getElem?_eq_getElem inside
    have hi := List.getElem?_eq_getElem (show (j - 1) / 2 < v.length by omega)
    unfold siftUp
    rw [hi, hj]
    dsimp only
    split
    next above =>
      have child : Child ((j - 1) / 2) j := by
        by_contra root
        have zero : j = 0 := by unfold Child at root; omega
        subst zero
        rw [order.irrefl (List.getElem_mem _)] at above
        cases above
      exact ih _ _ (order.mono fun a member => (List.mem_swap _ _).mp member) (by omega)
        (by rw [List.length_swap]; omega) (ready.swap order child hi hj above)
    next settled =>
      intro i k child
      by_cases last : k = j
      · subst last
        have parent : i = (k - 1) / 2 := by unfold Child at child; omega
        subst parent
        intro a b ha hb
        rw [hi] at ha
        rw [hj] at hb
        cases ha
        cases hb
        simpa using settled
      · exact ready.others i k child last

/-- The child that belongs above the other. -/
def upperChild (comp : α → α → Bool) (v : List α) (i : Nat) : Nat :=
  match v[2 * i + 1]?, v[2 * i + 2]? with
  | some l, some r => if comp l r then 2 * i + 2 else 2 * i + 1
  | _, _ => 2 * i + 1

theorem child_upperChild (comp : α → α → Bool) (v : List α) (i : Nat) :
    Child i (upperChild comp v i) := by
  unfold upperChild Child
  split
  · split <;> omega
  · omega

theorem fine_self (order : StrictWeak comp v) (k : Nat) : Fine comp v k k := by
  intro a b ha hb
  rw [ha] at hb
  cases hb
  exact order.irrefl (List.mem_of_getElem? ha)

theorem fine_upperChild (order : StrictWeak comp v) {i k : Nat} (child : Child i k) :
    Fine comp v (upperChild comp v i) k := by
  unfold upperChild
  split
  next l r hl hr =>
    split
    next below =>
      rcases child with rfl | rfl
      · intro a b ha hb
        rw [hr] at ha
        rw [hl] at hb
        cases ha
        cases hb
        exact order.asymm l (List.mem_of_getElem? hl) r (List.mem_of_getElem? hr) below
      · exact fine_self order _
    next level =>
      rcases child with rfl | rfl
      · exact fine_self order _
      · intro a b ha hb
        rw [hl] at ha
        rw [hr] at hb
        cases ha
        cases hb
        simpa using level
  next single =>
    rcases child with rfl | rfl
    · exact fine_self order _
    · intro a b ha hb
      exact absurd hb (single a b ha)

/-- Move the element at `i` down while it belongs below a child. -/
def siftDown (comp : α → α → Bool) : Nat → Nat → List α → List α
  | 0, _, v => v
  | fuel + 1, i, v =>
    match v[i]?, v[upperChild comp v i]? with
    | some a, some b =>
      if comp a b then siftDown comp fuel (upperChild comp v i) (v.swap i (upperChild comp v i))
      else v
    | _, _ => v

/-- From position `lo` on, every element is in order with its children. -/
def HeapFrom (comp : α → α → Bool) (lo : Nat) (v : List α) : Prop :=
  ∀ i k, lo ≤ i → Child i k → Fine comp v i k

/-- From `lo` on, only the element at `i` may be out of place, and it may be too high. -/
structure DownReady (comp : α → α → Bool) (lo : Nat) (v : List α) (i : Nat) : Prop where
  others : ∀ p k, lo ≤ p → Child p k → p ≠ i → Fine comp v p k
  across : ∀ p k, lo ≤ p → Child p i → Child i k → Fine comp v p k

theorem DownReady.swap (order : StrictWeak comp v) {lo i : Nat} (ready : DownReady comp lo v i)
    (from' : lo ≤ i) {a b : α} (ha : v[i]? = some a) (hb : v[upperChild comp v i]? = some b)
    (below : comp a b = true) :
    DownReady comp lo (v.swap i (upperChild comp v i)) (upperChild comp v i) := by
  have child := child_upperChild comp v i
  have best : ∀ {k}, Child i k → Fine comp v (upperChild comp v i) k := fine_upperChild order
  generalize upperChild comp v i = m at *
  have hi : i < v.length := (List.getElem?_eq_some_iff.mp ha).1
  have hm : m < v.length := (List.getElem?_eq_some_iff.mp hb).1
  have lower : i < m := by unfold Child at child; omega
  constructor
  · intro p k late under notMoved
    apply fine_swap hi hm (by omega)
    by_cases top : p = i
    · subst top
      rw [if_pos rfl, if_neg (by unfold Child at under; omega)]
      split
      · intro x y hx hy
        rw [hb] at hx
        rw [ha] at hy
        cases hx
        cases hy
        exact order.asymm a (List.mem_of_getElem? ha) b (List.mem_of_getElem? hb) below
      · exact best under
    · rw [if_neg top, if_neg notMoved]
      split
      next toTop => exact ready.across p m late (toTop ▸ under) child
      · rw [if_neg (by unfold Child at under child; omega)]
        exact ready.others p k late under top
  · intro p k late above under
    apply fine_swap hi hm (by omega)
    have parent : p = i := by unfold Child at above child; omega
    subst parent
    rw [if_pos rfl, if_neg (by unfold Child at under; omega), if_neg (by unfold Child at under; omega)]
    exact ready.others m k (by omega) under (by omega)

theorem siftDown_perm (fuel i : Nat) (v : List α) : (siftDown comp fuel i v).Perm v := by
  induction fuel generalizing i v with
  | zero => exact .refl v
  | succ fuel ih =>
    unfold siftDown
    split
    · split
      · exact (ih _ _).trans (List.swap_perm _ _ _)
      · exact .refl v
    · exact .refl v

theorem upperChild_outside {i k : Nat} (outside : v.length ≤ upperChild comp v i)
    (child : Child i k) : v[k]? = none := by
  have first : v.length ≤ 2 * i + 1 := by
    unfold upperChild at outside
    split at outside
    next l r hl hr =>
      have inside := (List.getElem?_eq_some_iff.mp hr).1
      split at outside <;> omega
    · exact outside
  refine List.getElem?_eq_none ?_
  unfold Child at child
  omega

theorem DownReady.settled (order : StrictWeak comp v) {lo i : Nat} (ready : DownReady comp lo v i)
    (fine : Fine comp v i (upperChild comp v i)) : HeapFrom comp lo v := by
  intro p k late under
  by_cases here : p = i
  · subst here
    rcases Nat.lt_or_ge (upperChild comp v p) v.length with inside | outside
    · exact order.fine_trans inside fine (fine_upperChild order under)
    · intro a b ha hb
      rw [upperChild_outside outside under] at hb
      cases hb
  · exact ready.others p k late under here

theorem siftDown_heapFrom (lo fuel i : Nat) (v : List α) (order : StrictWeak comp v)
    (enough : v.length ≤ fuel + i) (from' : lo ≤ i) (ready : DownReady comp lo v i) :
    HeapFrom comp lo (siftDown comp fuel i v) := by
  induction fuel generalizing i v with
  | zero =>
    apply ready.settled order
    intro a b ha
    rw [List.getElem?_eq_none (by omega)] at ha
    cases ha
  | succ fuel ih =>
    unfold siftDown
    split
    next a b ha hb =>
      have child := child_upperChild comp v i
      split
      next below =>
        refine ih _ _ (order.mono fun x member => (List.mem_swap _ _).mp member) ?_ ?_
          (ready.swap order from' ha hb below)
        · rw [List.length_swap]
          unfold Child at child
          omega
        · unfold Child at child
          omega
      next level =>
        apply ready.settled order
        intro x y hx hy
        rw [ha] at hx
        rw [hb] at hy
        cases hx
        cases hy
        simpa using level
    next missing =>
      apply ready.settled order
      intro x y hx hy
      exact absurd hy (missing x y hx)

/-- Sift down every element, from the last one that has children to the first. -/
def makeFrom (comp : α → α → Bool) : Nat → List α → List α
  | 0, v => v
  | lo + 1, v => makeFrom comp lo (siftDown comp v.length lo v)

theorem makeFrom_perm (lo : Nat) (v : List α) : (makeFrom comp lo v).Perm v := by
  induction lo generalizing v with
  | zero => exact .refl v
  | succ lo ih => exact (ih _).trans (siftDown_perm _ _ _)

theorem makeFrom_isHeap (lo : Nat) (v : List α) (order : StrictWeak comp v)
    (heap : HeapFrom comp lo v) : IsHeap comp (makeFrom comp lo v) := by
  induction lo generalizing v with
  | zero => exact fun i k child => heap i k (Nat.zero_le i) child
  | succ lo ih =>
    apply ih _ (order.mono fun a member => (siftDown_perm _ _ _).mem_iff.mp member)
    refine siftDown_heapFrom lo _ lo v order (by omega) (Nat.le_refl lo) ⟨?_, ?_⟩
    · intro p k late under notHere
      exact heap p k (by omega) under
    · intro p k late above _
      unfold Child at above
      omega

/-- The heap functions by sifting. -/
def sifting : HeapFns α where
  push_heap comp v := siftUp comp v.length (v.length - 1) v
  pop_heap comp v :=
    match v with
    | [] => []
    | a :: rest =>
      match rest.getLast? with
      | none => [a]
      | some last => siftDown comp v.length 0 (last :: rest.dropLast) ++ [a]
  make_heap comp v := makeFrom comp (v.length / 2) v

theorem pop_split (comp : α → α → Bool) (a : α) (rest : List α) :
    ∃ w, sifting.pop_heap comp (a :: rest) = siftDown comp (rest.length + 1) 0 w ++ [a] ∧
      w.Perm rest ∧ w.tail = rest.dropLast := by
  rcases List.eq_nil_or_concat' rest with rfl | ⟨front, last, rfl⟩
  · exact ⟨[], by simp [sifting, siftDown], .refl _, rfl⟩
  · refine ⟨last :: front, ?_, ?_, ?_⟩
    · simp [sifting]
    · simpa using (List.perm_append_singleton last front).symm
    · simp

theorem sifting_permutes : Permutes (sifting : HeapFns α) where
  push_heap comp v := siftUp_perm _ _ _
  pop_heap comp v := by
    cases v with
    | nil => exact .refl _
    | cons a rest =>
      obtain ⟨w, popped, perm, -⟩ := pop_split comp a rest
      rw [popped]
      exact (List.perm_append_singleton a _).trans (((siftDown_perm _ _ _).trans perm).cons a)
  make_heap comp v := makeFrom_perm _ _

theorem sifting_spec : HeapSpec (sifting : HeapFns α) where
  toPermutes := sifting_permutes
  push_isHeap comp v order heap := by
    rcases List.eq_nil_or_concat' v with rfl | ⟨front, last, rfl⟩
    · exact heap
    · rw [List.dropLast_concat] at heap
      refine siftUp_isHeap _ _ _ order (by omega) (by simp) ⟨?_, ?_⟩
      · intro i k child notLast a b ha hb
        have inside := (List.getElem?_eq_some_iff.mp hb).1
        rw [List.length_append, List.length_singleton] at inside notLast
        have before : k < front.length := by omega
        have parent : i < front.length := by unfold Child at child; omega
        rw [List.getElem?_append_left before] at hb
        rw [List.getElem?_append_left parent] at ha
        exact heap i k child a b ha hb
      · intro i k _ child a b _ hb
        have inside := (List.getElem?_eq_some_iff.mp hb).1
        unfold Child at child
        rw [List.length_append, List.length_singleton] at inside child
        omega
  pop_last comp v order heap := by
    cases v with
    | nil => rfl
    | cons a rest =>
      obtain ⟨w, popped, -, -⟩ := pop_split comp a rest
      rw [popped, List.getLast?_concat, List.head?_cons]
  pop_isHeap comp v order heap := by
    cases v with
    | nil => exact heap
    | cons a rest =>
      obtain ⟨w, popped, perm, tail⟩ := pop_split comp a rest
      rw [popped, List.dropLast_concat]
      have order' : StrictWeak comp w := order.mono fun x member =>
        List.mem_cons_of_mem a (perm.mem_iff.mp member)
      -- apart from its first element `w` is the vector without its last
      have shift : ∀ {n : Nat} {x}, 0 < n → w[n]? = some x → (a :: rest)[n]? = some x := by
        intro n x positive hx
        obtain ⟨n, rfl⟩ := Nat.exists_eq_succ_of_ne_zero (Nat.ne_of_gt positive)
        rw [← List.getElem?_tail, tail] at hx
        obtain ⟨end', rest_eq⟩ := List.dropLast_prefix rest
        rw [List.getElem?_cons_succ, ← rest_eq,
          List.getElem?_append_left (List.getElem?_eq_some_iff.mp hx).1]
        exact hx
      have sifted := siftDown_heapFrom 0 (rest.length + 1) 0 w order' ?_ (Nat.le_refl 0) ⟨?_, ?_⟩
      · exact fun i k child => sifted i k (Nat.zero_le i) child
      · rw [perm.length_eq]
        omega
      · intro p k _ under notTop x y hx hy
        have below : 0 < k := by unfold Child at under; omega
        exact heap p k under x y (shift (Nat.pos_of_ne_zero notTop) hx) (shift below hy)
      · intro p k _ above _
        unfold Child at above
        omega
  make_isHeap comp v order := by
    apply makeFrom_isHeap _ _ order
    intro i k late child a b _ hb
    have inside := (List.getElem?_eq_some_iff.mp hb).1
    unfold Child at child
    omega

end sifting

section replacing

variable {x : α} {slot : Nat}

theorem fine_set {p k : Nat} (notHere : p ≠ slot) (notHere' : k ≠ slot) (fine : Fine comp v p k) :
    Fine comp (v.set slot x) p k := by
  intro a b ha hb
  rw [List.getElem?_set_ne notHere.symm] at ha
  rw [List.getElem?_set_ne notHere'.symm] at hb
  exact fine a b ha hb

/-- The elements above and below a position are in order without the one at it. -/
theorem IsHeap.across (heap : IsHeap comp v) (order : StrictWeak comp v) (inside : slot < v.length)
    {p k : Nat} (above : Child p slot) (below : Child slot k) : Fine comp (v.set slot x) p k := by
  apply fine_set
  · unfold Child at above
    omega
  · unfold Child at below
    omega
  · exact order.fine_trans inside (heap p slot above) (heap slot k below)

/-- A heap with another element at a position, which does not belong above its parent. -/
theorem DownReady.of_set (order : StrictWeak comp (x :: v)) (heap : IsHeap comp v)
    (inside : slot < v.length) (low : ∀ p a, Child p slot → v[p]? = some a → comp a x = false) :
    DownReady comp 0 (v.set slot x) slot := by
  constructor
  · intro p k _ child notHere
    by_cases moved : k = slot
    · subst moved
      intro a b ha hb
      rw [List.getElem?_set_ne notHere.symm] at ha
      rw [List.getElem?_set_self inside] at hb
      cases hb
      exact low p a child ha
    · exact fine_set notHere moved (heap p k child)
  · intro p k _ above below
    exact heap.across (order.mono fun a member => List.mem_cons_of_mem x member) inside above below

/-- And with one that does belong above its parent. -/
theorem UpReady.of_set (order : StrictWeak comp (x :: v)) (heap : IsHeap comp v)
    (inside : slot < v.length) {i : Nat} {a : α} (parent : Child i slot) (ha : v[i]? = some a)
    (high : comp a x = true) : UpReady comp (v.set slot x) slot := by
  have order' : StrictWeak comp v := order.mono fun a member => List.mem_cons_of_mem x member
  constructor
  · intro p k child notHere
    by_cases moved : p = slot
    · subst moved
      intro y b hy hb
      rw [List.getElem?_set_self inside] at hy
      cases hy
      have between := heap.across order' inside parent child a b
        (by rwa [List.getElem?_set_ne (by unfold Child at parent; omega)]) hb
      rw [List.getElem?_set_ne notHere.symm] at hb
      have memberA := List.mem_cons_of_mem x (List.mem_of_getElem? ha)
      exact order.trans x List.mem_cons_self a memberA b
        (List.mem_cons_of_mem x (List.mem_of_getElem? hb))
        (order.asymm a memberA x List.mem_cons_self high) between
    · exact fine_set moved notHere (heap p k child)
  · intro p k above below
    exact heap.across order' inside above below

end replacing

section filter

variable {keep : α → Bool}

/-- How many elements before position `p` are kept. -/
def rank (keep : α → Bool) (v : List α) (p : Nat) : Nat := (v.take p).countP keep

/-- The kept elements close up: each moves to the position of its rank. -/
theorem getElem?_filter_iff (v : List α) (r : Nat) (a : α) :
    (v.filter keep)[r]? = some a ↔ ∃ p : Nat, v[p]? = some a ∧ keep a = true ∧ rank keep v p = r := by
  induction v generalizing r with
  | nil => simp
  | cons x v ih =>
    have shifted : ∀ p : Nat, rank keep (x :: v) (p + 1) = rank keep v p + if keep x then 1 else 0 := by
      intro p
      simp only [rank, List.take_succ_cons, List.countP_cons]
    cases kept : keep x with
    | true =>
      rw [List.filter_cons_of_pos kept]
      cases r with
      | zero =>
        constructor
        · intro here
          rw [List.getElem?_cons_zero] at here
          cases here
          exact ⟨0, rfl, kept, rfl⟩
        · rintro ⟨p, at', -, ranked⟩
          cases p with
          | zero => exact at'
          | succ p =>
            rw [shifted p, kept] at ranked
            simp at ranked
      | succ r =>
        rw [List.getElem?_cons_succ, ih]
        constructor
        · rintro ⟨p, at', keepsA, ranked⟩
          exact ⟨p + 1, at', keepsA, by rw [shifted p, kept, ranked]; rfl⟩
        · rintro ⟨p, at', keepsA, ranked⟩
          cases p with
          | zero => simp [rank] at ranked
          | succ p =>
            rw [shifted p, kept] at ranked
            exact ⟨p, at', keepsA, by simpa using ranked⟩
    | false =>
      rw [List.filter_cons_of_neg (by simp [kept]), ih]
      constructor
      · rintro ⟨p, at', keepsA, ranked⟩
        exact ⟨p + 1, at', keepsA, by rw [shifted p, kept, ranked]; rfl⟩
      · rintro ⟨p, at', keepsA, ranked⟩
        cases p with
        | zero =>
          rw [List.getElem?_cons_zero] at at'
          cases at'
          rw [kept] at keepsA
          cases keepsA
        | succ p =>
          rw [shifted p, kept] at ranked
          exact ⟨p, at', keepsA, by simpa using ranked⟩

/-- When the kept elements form a heap, said of the vector before: an element
whose rank is that of a child of another one's must not belong above it. -/
theorem isHeap_filter : IsHeap comp (v.filter keep) ↔
    ∀ p q a b, v[p]? = some a → v[q]? = some b → keep a = true → keep b = true →
      Child (rank keep v p) (rank keep v q) → comp a b = false := by
  constructor
  · intro heap p q a b ha hb keepsA keepsB child
    exact heap _ _ child a b ((getElem?_filter_iff v _ a).mpr ⟨p, ha, keepsA, rfl⟩)
      ((getElem?_filter_iff v _ b).mpr ⟨q, hb, keepsB, rfl⟩)
  · intro ordered i k child a b ha hb
    obtain ⟨p, at', keepsA, rfl⟩ := (getElem?_filter_iff v _ a).mp ha
    obtain ⟨q, at'', keepsB, rfl⟩ := (getElem?_filter_iff v _ b).mp hb
    exact ordered p q a b at' at'' keepsA keepsB child

end filter

end BlmLink.Lib.BinaryHeap
