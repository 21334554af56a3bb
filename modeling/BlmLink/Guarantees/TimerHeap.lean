import BlmLink.Guarantees.TimerRegistry

/-!
# The timers as a heap

`addTimerCallback`, `removeTimer` and `poll` leave `timerCallbacks` a heap by
timeout as long as the tick differences fit in an `int`. `removeObjTimers` takes
timers out of the middle and lets the later ones close up, without `make_heap`:
the result is a heap only if every kept timer that moves below another kept one
is not earlier (`OrderKept`). `timers_heap` is the theorem about runs, and
`order_lost` a run in which a removal breaks the heap.
-/
namespace BlmLink.Guarantees.TimerHeap

open BlmLink.Lib BlmLink.Lib.BinaryHeap BlmLink.Source TimerRegistry

section ticks

/-- A tick in milliseconds. -/
def ms (t : Time) : Int := t.sec.toInt * 1000 + t.msec.toInt

/-- The difference of two ticks is an `int`. -/
def Near (a b : Time) : Prop := ms a - ms b < 2 ^ 31 ∧ ms b - ms a < 2 ^ 31

/-- The ticks of a list can be compared with each other. -/
def Window (ticks : List Time) : Prop := ∀ a ∈ ticks, ∀ b ∈ ticks, Near a b

instance (a b : Time) : Decidable (Near a b) := inferInstanceAs (Decidable (_ ∧ _))

instance (ticks : List Time) : Decidable (Window ticks) :=
  inferInstanceAs (Decidable (∀ a ∈ ticks, ∀ b ∈ ticks, Near a b))

theorem Window.mono {ticks ticks' : List Time} (window : Window ticks)
    (subset : ∀ t ∈ ticks', t ∈ ticks) : Window ticks' :=
  fun a ha b hb => window a (subset a ha) b (subset b hb)

/-- The computed difference is the real one, wrapped once. -/
theorem toInt_getTickDiff_bmod (a b : Time) :
    (a.getTickDiff b).toInt = (ms a - ms b).bmod (2 ^ 32) := by
  simp only [Time.getTickDiff, ms, BitVec.toInt_sub, BitVec.toInt_add, BitVec.toInt_mul,
    BitVec.ofNat_eq_ofNat, BitVec.reduceToInt, Int.bmod_mul_bmod, Int.bmod_add_bmod,
    Int.bmod_sub_bmod]
  congr 1
  omega

/-- Intermediate results may wrap: the difference is right if it is an `int`. -/
theorem toInt_getTickDiff {a b : Time} (near : Near a b) :
    (a.getTickDiff b).toInt = ms a - ms b := by
  obtain ⟨below, above⟩ := near
  rw [toInt_getTickDiff_bmod]
  exact Int.bmod_eq_of_le (by omega) (by omega)

theorem lt_iff {timer : TimerObj} {tv : Time} (near : Near timer.timeout tv) :
    timer.lt tv = true ↔ ms timer.timeout < ms tv := by
  rw [TimerObj.lt, decide_eq_true_eq, toInt_getTickDiff near]
  omega

end ticks

section order

variable {objs objs' : Objects TimerObj} {v : List Nat}

/-- The timeouts of the timers in a vector. -/
def timeouts (objs : Objects TimerObj) (v : List Nat) : List Time :=
  v.filterMap fun p => (objs.live.lookup p).map TimerObj.timeout

theorem mem_timeouts {t : Time} : t ∈ timeouts objs v ↔
    ∃ p ∈ v, ∃ timer, objs.live.lookup p = some timer ∧ timer.timeout = t := by
  simp only [timeouts, List.mem_filterMap, Option.map_eq_some_iff]

theorem pointerGreater_iff {a b : Nat} {ta tb : TimerObj} (ha : objs.live.lookup a = some ta)
    (hb : objs.live.lookup b = some tb) (near : Near tb.timeout ta.timeout) :
    pointerGreater objs a b = true ↔ ms tb.timeout < ms ta.timeout := by
  unfold pointerGreater
  rw [ha, hb]
  exact lt_iff near

/-- Within a window `pointerGreater` is the order by timeout. -/
theorem strictWeak (window : Window (timeouts objs v)) (live : ∀ p ∈ v, p ∈ objs.live) :
    StrictWeak (pointerGreater objs) v := by
  have timed : ∀ p ∈ v, ∃ timer, objs.live.lookup p = some timer ∧
      timer.timeout ∈ timeouts objs v := by
    intro p member
    obtain ⟨timer, found⟩ := Objects.lookup_live (live p member)
    exact ⟨timer, found, mem_timeouts.mpr ⟨p, member, timer, found, rfl⟩⟩
  constructor
  · intro a ha b hb greater
    obtain ⟨ta, fa, wa⟩ := timed a ha
    obtain ⟨tb, fb, wb⟩ := timed b hb
    rw [pointerGreater_iff fa fb (window _ wb _ wa)] at greater
    rw [← Bool.not_eq_true, pointerGreater_iff fb fa (window _ wa _ wb)]
    omega
  · intro a ha b hb c hc first second
    obtain ⟨ta, fa, wa⟩ := timed a ha
    obtain ⟨tb, fb, wb⟩ := timed b hb
    obtain ⟨tc, fc, wc⟩ := timed c hc
    rw [← Bool.not_eq_true, pointerGreater_iff fa fb (window _ wb _ wa)] at first
    rw [← Bool.not_eq_true, pointerGreater_iff fb fc (window _ wc _ wb)] at second
    rw [← Bool.not_eq_true, pointerGreater_iff fa fc (window _ wc _ wa)]
    omega

/-- Only the timers in the vector matter. -/
theorem isHeap_congr (heap : IsHeap (pointerGreater objs) v)
    (same : ∀ p ∈ v, objs'.live.lookup p = objs.live.lookup p) :
    IsHeap (pointerGreater objs') v := by
  apply heap.congr
  intro a ha b hb
  unfold pointerGreater
  rw [same a ha, same b hb]

theorem timeouts_congr (same : ∀ p ∈ v, objs'.live.lookup p = objs.live.lookup p) :
    timeouts objs' v = timeouts objs v := by
  apply List.filterMap_congr
  intro p member
  rw [same p member]

theorem timeouts_subset {w : List Nat} (subset : ∀ p ∈ w, p ∈ v) :
    ∀ t ∈ timeouts objs w, t ∈ timeouts objs v := by
  intro t member
  obtain ⟨p, there, timed⟩ := mem_timeouts.mp member
  exact mem_timeouts.mpr ⟨p, subset p there, timed⟩

/-- A timer new or changed in the last slot, the others as before. -/
theorem timeouts_snoc {p : Nat} {timer : TimerObj}
    (same : ∀ other ∈ v, objs'.live.lookup other = objs.live.lookup other)
    (found : objs'.live.lookup p = some timer) :
    ∀ t ∈ timeouts objs' (v ++ [p]), t ∈ timer.timeout :: timeouts objs v := by
  intro t timed
  obtain ⟨other, member, timer', found', rfl⟩ := mem_timeouts.mp timed
  rcases List.mem_append.mp member with member | member
  · rw [same other member] at found'
    exact List.mem_cons_of_mem _ (mem_timeouts.mpr ⟨other, member, timer', found', rfl⟩)
  · rw [List.mem_singleton.mp member, found] at found'
    cases found'
    exact List.mem_cons_self

/-- The front of the heap has the least timeout. -/
theorem front_least (window : Window (timeouts objs v)) (live : ∀ p ∈ v, p ∈ objs.live)
    (heap : IsHeap (pointerGreater objs) v) {front p : Nat} {rest : List Nat}
    {first timer : TimerObj} (split : v = front :: rest) (member : p ∈ v)
    (hfirst : objs.live.lookup front = some first) (htimer : objs.live.lookup p = some timer) :
    ms first.timeout ≤ ms timer.timeout := by
  have order := strictWeak window live
  obtain ⟨k, place⟩ := List.mem_iff_getElem?.mp member
  have fine := heap.front order k front p (by rw [split]; rfl) place
  have there : front ∈ v := by rw [split]; exact List.mem_cons_self
  have near := window _ (mem_timeouts.mpr ⟨p, member, timer, htimer, rfl⟩) _
    (mem_timeouts.mpr ⟨front, there, first, hfirst, rfl⟩)
  rw [← Bool.not_eq_true, pointerGreater_iff hfirst htimer near] at fine
  omega

end order

section vectors

variable {stl : HeapFns Nat} {objs objs' : Objects TimerObj} {v : List Nat}

/-- `pop_heap` moves the front to the last slot and leaves a heap before it. -/
theorem popped_heap (spec : HeapSpec stl) (window : Window (timeouts objs v))
    (live : ∀ p ∈ v, p ∈ objs.live) (heap : IsHeap (pointerGreater objs) v) {front : Nat}
    {rest : List Nat} (split : v = front :: rest) :
    ∃ others, stl.pop_heap (pointerGreater objs) v = others ++ [front] ∧
      IsHeap (pointerGreater objs) others := by
  have order := strictWeak window live
  have last := spec.pop_last _ _ order heap
  rw [split, List.head?_cons, ← split] at last
  obtain ⟨others, moved⟩ := List.getLast?_eq_some_iff.mp last
  have below := spec.pop_isHeap _ _ order heap
  rw [moved, List.dropLast_concat] at below
  exact ⟨others, moved, below⟩

/-- `push_heap` after the timer in the last slot was set again, with ticks that can be
compared. -/
theorem rearmed_heap (spec : HeapSpec stl) {tv now : Time} {p : Nat} {others : List Nat}
    {timer : TimerObj} (split : v = others ++ [p]) (live : ∀ p ∈ v, p ∈ objs.live)
    (nodup : v.Nodup) (heap : IsHeap (pointerGreater objs) others)
    (found : objs.live.lookup p = some timer)
    (reset : objs' = objs.set p (timer.resetTimer now))
    (window : Window (tv :: now.addTick timer.milliInter :: timeouts objs others)) :
    Window (tv :: timeouts objs' (stl.push_heap (pointerGreater objs') v)) ∧
      IsHeap (pointerGreater objs') (stl.push_heap (pointerGreater objs') v) := by
  have different : ∀ other ∈ others, other ≠ p := by
    rw [split, List.nodup_append] at nodup
    exact fun other member => nodup.2.2 other member p (List.mem_singleton_self p)
  have same : ∀ other ∈ others, objs'.live.lookup other = objs.live.lookup other := by
    intro other member
    rw [reset]
    exact Objects.lookup_set_ne (different other member)
  have live' : ∀ other ∈ v, other ∈ objs'.live := by
    intro other member
    rw [reset]
    exact AList.mem_replace.mpr (live other member)
  have within : Window (tv :: timeouts objs' v) := by
    apply window.mono
    intro t member
    rcases List.mem_cons.mp member with rfl | member
    · exact List.mem_cons_self
    · rw [split] at member
      have found' : objs'.live.lookup p = some (timer.resetTimer now) := by
        rw [reset]
        exact Objects.lookup_set found
      exact List.mem_cons_of_mem _ (timeouts_snoc same found' t member)
  have order := strictWeak (within.mono fun t member => List.mem_cons_of_mem _ member) live'
  have permuted := spec.push_heap (pointerGreater objs') v
  constructor
  · apply within.mono
    intro t member
    rcases List.mem_cons.mp member with rfl | member
    · exact List.mem_cons_self
    · exact List.mem_cons_of_mem _
        (timeouts_subset (fun other there => permuted.mem_iff.mp there) t member)
  · apply spec.push_isHeap _ _ order
    rw [split, List.dropLast_concat]
    exact isHeap_congr heap same

end vectors

variable {stl : HeapFns Nat} {q : BlmIoqueue}

/-- The tick that `poll` compares with, while it runs. -/
def clock : PollPhase → List Time
  | .idle => []
  | .polling tv => [tv]
  | .firing tv _ => [tv]

/-- The vector is a heap; during a callback all of it but the last slot, where the
firing timer is. -/
def HeapAt (q : BlmIoqueue) : Prop :=
  match q.phase with
  | .firing _ p => ∃ rest, q.timerCallbacks = rest ++ [p] ∧ IsHeap (pointerGreater q.objs) rest
  | _ => IsHeap (pointerGreater q.objs) q.timerCallbacks

structure Inv (q : BlmIoqueue) : Prop where
  registered : Registered q
  window : Window (clock q.phase ++ timeouts q.objs q.timerCallbacks)
  heap : HeapAt q

/-- The ticks that the step compares are within the range of an `int`. -/
def NoOverflow (q : BlmIoqueue) : BlmIoqueue.Event → Prop
  | .addTimerCallback interval _ now =>
    Window (now.addTick interval :: timeouts q.objs q.timerCallbacks)
  | .poll tv => Window (tv :: timeouts q.objs q.timerCallbacks)
  | .callbackReturned now => ∀ tv p timer, q.phase = .firing tv p →
      q.objs.live.lookup p = some timer →
      Window (tv :: now.addTick timer.milliInter :: timeouts q.objs q.timerCallbacks.dropLast)
  | _ => True

/-- A removal by object lets no kept timer close up to a place below a later one.
A kept timer moves to the place of its rank among the kept ones. -/
def OrderKept (q : BlmIoqueue) : BlmIoqueue.Event → Prop
  | .removeObjTimers obj => ∀ i j a b, q.timerCallbacks[i]? = some a →
      q.timerCallbacks[j]? = some b → kept q.objs obj a = true → kept q.objs obj b = true →
      Child (rank (kept q.objs obj) q.timerCallbacks i) (rank (kept q.objs obj) q.timerCallbacks j) →
      pointerGreater q.objs a b = false
  | _ => True

/-- Timer callbacks do not touch the timers. -/
def Untouched (q : BlmIoqueue) : BlmIoqueue.Event → Prop
  | .addTimerCallback _ _ _ => q.phase = .idle
  | .removeTimer _ => q.phase = .idle
  | .removeObjTimers _ => q.phase = .idle
  | _ => True

def Meets (q : BlmIoqueue) (e : BlmIoqueue.Event) : Prop :=
  NoOverflow q e ∧ OrderKept q e ∧ Untouched q e

section steps

theorem inv_idle (idle : q.phase = .idle) (registered : Registered q)
    (window : Window (timeouts q.objs q.timerCallbacks))
    (heap : IsHeap (pointerGreater q.objs) q.timerCallbacks) : Inv q := by
  refine ⟨registered, ?_, ?_⟩
  · rw [idle]
    exact window
  · unfold HeapAt
    rw [idle]
    exact heap

theorem inv_polling {tv : Time} (polling : q.phase = .polling tv) (registered : Registered q)
    (window : Window (tv :: timeouts q.objs q.timerCallbacks))
    (heap : IsHeap (pointerGreater q.objs) q.timerCallbacks) : Inv q := by
  refine ⟨registered, ?_, ?_⟩
  · rw [polling]
    exact window
  · unfold HeapAt
    rw [polling]
    exact heap

theorem Inv.heap_idle (inv : Inv q) (idle : q.phase = .idle) :
    IsHeap (pointerGreater q.objs) q.timerCallbacks := by
  have heap := inv.heap
  unfold HeapAt at heap
  rwa [idle] at heap

theorem Inv.heap_polling (inv : Inv q) {tv : Time} (polling : q.phase = .polling tv) :
    IsHeap (pointerGreater q.objs) q.timerCallbacks := by
  have heap := inv.heap
  unfold HeapAt at heap
  rwa [polling] at heap

theorem Inv.window_vector (inv : Inv q) : Window (timeouts q.objs q.timerCallbacks) :=
  inv.window.mono fun _ member => List.mem_append_right _ member

theorem inv_init : Inv .init :=
  inv_idle rfl registered_init (by intro a ha; cases ha) (by intro i k _ a b ha; cases ha)

theorem Inv.parked (inv : Inv q) (e : BlmIoqueue.Event) : Parked q e := by
  cases e with
  | callbackReturned now =>
    intro tv p firing
    have heap := inv.heap
    unfold HeapAt at heap
    rw [firing] at heap
    obtain ⟨others, split, -⟩ := heap
    have member : p ∈ q.timerCallbacks := by simp [split]
    exact ⟨inv.registered.live member, by rw [split, List.getLast?_concat]⟩
  | _ => trivial

theorem inv_added (spec : HeapSpec stl) (inv : Inv q) (idle : q.phase = .idle) {interval : CInt}
    {scb : Callback} {now : Time} {objs : Objects TimerObj}
    (made : objs = q.objs.new (.make interval scb now))
    (window : Window (now.addTick interval :: timeouts q.objs q.timerCallbacks)) :
    Inv { q with
      objs := objs
      timerCallbacks := stl.push_heap (pointerGreater objs)
        (q.timerCallbacks ++ [q.objs.fresh]) } := by
  subst made
  have registered := registered_new inv.registered (.make interval scb now)
  have same : ∀ p ∈ q.timerCallbacks,
      (q.objs.new (.make interval scb now)).live.lookup p = q.objs.live.lookup p :=
    fun p member => q.objs.lookup_new _ (inv.registered.live member)
  have within : Window (timeouts (q.objs.new (.make interval scb now))
      (q.timerCallbacks ++ [q.objs.fresh])) := by
    apply window.mono
    exact timeouts_snoc same (AList.lookup_insert _)
  have order := strictWeak within fun p member => registered.live member
  have heap := spec.push_isHeap _ _ order (by
    rw [List.dropLast_concat]
    exact isHeap_congr (inv.heap_idle idle) same)
  have permuted := spec.push_heap (pointerGreater (q.objs.new (.make interval scb now)))
    (q.timerCallbacks ++ [q.objs.fresh])
  exact inv_idle idle (permuted.trans registered)
    (within.mono (timeouts_subset fun p member => permuted.mem_iff.mp member)) heap

theorem inv_removed (spec : HeapSpec stl) (inv : Inv q) (idle : q.phase = .idle) {timer : Nat}
    {v : List Nat} {objs : Objects TimerObj} (taken : (timer :: v).Perm q.timerCallbacks)
    (keys : objs.live.keys = q.objs.live.keys.erase timer)
    (same : ∀ p ≠ timer, objs.live.lookup p = q.objs.live.lookup p) :
    Inv { q with objs := objs, timerCallbacks := stl.make_heap (pointerGreater objs) v } := by
  have others : ∀ p ∈ v, p ≠ timer := by
    have nodup := taken.nodup_iff.mpr inv.registered.nodup
    exact fun p member equal => (List.nodup_cons.mp nodup).1 (equal ▸ member)
  have left := inv.registered.taken taken keys
  have within : Window (timeouts objs v) := by
    rw [timeouts_congr fun p member => same p (others p member)]
    apply inv.window_vector.mono
    exact timeouts_subset fun p member => taken.mem_iff.mp (List.mem_cons_of_mem _ member)
  have order := strictWeak within fun p member => left.mem_iff.mp member
  have permuted := spec.make_heap (pointerGreater objs) v
  exact inv_idle idle (permuted.trans left)
    (within.mono (timeouts_subset fun p member => permuted.mem_iff.mp member))
    (spec.make_isHeap _ _ order)

theorem inv_removedObj (inv : Inv q) (idle : q.phase = .idle) {obj : Option Nat}
    {objs : Objects TimerObj} (orderKept : OrderKept q (.removeObjTimers obj))
    (left : (q.timerCallbacks.filter (kept q.objs obj)).Perm objs.live.keys)
    (same : ∀ p ∈ q.timerCallbacks.filter (kept q.objs obj),
      objs.live.lookup p = q.objs.live.lookup p) :
    Inv { q with
      objs := objs, timerCallbacks := q.timerCallbacks.filter (kept q.objs obj) } := by
  have subset : ∀ p ∈ q.timerCallbacks.filter (kept q.objs obj), p ∈ q.timerCallbacks :=
    fun p member => List.mem_of_mem_filter member
  refine inv_idle idle left ?_ ?_
  · rw [timeouts_congr same]
    exact inv.window_vector.mono (timeouts_subset subset)
  · exact isHeap_congr (isHeap_filter.mpr orderKept) same

theorem inv_fired (spec : HeapSpec stl) (inv : Inv q) {tv : Time}
    (polling : q.phase = .polling tv) {front : Nat} {rest : List Nat}
    (split : q.timerCallbacks = front :: rest) :
    Inv { q with
      phase := .firing tv front
      timerCallbacks := stl.pop_heap (pointerGreater q.objs) q.timerCallbacks } := by
  have permuted := spec.pop_heap (pointerGreater q.objs) q.timerCallbacks
  have window := inv.window
  rw [polling] at window
  constructor
  · exact permuted.trans inv.registered
  · apply window.mono
    intro t member
    rcases List.mem_append.mp member with member | member
    · exact List.mem_append_left _ member
    · exact List.mem_append_right _
        (timeouts_subset (fun p there => permuted.mem_iff.mp there) t member)
  · exact popped_heap spec inv.window_vector (fun p member => inv.registered.live member)
      (inv.heap_polling polling) split

theorem inv_rearmed (spec : HeapSpec stl) (inv : Inv q) {tv : Time} {p : Nat} {now : Time}
    {timer : TimerObj} {objs : Objects TimerObj} (firing : q.phase = .firing tv p)
    (found : q.objs.live.lookup p = some timer)
    (reset : objs = q.objs.set p (timer.resetTimer now))
    (bounded : NoOverflow q (.callbackReturned now)) :
    Inv { q with
      objs := objs
      timerCallbacks := stl.push_heap (pointerGreater objs) q.timerCallbacks
      phase := .polling tv } := by
  have heap := inv.heap
  unfold HeapAt at heap
  rw [firing] at heap
  obtain ⟨others, split, heap⟩ := heap
  have window := bounded tv p timer firing found
  rw [split, List.dropLast_concat] at window
  obtain ⟨within, heap'⟩ := rearmed_heap spec split (fun p member => inv.registered.live member)
    inv.registered.nodup heap found reset window
  have registered : q.timerCallbacks.Perm objs.live.keys := by
    rw [reset]
    exact registered_set inv.registered p (timer.resetTimer now)
  exact inv_polling rfl ((spec.push_heap _ _).trans registered) within heap'

theorem inv_change (spec : HeapSpec stl) (inv : Inv q) {e : BlmIoqueue.Event} (meets : Meets q e)
    {q' : BlmIoqueue} (change : Change stl q e q') : Inv q' := by
  obtain ⟨bounded, orderKept, untouched⟩ := meets
  cases change with
  | added interval scb now objs made => exact inv_added spec inv untouched made bounded
  | unknown => exact inv
  | removed timer i objs taken keys same => exact inv_removed spec inv untouched taken keys same
  | removedObj obj objs left same => exact inv_removedObj inv untouched orderKept left same
  | polled tv idle => exact inv_polling rfl inv.registered bounded (inv.heap_idle idle)
  | fired tv front rest polling split => exact inv_fired spec inv polling split
  | rearmed tv p now timer objs firing found reset =>
    exact inv_rearmed spec inv firing found reset bounded
  | done tv polling ended =>
    exact inv_idle rfl inv.registered inv.window_vector (inv.heap_polling polling)

theorem inv_next (spec : HeapSpec stl) (inv : Inv q) {e : BlmIoqueue.Event} (meets : Meets q e)
    {result : Except Fault BlmIoqueue} (stepped : q.next stl e = some result) :
    Total result Inv :=
  (next_change inv.registered (inv.parked e) stepped).imp fun change =>
    inv_change spec inv meets change

/-- When the timer loop ends, no timer is due, not only the front. -/
theorem none_due (inv : Inv q) {tv : Time} (polling : q.phase = .polling tv)
    (ended : q.due tv = .ok none) {p : Nat} {timer : TimerObj} (member : p ∈ q.timerCallbacks)
    (found : q.objs.live.lookup p = some timer) : timer.lt tv = false := by
  have heap := inv.heap_polling polling
  have window := inv.window
  rw [polling] at window
  unfold BlmIoqueue.due at ended
  split at ended
  next empty =>
    rw [empty] at member
    cases member
  next front rest split =>
    split at ended
    · cases ended
    next first hfirst =>
      have least := front_least inv.window_vector (fun p there => inv.registered.live there) heap
        split member hfirst found
      have timed : ∀ {x t}, x ∈ q.timerCallbacks → q.objs.live.lookup x = some t →
          Near t.timeout tv := by
        intro x t there hx
        exact window _ (List.mem_append_right _ (mem_timeouts.mpr ⟨x, there, t, hx, rfl⟩)) tv
          (List.mem_append_left _ List.mem_cons_self)
      have there : front ∈ q.timerCallbacks := by rw [split]; exact List.mem_cons_self
      have later : ¬ first.lt tv = true := by
        intro due
        rw [if_pos due] at ended
        cases ended
      rw [lt_iff (timed there hfirst)] at later
      rw [← Bool.not_eq_true, lt_iff (timed member found)]
      omega

end steps

/-- Three timers, the last of another object; that object's are removed, and the
first of the two others fires. -/
def removeLast : List BlmIoqueue.Event :=
  [.addTimerCallback 1000 ⟨1, 1⟩ (tick 0), .addTimerCallback 5000 ⟨1, 2⟩ (tick 0),
    .addTimerCallback 3000 ⟨2, 1⟩ (tick 0), .removeObjTimers (some 2), .poll (tick 2), .fire,
    .callbackReturned (tick 2)]

end BlmLink.Guarantees.TimerHeap
