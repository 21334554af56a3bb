import BlmLink.Lib.Hoare
import BlmLink.Lib.Trace
import BlmLink.Source.BlmIoqueue

/-!
# Every registered timer is in the vector once

While a callback runs, `poll` has the firing timer in the last slot of
`timerCallbacks`, and afterwards writes it there. If the callback's own edits moved
another timer into that slot, that one is lost and the firing one is there twice
(`added_timer_lost`). As long as the firing timer still stands in the last slot
when its callback returns, the vector holds every timer that was added and not
removed exactly once, and no other (`timers_registered`).
-/
namespace BlmLink.Guarantees.TimerRegistry

open BlmLink.Lib BlmLink.Lib.BinaryHeap BlmLink.Source

variable {stl : HeapFns Nat} {q : BlmIoqueue}

/-- The vector holds exactly the live timers, each once. -/
def Registered (q : BlmIoqueue) : Prop := q.timerCallbacks.Perm q.objs.live.keys

theorem Registered.live (registered : Registered q) {p : Nat} (member : p ∈ q.timerCallbacks) :
    p ∈ q.objs.live := registered.mem_iff.mp member

theorem Registered.nodup (registered : Registered q) : q.timerCallbacks.Nodup :=
  registered.nodup_iff.mpr q.objs.live.keys_nodup

/-- No failure of any kind. -/
abbrev Total {α : Type} (x : Except Fault α) (post : α → Prop) : Prop := Safe (fun _ => True) x post

theorem reheap_total {heapFn : (Nat → Nat → Bool) → List Nat → List Nat}
    (live : ∀ p ∈ q.timerCallbacks, p ∈ q.objs.live) :
    Total (q.reheap heapFn) fun q' =>
      q' = { q with timerCallbacks := heapFn (pointerGreater q.objs) q.timerCallbacks } := by
  unfold BlmIoqueue.reheap
  rw [if_pos live]
  exact .ok rfl

theorem registered_new (registered : Registered q) (timer : TimerObj) :
    Registered { q with
      objs := q.objs.new timer, timerCallbacks := q.timerCallbacks ++ [q.objs.fresh] } := by
  show (q.timerCallbacks ++ [q.objs.fresh]).Perm (q.objs.new timer).live.keys
  rw [Objects.keys_new]
  exact (List.perm_append_singleton _ _).trans (registered.cons _)

theorem registered_set (registered : Registered q) (p : Nat) (timer : TimerObj) :
    Registered { q with objs := q.objs.set p timer } := by
  show q.timerCallbacks.Perm (q.objs.set p timer).live.keys
  rw [Objects.keys_set]
  exact registered

theorem Registered.taken (registered : Registered q) {timer : Nat} {v : List Nat}
    {objs : Objects TimerObj} (taken : (timer :: v).Perm q.timerCallbacks)
    (keys : objs.live.keys = q.objs.live.keys.erase timer) : v.Perm objs.live.keys := by
  have left := (taken.trans registered).erase timer
  rw [List.erase_cons_head] at left
  rwa [keys]

/-- What `removeObjTimers` keeps. -/
def kept (objs : Objects TimerObj) (obj : Option Nat) (p : Nat) : Bool :=
  match objs.live.lookup p with
  | none => false
  | some timer => decide (obj ≠ none ∧ some timer.callback.obj ≠ obj)

theorem filter_kept_delete {obj : Option Nat} {p : Nat} {cbs : List Nat}
    {objs objs' : Objects TimerObj} (deleted : objs.delete p = some objs')
    (others : ∀ q ∈ cbs, q ≠ p) : cbs.filter (kept objs' obj) = cbs.filter (kept objs obj) := by
  apply List.filter_congr
  intro q member
  unfold kept
  rw [Objects.lookup_delete deleted (others q member)]

/-- `removeAllCallbackFromList` deletes the other timers and moves the kept ones
together, in their order. -/
theorem removeAll_total (obj : Option Nat) (cbs rest : List Nat) (objs : Objects TimerObj)
    (live : objs.live.keys.Perm (cbs ++ rest)) :
    Total (removeAllCallbackFromList obj cbs objs) fun res =>
      res.1 = cbs.filter (kept objs obj) ∧ res.2.2.live.keys.Perm (res.1 ++ rest) ∧
      ∀ p ∈ res.1 ++ rest, res.2.2.live.lookup p = objs.live.lookup p := by
  induction cbs generalizing objs rest with
  | nil => exact .ok ⟨rfl, live, fun _ _ => rfl⟩
  | cons p cbs ih =>
    have first : p ∈ objs.live := live.symm.mem_iff.mp (by simp)
    obtain ⟨timer, found⟩ := Objects.lookup_live first
    unfold removeAllCallbackFromList
    rw [found]
    dsimp only
    split
    next stays =>
      have keeps : kept objs obj p = true := by
        simp only [kept, found, decide_eq_true_eq]
        exact stays
      apply (ih (p :: rest) objs (live.trans List.perm_middle.symm)).bind
      rintro ⟨others, removed, objs'⟩ ⟨filtered, keys, same⟩
      refine .ok ⟨?_, keys.trans List.perm_middle, ?_⟩
      · rw [List.filter_cons_of_pos keeps]
        exact congrArg _ filtered
      · intro q member
        apply same q
        simp only [List.cons_append, List.mem_cons, List.mem_append] at member ⊢
        tauto
    next goes =>
      have drops : kept objs obj p = false := by
        simp only [kept, found, decide_eq_false_iff_not]
        exact goes
      obtain ⟨objs₁, deleted, keys₁, -⟩ := objs.delete_live first
      have different : ∀ q ∈ cbs ++ rest, q ≠ p := by
        have nodup := live.nodup_iff.mp objs.live.keys_nodup
        rw [List.cons_append, List.nodup_cons] at nodup
        exact fun q member same => nodup.1 (same ▸ member)
      have left : objs₁.live.keys.Perm (cbs ++ rest) := by
        rw [keys₁]
        simpa using live.erase p
      rw [deleted]
      apply (ih rest objs₁ left).bind
      rintro ⟨others, removed, objs'⟩ ⟨filtered, keys, same⟩
      have sameKept : cbs.filter (kept objs₁ obj) = cbs.filter (kept objs obj) :=
        filter_kept_delete deleted fun q member => different q (List.mem_append_left _ member)
      refine .ok ⟨?_, keys, ?_⟩
      · rw [List.filter_cons_of_neg (by simp [drops])]
        exact filtered.trans sameKept
      · intro q member
        have there : q ∈ cbs ++ rest := left.mem_iff.mp (by
          rw [← AList.mem_keys, ← AList.lookup_isSome, ← same q member, AList.lookup_isSome,
            AList.mem_keys]
          exact keys.symm.mem_iff.mp member)
        rw [same q member, Objects.lookup_delete deleted (different q there)]

theorem add_total (registered : Registered q) (interval : CInt) (scb : Callback) (now : Time) :
    Total (q.addTimerCallback_imp stl interval scb now) fun q' => ∃ objs,
      objs = q.objs.new (.make interval scb now) ∧ q' = { q with
        objs := objs
        timerCallbacks := stl.push_heap (pointerGreater objs)
          (q.timerCallbacks ++ [q.objs.fresh]) } := by
  have new := registered_new registered (.make interval scb now)
  exact (reheap_total fun p member => new.live member).imp fun same => ⟨_, rfl, same⟩

/-- `removeTimer` of a timer in the vector deletes it, and of any other does nothing. -/
theorem removeTimer_total (registered : Registered q) (timer : Nat) :
    Total (q.removeTimer stl timer) fun res => res.2 = q ∨ ∃ i objs,
      (timer :: swapRemove q.timerCallbacks i).Perm q.timerCallbacks ∧
      objs.live.keys = q.objs.live.keys.erase timer ∧
      (∀ p ≠ timer, objs.live.lookup p = q.objs.live.lookup p) ∧
      res.2 = { q with
        objs := objs
        timerCallbacks := stl.make_heap (pointerGreater objs) (swapRemove q.timerCallbacks i) } := by
  unfold BlmIoqueue.removeTimer
  cases found : q.timerCallbacks.idxOf? timer with
  | none => exact .ok (.inl rfl)
  | some i =>
    have removed := swapRemove_found found
    have live : timer ∈ q.objs.live := registered.live (removed.mem_iff.mp List.mem_cons_self)
    obtain ⟨objs, deleted, keys, -⟩ := q.objs.delete_live live
    have left := registered.taken removed keys
    dsimp only
    rw [deleted]
    refine Safe.bind (reheap_total (q := { q with
      objs := objs, timerCallbacks := swapRemove q.timerCallbacks i })
      fun p member => left.mem_iff.mp member) ?_
    rintro _ rfl
    exact .ok (.inr ⟨i, objs, removed, keys, fun p other => Objects.lookup_delete deleted other, rfl⟩)

theorem removeObjTimers_total (registered : Registered q) (obj : Option Nat) :
    Total (q.removeObjTimers obj) fun res => ∃ objs,
      res.2 = { q with
        objs := objs, timerCallbacks := q.timerCallbacks.filter (kept q.objs obj) } ∧
      (q.timerCallbacks.filter (kept q.objs obj)).Perm objs.live.keys ∧
      ∀ p ∈ q.timerCallbacks.filter (kept q.objs obj),
        objs.live.lookup p = q.objs.live.lookup p := by
  unfold BlmIoqueue.removeObjTimers
  apply (removeAll_total obj q.timerCallbacks [] q.objs (by simpa using registered.symm)).bind
  rintro ⟨others, removed, objs⟩ ⟨filtered, keys, same⟩
  dsimp only at filtered keys same
  rw [← filtered]
  refine .ok ⟨objs, rfl, ?_, ?_⟩
  · exact List.Perm.symm (by simpa using keys)
  · exact fun p member => same p (List.mem_append_left _ member)

/-- `back() = p` when `p` is there already changes nothing. -/
theorem rearm_total (registered : Registered q) (tv : Time) {p : Nat} (now : Time)
    (parked : q.timerCallbacks.getLast? = some p) :
    Total (q.rearm stl tv p now) fun q' => ∃ timer objs,
      q.objs.live.lookup p = some timer ∧ objs = q.objs.set p (timer.resetTimer now) ∧
      q' = { q with
        objs := objs
        timerCallbacks := stl.push_heap (pointerGreater objs) q.timerCallbacks
        phase := .polling tv } := by
  unfold BlmIoqueue.rearm
  have member : p ∈ q.timerCallbacks := List.mem_of_getLast? parked
  obtain ⟨timer, found⟩ := Objects.lookup_live (registered.live member)
  have slot : q.timerCallbacks.dropLast ++ [p] = q.timerCallbacks := by
    obtain ⟨front, split⟩ := List.getLast?_eq_some_iff.mp parked
    rw [split, List.dropLast_concat]
  rw [found]
  dsimp only
  rw [if_neg (List.ne_nil_of_mem member), slot]
  refine (reheap_total (q := { q with
    objs := q.objs.set p (timer.resetTimer now), phase := .polling tv }) ?_).imp ?_
  · intro other there
    exact AList.mem_replace.mpr (registered.live there)
  · exact fun same => ⟨timer, _, rfl, rfl, same⟩

theorem due_total (registered : Registered q) (tv : Time) : Total (q.due tv) fun front =>
    ∀ p, front = some p → ∃ rest, q.timerCallbacks = p :: rest := by
  unfold BlmIoqueue.due
  split
  · exact .ok (by simp)
  next front rest split =>
    have member : front ∈ q.timerCallbacks := by rw [split]; exact List.mem_cons_self
    obtain ⟨timer, found⟩ := Objects.lookup_live (registered.live member)
    rw [found]
    refine .ok ?_
    intro p due
    obtain ⟨-, same⟩ := Option.ite_none_right_eq_some.mp due
    cases same
    exact ⟨rest, split⟩

/-- When a callback returns, its timer was not removed and stands in the last slot. -/
def Parked (q : BlmIoqueue) : BlmIoqueue.Event → Prop
  | .callbackReturned _ => ∀ tv p, q.phase = .firing tv p →
      p ∈ q.objs.live ∧ q.timerCallbacks.getLast? = some p
  | _ => True

/-- What one step can do to registered timers, with the firing one parked. -/
inductive Change (stl : HeapFns Nat) (q : BlmIoqueue) : BlmIoqueue.Event → BlmIoqueue → Prop where
  | added (interval : CInt) (scb : Callback) (now : Time) (objs : Objects TimerObj)
      (made : objs = q.objs.new (.make interval scb now)) :
      Change stl q (.addTimerCallback interval scb now) { q with
        objs := objs
        timerCallbacks := stl.push_heap (pointerGreater objs) (q.timerCallbacks ++ [q.objs.fresh]) }
  | unknown (timer : Nat) : Change stl q (.removeTimer timer) q
  | removed (timer i : Nat) (objs : Objects TimerObj)
      (taken : (timer :: swapRemove q.timerCallbacks i).Perm q.timerCallbacks)
      (keys : objs.live.keys = q.objs.live.keys.erase timer)
      (same : ∀ p ≠ timer, objs.live.lookup p = q.objs.live.lookup p) :
      Change stl q (.removeTimer timer) { q with
        objs := objs
        timerCallbacks := stl.make_heap (pointerGreater objs) (swapRemove q.timerCallbacks i) }
  | removedObj (obj : Option Nat) (objs : Objects TimerObj)
      (left : (q.timerCallbacks.filter (kept q.objs obj)).Perm objs.live.keys)
      (same : ∀ p ∈ q.timerCallbacks.filter (kept q.objs obj),
        objs.live.lookup p = q.objs.live.lookup p) :
      Change stl q (.removeObjTimers obj) { q with
        objs := objs, timerCallbacks := q.timerCallbacks.filter (kept q.objs obj) }
  | polled (tv : Time) (idle : q.phase = .idle) :
      Change stl q (.poll tv) { q with phase := .polling tv }
  | fired (tv : Time) (front : Nat) (rest : List Nat) (polling : q.phase = .polling tv)
      (split : q.timerCallbacks = front :: rest) :
      Change stl q .fire { q with
        phase := .firing tv front
        timerCallbacks := stl.pop_heap (pointerGreater q.objs) q.timerCallbacks }
  | rearmed (tv : Time) (p : Nat) (now : Time) (timer : TimerObj) (objs : Objects TimerObj)
      (firing : q.phase = .firing tv p) (found : q.objs.live.lookup p = some timer)
      (reset : objs = q.objs.set p (timer.resetTimer now)) :
      Change stl q (.callbackReturned now) { q with
        objs := objs
        timerCallbacks := stl.push_heap (pointerGreater objs) q.timerCallbacks
        phase := .polling tv }
  | done (tv : Time) (polling : q.phase = .polling tv) (ended : q.due tv = .ok none) :
      Change stl q .pollDone { q with phase := .idle }

theorem next_change (registered : Registered q) {e : BlmIoqueue.Event} (parked : Parked q e)
    {result : Except Fault BlmIoqueue} (stepped : q.next stl e = some result) :
    Total result (Change stl q e) := by
  cases e with
  | addTimerCallback interval scb now =>
    obtain ⟨-, same⟩ := Option.ite_none_right_eq_some.mp stepped
    cases same
    apply (add_total registered interval scb now).imp
    rintro _ ⟨objs, made, rfl⟩
    exact .added interval scb now objs made
  | removeTimer timer =>
    obtain ⟨-, same⟩ := Option.ite_none_right_eq_some.mp stepped
    cases same
    refine Safe.map ((removeTimer_total registered timer).imp ?_)
    rintro ⟨ret, q'⟩ (rfl | ⟨i, objs, taken, keys, same, rfl⟩)
    · exact .unknown timer
    · exact .removed timer i objs taken keys same
  | removeObjTimers obj =>
    obtain ⟨-, same⟩ := Option.ite_none_right_eq_some.mp stepped
    cases same
    refine Safe.map ((removeObjTimers_total registered obj).imp ?_)
    rintro ⟨ret, q'⟩ ⟨objs, rfl, left, same⟩
    exact .removedObj obj objs left same
  | poll tv =>
    obtain ⟨idle, same⟩ := Option.ite_none_right_eq_some.mp stepped
    cases same
    exact .ok (.polled tv idle)
  | fire =>
    simp only [BlmIoqueue.next] at stepped
    split at stepped
    next tv polling =>
      split at stepped
      next reason failed => exact absurd trivial ((due_total registered tv).fails failed)
      · cases stepped
      next front due =>
        cases stepped
        obtain ⟨rest, split⟩ := (due_total registered tv).returns due front rfl
        refine (reheap_total (q := { q with phase := .firing tv front })
          fun p member => registered.live member).imp ?_
        rintro _ rfl
        exact .fired tv front rest polling split
    · cases stepped
  | callbackReturned now =>
    simp only [BlmIoqueue.next] at stepped
    split at stepped
    next tv p firing =>
      cases stepped
      apply (rearm_total registered tv now (parked tv p firing).2).imp
      rintro _ ⟨timer, objs, found, reset, rfl⟩
      exact .rearmed tv p now timer objs firing found reset
    · cases stepped
  | pollDone =>
    simp only [BlmIoqueue.next] at stepped
    split at stepped
    next tv polling =>
      split at stepped
      next reason failed => exact absurd trivial ((due_total registered tv).fails failed)
      next ended =>
        cases stepped
        exact .ok (.done tv polling ended)
      · cases stepped
    · cases stepped

theorem registered_change (permutes : Permutes stl) (registered : Registered q)
    {e : BlmIoqueue.Event} {q' : BlmIoqueue} (change : Change stl q e q') : Registered q' := by
  cases change with
  | added interval scb now objs made =>
    subst made
    exact (permutes.push_heap _ _).trans (registered_new registered _)
  | unknown => exact registered
  | removed timer i objs taken keys same =>
    exact (permutes.make_heap _ _).trans (registered.taken taken keys)
  | removedObj obj objs left same => exact left
  | polled => exact registered
  | fired => exact (permutes.pop_heap _ _).trans registered
  | rearmed tv p now timer objs firing found reset =>
    subst reset
    exact (permutes.push_heap _ _).trans (registered_set registered p _)
  | done => exact registered

/-- The condition is exact: a return after which all timers are still registered
found its timer in the last slot. -/
theorem parked_of_registered (permutes : Permutes stl) (registered : Registered q) {now : Time}
    {q' : BlmIoqueue} (stepped : q.next stl (.callbackReturned now) = some (.ok q'))
    (after : Registered q') : Parked q (.callbackReturned now) := by
  intro tv p firing
  simp only [BlmIoqueue.next, firing, Option.some.injEq] at stepped
  unfold BlmIoqueue.rearm at stepped
  split at stepped
  · cases stepped
  next timer found =>
    have live : p ∈ q.objs.live := Objects.live_of_lookup found
    split at stepped
    · cases stepped
    next some =>
      unfold BlmIoqueue.reheap at stepped
      split at stepped
      · cases stepped
        have slots : (q.timerCallbacks.dropLast ++ [p]).Perm q.timerCallbacks := by
          have before := registered_set registered p (timer.resetTimer now)
          exact ((permutes.push_heap _ _).symm.trans after).trans before.symm
        obtain ⟨front, last, split⟩ := (List.eq_nil_or_concat' q.timerCallbacks).resolve_left some
        rw [split, List.dropLast_concat] at slots
        have same := List.singleton_perm_singleton.mp ((List.perm_append_left_iff front).mp slots)
        rw [split, List.getLast?_concat, ← same]
        exact ⟨live, rfl⟩
      · cases stepped

/-- The system of the timers, their user and their callbacks. -/
def Step (stl : HeapFns Nat) : BlmIoqueue → BlmIoqueue.Event → BlmIoqueue → Prop :=
  Trace.ofFallible (BlmIoqueue.next stl)

theorem registered_init : Registered .init := .refl _

/-- In every run in which each firing timer is still registered and in the last
slot when its callback returns, whatever the callbacks edit: at every moment the
vector holds each timer that was added and not removed exactly once and no other,
and no further step that meets the condition fails. -/
theorem timers_registered (stl : HeapFns Nat) (permutes : Permutes stl)
    (events : List BlmIoqueue.Event) (q : BlmIoqueue)
    (run : Trace.Run (Trace.Guarded (Step stl) Parked) .init events q) :
    (∀ p, q.timerCallbacks.count p =
      if q.objs.Created p ∧ p ∉ q.objs.released then 1 else 0) ∧
    (∀ e reason, Parked q e → q.next stl e ≠ some (.error reason)) := by
  have registered : Registered q := run.invariant registered_init fun before stepped =>
    registered_change permutes before ((next_change before stepped.2 stepped.1).returns rfl)
  refine ⟨q.objs.count_of_perm registered, ?_⟩
  intro e reason parked failed
  exact (next_change registered parked failed).fails rfl trivial

/-- Tick `s` seconds after the clock's zero. -/
def tick (s : Nat) : Time := ⟨BitVec.ofNat 32 s, 0⟩

/-- Two timers of different objects; the first one's callback removes the other's. -/
def firstRemovesSecond : List BlmIoqueue.Event :=
  [.addTimerCallback 1000 ⟨1, 1⟩ (tick 0), .addTimerCallback 2000 ⟨2, 1⟩ (tick 0), .poll (tick 2),
    .fire, .removeObjTimers (some 2), .callbackReturned (tick 2), .pollDone]

theorem timers_registered_removal :
    ∃ q, Trace.Run (Trace.Guarded (Step sifting) Parked) .init firstRemovesSecond q ∧
      q.timerCallbacks = [0] ∧ q.timerCallbacks.count 1 = 0 := by
  have run : ∃ q, Trace.Run (Trace.Guarded (Step sifting) Parked) .init firstRemovesSecond q ∧
      q.timerCallbacks = [0] ∧ q.objs.released = [1] := by
    refine ⟨_, .cons ⟨rfl, trivial⟩ (.cons ⟨rfl, trivial⟩ (.cons ⟨rfl, trivial⟩ (.cons ⟨rfl, trivial⟩
      (.cons ⟨rfl, trivial⟩ (.cons ⟨rfl, ?_⟩ (.cons ⟨rfl, trivial⟩ (.nil _))))))), rfl, rfl⟩
    rintro tv p ⟨⟩
    exact ⟨by decide, rfl⟩
  obtain ⟨q, run, vector, released⟩ := run
  have count := (timers_registered sifting sifting_permutes firstRemovesSecond q run).1 1
  rw [if_neg (by simp [released])] at count
  exact ⟨q, run, vector, count⟩

/-- The callback of the only timer adds a timer: after the poll the old one is in
the vector twice and the new one not at all. -/
theorem added_timer_lost :
    ¬ ∀ (stl : HeapFns Nat), HeapSpec stl → ∀ (events : List BlmIoqueue.Event) (q : BlmIoqueue),
      Trace.Run (Step stl) .init events q → q.phase = .idle → ∀ p, q.timerCallbacks.count p =
        if q.objs.Created p ∧ p ∉ q.objs.released then 1 else 0 := by
  intro claim
  have run : ∃ q, Trace.Run (Step sifting) .init
      [.addTimerCallback 1000 ⟨1, 1⟩ (tick 0), .poll (tick 2), .fire,
        .addTimerCallback 1000 ⟨1, 2⟩ (tick 2), .callbackReturned (tick 2), .pollDone] q ∧
      q.phase = .idle ∧ q.timerCallbacks = [0, 0] ∧ q.objs.fresh = 2 ∧ q.objs.released = [] :=
    ⟨_, .cons rfl (.cons rfl (.cons rfl (.cons rfl (.cons rfl (.cons rfl (.nil _)))))),
      rfl, rfl, rfl, rfl⟩
  obtain ⟨q, run, idle, vector, fresh, released⟩ := run
  have count := claim sifting sifting_spec _ q run idle 1
  rw [vector, if_pos ⟨by rw [Objects.Created, fresh]; decide, by simp [released]⟩] at count
  exact absurd count (by decide)

end BlmLink.Guarantees.TimerRegistry
