import BlmLink.Guarantees.TimerHeap

/-!
# No timer fires early

A timer's callback is called only when more than its interval has passed since
it was registered and since the end of each of its earlier calls
(`called_after_interval`). What is used of `poll` is that it calls the front of
the vector only if its timeout is before the tick of the poll, so neither the
order in the vector nor what the callbacks do to the timers matters. `addTick`
carries from milliseconds to seconds without loss as long as it stays an `int`.
-/
namespace BlmLink.Guarantees.TimerDelay

open BlmLink.Lib BlmLink.Lib.BinaryHeap BlmLink.Source TimerRegistry TimerHeap

variable {stl : HeapFns Nat} {q q' : BlmIoqueue}

section ticks

/-- The value is one of an `int`. -/
def Fits (v : Int) : Prop := -2 ^ 31 ≤ v ∧ v < 2 ^ 31

instance (v : Int) : Decidable (Fits v) := inferInstanceAs (Decidable (_ ∧ _))

/-- The two sums of `addTick` are `int` values. -/
def AddFits (now : Time) (millisec : CInt) : Prop :=
  Fits (millisec.toInt + now.msec.toInt) ∧
    Fits (now.sec.toInt + (millisec.toInt + now.msec.toInt).tdiv 1000)

instance (now : Time) (millisec : CInt) : Decidable (AddFits now millisec) :=
  inferInstanceAs (Decidable (_ ∧ _))

theorem bmod_of_fits {v : Int} (fits : Fits v) : v.bmod (2 ^ 32) = v :=
  Int.bmod_eq_of_le (by have := fits.1; omega) (by have := fits.2; omega)

/-- Quotient and remainder of the division by 1000 add up again. -/
theorem ms_addTick {now : Time} {millisec : CInt} (fits : AddFits now millisec) :
    ms (now.addTick millisec) = ms now + millisec.toInt := by
  have sum : (millisec + now.msec).toInt = millisec.toInt + now.msec.toInt := by
    rw [BitVec.toInt_add, bmod_of_fits fits.1]
  have quotient : ((millisec + now.msec).sdiv 1000).toInt =
      (millisec.toInt + now.msec.toInt).tdiv 1000 := by
    rw [BitVec.toInt_sdiv, sum]
    apply bmod_of_fits
    have parts := Int.mul_tdiv_add_tmod (millisec.toInt + now.msec.toInt) 1000
    have below := Int.tmod_lt_of_pos (millisec.toInt + now.msec.toInt) (b := 1000) (by decide)
    have above := Int.lt_tmod_of_pos (millisec.toInt + now.msec.toInt) (b := 1000) (by decide)
    obtain ⟨low, high⟩ := fits.1
    exact ⟨by simp; omega, by simp; omega⟩
  have seconds : (now.addTick millisec).sec.toInt =
      now.sec.toInt + (millisec.toInt + now.msec.toInt).tdiv 1000 := by
    simp only [Time.addTick]
    rw [BitVec.toInt_add, quotient, bmod_of_fits fits.2]
  have millis : (now.addTick millisec).msec.toInt =
      (millisec.toInt + now.msec.toInt).tmod 1000 := by
    simp only [Time.addTick]
    rw [BitVec.toInt_srem, BitVec.add_comm, sum]
    rfl
  have split := Int.mul_tdiv_add_tmod (millisec.toInt + now.msec.toInt) 1000
  unfold ms
  rw [seconds, millis]
  omega

/-- A comparison whose difference is an `int` compares the milliseconds. -/
theorem lt_of_fits {timer : TimerObj} {tv : Time} (fits : Fits (ms timer.timeout - ms tv))
    (due : timer.lt tv = true) : ms timer.timeout < ms tv := by
  rw [TimerObj.lt, decide_eq_true_eq, toInt_getTickDiff_bmod, bmod_of_fits fits] at due
  omega

end ticks

section steps

theorem reheap_ok {heapFn : (Nat → Nat → Bool) → List Nat → List Nat}
    (ran : q.reheap heapFn = .ok q') : q'.objs = q.objs ∧ q'.phase = q.phase := by
  unfold BlmIoqueue.reheap at ran
  split at ran
  · cases ran
    exact ⟨rfl, rfl⟩
  · cases ran

theorem removeAll_below {obj : Option Nat} {cbs kept : List Nat} {objs objs' : Objects TimerObj}
    {removed : Int} (ran : removeAllCallbackFromList obj cbs objs = .ok (kept, removed, objs')) :
    objs'.Below objs ∧ objs'.fresh = objs.fresh := by
  induction cbs generalizing objs kept removed with
  | nil =>
    cases ran
    exact ⟨Objects.Below.refl _, rfl⟩
  | cons p cbs ih =>
    unfold removeAllCallbackFromList at ran
    split at ran
    · cases ran
    · split at ran
      · obtain ⟨⟨others, removed', objs₁⟩, rest, returned⟩ := bind_ok ran
        cases returned
        exact ih rest
      · split at ran
        · cases ran
        next objs₁ deleted =>
          obtain ⟨⟨others, removed', objs₂⟩, rest, returned⟩ := bind_ok ran
          cases returned
          obtain ⟨below, fresh⟩ := ih rest
          exact ⟨below.trans (Objects.delete_below deleted),
            fresh.trans (Objects.delete_fresh deleted)⟩

/-- A timer is called only from the timer loop, when it is the front and due. -/
theorem fire_ok (stepped : q.next stl .fire = some (.ok q')) :
    ∃ tv front, q.phase = .polling tv ∧ q.due tv = .ok (some front) ∧
      { q with phase := .firing tv front }.reheap stl.pop_heap = .ok q' := by
  simp only [BlmIoqueue.next] at stepped
  split at stepped
  next tv polling =>
    split at stepped
    · cases stepped
    · cases stepped
    next front due => exact ⟨tv, front, polling, due, Option.some.inj stepped⟩
  · cases stepped

theorem due_ok {tv : Time} {front : Nat} (due : q.due tv = .ok (some front)) :
    ∃ timer rest, q.timerCallbacks = front :: rest ∧ q.objs.live.lookup front = some timer ∧
      timer.lt tv = true := by
  unfold BlmIoqueue.due at due
  split at due
  · cases due
  next first rest split =>
    split at due
    · cases due
    next timer found =>
      obtain ⟨before, same⟩ := Option.ite_none_right_eq_some.mp (Except.ok.inj due)
      cases same
      exact ⟨timer, rest, split, found, before⟩

/-- What a step does to the timers. One that was made before it keeps as it is or deletes, or,
when its callback returns, it sets its timeout. A new one was just added. -/
structure Aged (q : BlmIoqueue) (e : BlmIoqueue.Event) (q' : BlmIoqueue) : Prop where
  fresh : q.objs.fresh ≤ q'.objs.fresh
  lookup : ∀ {p timer}, p < q.objs.fresh → q'.objs.live.lookup p = some timer →
    q.objs.live.lookup p = some timer ∨
      ∃ now tv old, e = .callbackReturned now ∧ q.phase = .firing tv p ∧
        q.objs.live.lookup p = some old ∧ timer = old.resetTimer now
  made : ∀ {p timer}, q.objs.fresh ≤ p → q'.objs.live.lookup p = some timer →
    ∃ interval scb now, e = .addTimerCallback interval scb now ∧ p = q.objs.fresh ∧
      timer = .make interval scb now

theorem aged_below {e : BlmIoqueue.Event} (below : q'.objs.Below q.objs)
    (fresh : q'.objs.fresh = q.objs.fresh) : Aged q e q' where
  fresh := Nat.le_of_eq fresh.symm
  lookup := fun _ found => .inl (below.lookup found)
  made := by
    intro p timer new found
    have old := q.objs.live_lt p (Objects.live_of_lookup (below.lookup found))
    omega

theorem aged_same {e : BlmIoqueue.Event} (same : q'.objs = q.objs) : Aged q e q' :=
  aged_below (same ▸ Objects.Below.refl _) (same ▸ rfl)

theorem aged_removeTimer {timer : Nat} {ret : Int}
    (ran : q.removeTimer stl timer = .ok (ret, q')) : Aged q (.removeTimer timer) q' := by
  unfold BlmIoqueue.removeTimer at ran
  split at ran
  · cases ran
    exact aged_same rfl
  · split at ran
    · cases ran
    next objs deleted =>
      obtain ⟨q₁, heaped, returned⟩ := bind_ok ran
      cases returned
      obtain ⟨same, -⟩ := reheap_ok heaped
      exact aged_below (same ▸ Objects.delete_below deleted) (same ▸ Objects.delete_fresh deleted)

theorem aged_removeObjTimers {obj : Option Nat} {ret : Int}
    (ran : q.removeObjTimers obj = .ok (ret, q')) : Aged q (.removeObjTimers obj) q' := by
  obtain ⟨⟨kept, removed, objs⟩, inner, returned⟩ := bind_ok ran
  cases returned
  obtain ⟨below, fresh⟩ := removeAll_below inner
  exact aged_below below fresh

theorem rearm_ok {tv now : Time} {p : Nat} (ran : q.rearm stl tv p now = .ok q') :
    ∃ timer, q.objs.live.lookup p = some timer ∧
      q'.objs = q.objs.set p (timer.resetTimer now) ∧ q'.phase = .polling tv := by
  unfold BlmIoqueue.rearm at ran
  split at ran
  · cases ran
  next timer found =>
    split at ran
    · cases ran
    · obtain ⟨objs, phase⟩ := reheap_ok ran
      exact ⟨timer, found, objs, phase⟩

theorem aged_rearm {tv now : Time} {p : Nat} (firing : q.phase = .firing tv p)
    (ran : q.rearm stl tv p now = .ok q') : Aged q (.callbackReturned now) q' := by
  obtain ⟨timer, found, objs, -⟩ := rearm_ok ran
  constructor
  · rw [objs]
    exact Nat.le_refl _
  · intro p' timer' _ found'
    rw [objs] at found'
    by_cases same : p' = p
    · subst same
      rw [Objects.lookup_set found] at found'
      cases found'
      exact .inr ⟨now, tv, timer, rfl, firing, found, rfl⟩
    · rw [Objects.lookup_set_ne same] at found'
      exact .inl found'
  · intro p' timer' new found'
    rw [objs] at found'
    have old : p' ∈ q.objs.live := AList.mem_replace.mp (Objects.live_of_lookup found')
    have before := q.objs.live_lt p' old
    omega

theorem aged_addTimerCallback {interval : CInt} {scb : Callback} {now : Time}
    (ran : q.addTimerCallback_imp stl interval scb now = .ok q') :
    Aged q (.addTimerCallback interval scb now) q' := by
  obtain ⟨objs, -⟩ := reheap_ok ran
  constructor
  · rw [objs]
    exact Nat.le_succ _
  · intro p timer before found
    rw [objs, show (q.objs.new _).live.lookup p = q.objs.live.lookup p from
      AList.lookup_insert_ne (Nat.ne_of_lt before)] at found
    exact .inl found
  · intro p timer new found
    rw [objs] at found
    have within := (q.objs.new (.make interval scb now)).live_lt p (Objects.live_of_lookup found)
    have last : p = q.objs.fresh := Nat.le_antisymm (Nat.le_of_lt_succ within) new
    subst last
    rw [show (q.objs.new (.make interval scb now)).live.lookup q.objs.fresh = _ from
      AList.lookup_insert _] at found
    cases found
    exact ⟨interval, scb, now, rfl, rfl, rfl⟩

theorem aged_next {e : BlmIoqueue.Event} (stepped : q.next stl e = some (.ok q')) :
    Aged q e q' := by
  cases e with
  | addTimerCallback interval scb now =>
    obtain ⟨-, same⟩ := Option.ite_none_right_eq_some.mp stepped
    exact aged_addTimerCallback (Option.some.inj same)
  | removeTimer timer =>
    obtain ⟨-, same⟩ := Option.ite_none_right_eq_some.mp stepped
    obtain ⟨⟨ret, q₁⟩, ran, rfl⟩ := map_ok (Option.some.inj same)
    exact aged_removeTimer ran
  | removeObjTimers obj =>
    obtain ⟨-, same⟩ := Option.ite_none_right_eq_some.mp stepped
    obtain ⟨⟨ret, q₁⟩, ran, rfl⟩ := map_ok (Option.some.inj same)
    exact aged_removeObjTimers ran
  | poll tv =>
    obtain ⟨-, same⟩ := Option.ite_none_right_eq_some.mp stepped
    cases same
    exact aged_same rfl
  | fire =>
    obtain ⟨tv, front, -, -, ran⟩ := fire_ok stepped
    exact aged_same (reheap_ok ran).1
  | callbackReturned now =>
    simp only [BlmIoqueue.next] at stepped
    split at stepped
    next tv p firing => exact aged_rearm firing (Option.some.inj stepped)
    · cases stepped
  | pollDone =>
    simp only [BlmIoqueue.next] at stepped
    split at stepped
    · split at stepped
      · cases stepped
      · cases stepped
        exact aged_same rfl
      · cases stepped
    · cases stepped

end steps

section runs

/-- The tick that an event reads. -/
def tickOf : BlmIoqueue.Event → Option Time
  | .addTimerCallback _ _ now => some now
  | .poll tv => some tv
  | .callbackReturned now => some now
  | _ => none

/-- The tick clock does not go back. -/
def Nondecreasing (events : List BlmIoqueue.Event) : Prop :=
  (events.filterMap tickOf).Pairwise fun a b => ms a ≤ ms b

/-- The tick arithmetic of the step stays within `int`: the sums of `addTick`, and the
difference by which `poll` finds the front due. -/
def TicksFit (q : BlmIoqueue) : BlmIoqueue.Event → Prop
  | .addTimerCallback interval _ now => AddFits now interval
  | .callbackReturned now => ∀ tv p timer, q.phase = .firing tv p →
      q.objs.live.lookup p = some timer → AddFits now timer.milliInter
  | .fire => ∀ tv front rest timer, q.phase = .polling tv → q.timerCallbacks = front :: rest →
      q.objs.live.lookup front = some timer → Fits (ms timer.timeout - ms tv)
  | _ => True

/-- The steps of the timers, with tick arithmetic that does not overflow. -/
def FittingStep (stl : HeapFns Nat) : BlmIoqueue → BlmIoqueue.Event → BlmIoqueue → Prop :=
  Trace.Guarded (Step stl) TicksFit

theorem fittingStep_functional : Trace.Functional (FittingStep stl) :=
  (Trace.functional_ofFallible _).guarded _

/-- The timer `p` has this interval, and its timeout is at least the interval after `base`. -/
structure Armed (p : Nat) (interval : CInt) (base : Int) (q : BlmIoqueue) : Prop where
  made : p < q.objs.fresh
  waits : ∀ {timer}, q.objs.live.lookup p = some timer →
    timer.milliInter = interval ∧ base + interval.toInt ≤ ms timer.timeout

variable {p : Nat} {interval : CInt} {base : Int}

theorem armed_step {e : BlmIoqueue.Event} (armed : Armed p interval base q)
    (stepped : FittingStep stl q e q') (later : ∀ t, tickOf e = some t → base ≤ ms t) :
    Armed p interval base q' := by
  have aged := aged_next stepped.1
  refine ⟨Nat.lt_of_lt_of_le armed.made aged.fresh, ?_⟩
  intro timer found
  rcases aged.lookup armed.made found with same | ⟨now, tv, old, rfl, firing, before, rfl⟩
  · exact armed.waits same
  · obtain ⟨rfl, -⟩ := armed.waits before
    have sum := ms_addTick (stepped.2 tv p old firing before)
    have after := later now rfl
    refine ⟨rfl, ?_⟩
    show base + old.milliInter.toInt ≤ ms (now.addTick old.milliInter)
    omega

theorem armed_run {events : List BlmIoqueue.Event} (armed : Armed p interval base q)
    (run : Trace.Run (FittingStep stl) q events q')
    (later : ∀ t ∈ events.filterMap tickOf, base ≤ ms t) : Armed p interval base q' := by
  induction run with
  | nil => exact armed
  | @cons q q₁ q' e events first rest ih =>
    apply ih
    · apply armed_step armed first
      intro t reads
      exact later t (List.mem_filterMap.mpr ⟨e, List.mem_cons_self, reads⟩)
    · intro t member
      obtain ⟨e', there, reads⟩ := List.mem_filterMap.mp member
      exact later t (List.mem_filterMap.mpr ⟨e', List.mem_cons_of_mem _ there, reads⟩)

theorem armed_added {scb : Callback} {now : Time}
    (stepped : FittingStep stl q (.addTimerCallback interval scb now) q') :
    Armed q.objs.fresh interval (ms now) q' := by
  obtain ⟨-, same⟩ := Option.ite_none_right_eq_some.mp stepped.1
  obtain ⟨objs, -⟩ := reheap_ok (Option.some.inj same)
  constructor
  · rw [objs]
    exact Nat.lt_succ_self _
  · intro timer found
    rw [objs, show (q.objs.new (.make interval scb now)).live.lookup q.objs.fresh = _ from
      AList.lookup_insert _] at found
    cases found
    exact ⟨rfl, Int.le_of_eq (ms_addTick stepped.2).symm⟩

theorem armed_returned {tv now : Time} (armed : Armed p interval base q)
    (firing : q.phase = .firing tv p) (stepped : FittingStep stl q (.callbackReturned now) q') :
    Armed p interval (ms now) q' := by
  have ran : q.rearm stl tv p now = .ok q' := by
    have inner := stepped.1
    unfold Step Trace.ofFallible at inner
    simp only [BlmIoqueue.next, firing] at inner
    exact Option.some.inj inner
  obtain ⟨old, before, objs, -⟩ := rearm_ok ran
  obtain ⟨rfl, -⟩ := armed.waits before
  refine ⟨Nat.lt_of_lt_of_le armed.made (aged_next stepped.1).fresh, ?_⟩
  intro timer found
  rw [objs, Objects.lookup_set before] at found
  cases found
  exact ⟨rfl, Int.le_of_eq (ms_addTick (stepped.2 tv p old firing before)).symm⟩

/-- An armed timer is called only after its interval. -/
theorem armed_fired {tv : Time} (armed : Armed p interval base q)
    (fired : FittingStep stl q .fire q') (called : q'.phase = .firing tv p) :
    base + interval.toInt < ms tv := by
  obtain ⟨tv', front, polling, due, ran⟩ := fire_ok fired.1
  obtain ⟨-, phase⟩ := reheap_ok ran
  rw [phase] at called
  cases called
  obtain ⟨timer, rest, split, found, before⟩ := due_ok due
  have earlier := lt_of_fits (fired.2 tv p rest timer polling split found) before
  have waits := (armed.waits found).2
  omega

/-- The ticks after an event are not before the one it reads. -/
theorem ticks_after (pre : List BlmIoqueue.Event) {post : List BlmIoqueue.Event}
    {e : BlmIoqueue.Event} {now : Time} (clock : Nondecreasing (pre ++ e :: post))
    (reads : tickOf e = some now) : ∀ t ∈ post.filterMap tickOf, ms now ≤ ms t := by
  unfold Nondecreasing at clock
  rw [List.filterMap_append, List.filterMap_cons_some reads] at clock
  exact fun t member => List.rel_of_pairwise_cons (List.pairwise_append.mp clock).2.1 member

end runs

/-- In every run with a clock that does not go back and tick arithmetic that does not
overflow, whatever came before and whatever the callbacks do: a timer registered at tick
`now` is called at tick `t`, in a poll that began at `tv`, only if `t` is more than its
interval after `now`, and more than its interval after the end of each of its earlier calls. -/
theorem called_after_interval (stl : HeapFns Nat) (mid : List BlmIoqueue.Event)
    (interval : CInt) (scb : Callback) (now tv t : Time) (q₀ q₁ q q' : BlmIoqueue)
    (added : FittingStep stl q₀ (.addTimerCallback interval scb now) q₁)
    (after : Trace.Run (FittingStep stl) q₁ mid q)
    (clock : Nondecreasing (.addTimerCallback interval scb now :: mid))
    (fired : FittingStep stl q .fire q') (called : q'.phase = .firing tv q₀.objs.fresh)
    (reached : ms tv ≤ ms t) :
    ms now + interval.toInt < ms t ∧
    ∀ mid₁ mid₂ returned tv' q₂, mid = mid₁ ++ .callbackReturned returned :: mid₂ →
      Trace.Run (FittingStep stl) q₁ mid₁ q₂ → q₂.phase = .firing tv' q₀.objs.fresh →
      ms returned + interval.toInt < ms t := by
  have armed : Armed q₀.objs.fresh interval (ms now) q₁ := armed_added added
  have later := ticks_after [] clock rfl
  constructor
  · have waited := armed_fired (armed_run armed after later) fired called
    omega
  · intro mid₁ mid₂ returned tv' q₂ split run₁ firing
    subst split
    obtain ⟨q₂', run₁', run₂⟩ := after.append_inv
    obtain rfl := run₁.unique fittingStep_functional run₁'
    cases run₂ with
    | cons back run₂ =>
      have still : Armed q₀.objs.fresh interval (ms now) q₂ := by
        apply armed_run armed run₁
        intro t member
        rw [List.filterMap_append] at later
        exact later t (List.mem_append_left _ member)
      have again := armed_returned still firing back
      have later' := ticks_after (.addTimerCallback interval scb now :: mid₁) clock rfl
      have waited := armed_fired (armed_run again run₂ later') fired called
      omega

/-- A timer of one second, registered at 0 s, called at 2 s, and again at 4 s. -/
theorem called_after_interval_twice :
    ∃ q₁ q q', FittingStep sifting .init (.addTimerCallback 1000 ⟨1, 1⟩ (tick 0)) q₁ ∧
      Trace.Run (FittingStep sifting) q₁ [.poll (tick 2), .fire, .callbackReturned (tick 2),
        .pollDone, .poll (tick 4)] q ∧
      FittingStep sifting q .fire q' ∧ q'.phase = .firing (tick 4) 0 ∧
      ms (tick 2) + (1000 : CInt).toInt < ms (tick 4) := by
  have run : ∃ q₁ q₂ q q', FittingStep sifting .init (.addTimerCallback 1000 ⟨1, 1⟩ (tick 0)) q₁ ∧
      Trace.Run (FittingStep sifting) q₁ [.poll (tick 2), .fire] q₂ ∧
      q₂.phase = .firing (tick 2) 0 ∧
      Trace.Run (FittingStep sifting) q₁ [.poll (tick 2), .fire, .callbackReturned (tick 2),
        .pollDone, .poll (tick 4)] q ∧
      FittingStep sifting q .fire q' ∧ q'.phase = .firing (tick 4) 0 := by
    refine ⟨_, _, _, _, ⟨rfl, ?_⟩, .cons ⟨rfl, trivial⟩ (.cons ⟨rfl, ?_⟩ (.nil _)), rfl,
      .cons ⟨rfl, trivial⟩ (.cons ⟨rfl, ?_⟩ (.cons ⟨rfl, ?_⟩ (.cons ⟨rfl, trivial⟩
      (.cons ⟨rfl, trivial⟩ (.nil _))))), ⟨rfl, ?_⟩, rfl⟩
    · unfold TicksFit
      decide
    · rintro tv front rest timer ⟨⟩ ⟨⟩ ⟨⟩
      decide
    · rintro tv front rest timer ⟨⟩ ⟨⟩ ⟨⟩
      decide
    · rintro tv p timer ⟨⟩ ⟨⟩
      decide
    · rintro tv front rest timer ⟨⟩ ⟨⟩ ⟨⟩
      decide
  obtain ⟨q₁, q₂, q, q', added, run₁, firing, run, fired, called⟩ := run
  have clock : Nondecreasing [.addTimerCallback 1000 ⟨1, 1⟩ (tick 0), .poll (tick 2),
      .fire, .callbackReturned (tick 2), .pollDone, .poll (tick 4)] := by
    unfold Nondecreasing
    decide
  have waited := (called_after_interval sifting _ 1000 ⟨1, 1⟩ (tick 0) (tick 4) (tick 4) .init q₁
    q q' added run clock fired called (Int.le_refl _)).2 [.poll (tick 2), .fire]
    [.pollDone, .poll (tick 4)] (tick 2) (tick 2) q₂ rfl run₁ firing
  exact ⟨q₁, q, q', added, run, fired, called, waited⟩

end BlmLink.Guarantees.TimerDelay
