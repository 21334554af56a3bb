import BlmLink.Guarantees.TimerDelay

/-!
# The timer loop of `poll`

`BlmIoqueue::poll`, blmcomm.cpp:274-282, puts every timer it has called back into the
heap it is draining. A timer is set again from a clock that is not before the tick of
the poll, and with an interval that is not negative it is then not before that tick: the
timers still due become one fewer with each pass. `poll_calls_due` is about one call of
`poll` from any vector of distinct timers that is a heap; `pollTimers_run` relates the
loop to the machine that the run theorems are about.
-/
namespace BlmLink.Guarantees.PollLoop

open BlmLink.Lib BlmLink.Lib.BinaryHeap BlmLink.Source TimerRegistry TimerHeap TimerDelay

variable {stl : HeapFns Nat} {q q' : BlmIoqueue} {tv now : Time}

/-- The timer's timeout is before the tick. -/
def before (objs : Objects TimerObj) (tv : Time) (p : Nat) : Bool :=
  match objs.live.lookup p with
  | none => false
  | some timer => decide (ms timer.timeout < ms tv)

theorem before_iff {objs : Objects TimerObj} {p : Nat} : before objs tv p = true ↔
    ∃ timer, objs.live.lookup p = some timer ∧ ms timer.timeout < ms tv := by
  unfold before
  cases objs.live.lookup p with
  | none => simp
  | some timer => simp

/-- A heap of distinct live timers whose ticks can be compared with each other and with
the tick of the poll. -/
structure Ordered (q : BlmIoqueue) (tv : Time) : Prop where
  live : ∀ p ∈ q.timerCallbacks, p ∈ q.objs.live
  nodup : q.timerCallbacks.Nodup
  window : Window (tv :: timeouts q.objs q.timerCallbacks)
  heap : IsHeap (pointerGreater q.objs) q.timerCallbacks

theorem Ordered.near (ordered : Ordered q tv) {p : Nat} {timer : TimerObj}
    (member : p ∈ q.timerCallbacks) (found : q.objs.live.lookup p = some timer) :
    Near timer.timeout tv :=
  ordered.window _ (List.mem_cons_of_mem _ (mem_timeouts.mpr ⟨p, member, timer, found, rfl⟩)) _
    List.mem_cons_self

theorem Ordered.vector (ordered : Ordered q tv) : Window (timeouts q.objs q.timerCallbacks) :=
  ordered.window.mono fun _ member => List.mem_cons_of_mem _ member

/-- The loop looks at the front; it ends when no timer at all is due. -/
theorem due_cases (ordered : Ordered q tv) :
    (q.due tv = .ok none ∧ ∀ p ∈ q.timerCallbacks, before q.objs tv p = false) ∨
      ∃ front rest timer, q.due tv = .ok (some front) ∧ q.timerCallbacks = front :: rest ∧
        q.objs.live.lookup front = some timer ∧ ms timer.timeout < ms tv := by
  cases split : q.timerCallbacks with
  | nil => exact .inl ⟨by simp [BlmIoqueue.due, split], by simp⟩
  | cons front rest =>
    have member : front ∈ q.timerCallbacks := by rw [split]; exact List.mem_cons_self
    obtain ⟨timer, found⟩ := Objects.lookup_live (ordered.live front member)
    have due : q.due tv = .ok (if timer.lt tv then some front else none) := by
      simp [BlmIoqueue.due, split, found]
    have compared := lt_iff (ordered.near member found)
    by_cases early : timer.lt tv = true
    · rw [if_pos early] at due
      exact .inr ⟨front, rest, timer, due, rfl, found, compared.mp early⟩
    · rw [if_neg early] at due
      refine .inl ⟨due, ?_⟩
      intro p there
      rw [← split] at there
      rw [← Bool.not_eq_true, before_iff]
      rintro ⟨timer', found', earlier⟩
      have least := front_least ordered.vector ordered.live ordered.heap split there found found'
      rw [compared] at early
      omega

/-- The ticks that one pass compares are within the range of an `int`, and so are the
sums of `addTick`. -/
def PassFits (q : BlmIoqueue) (tv now : Time) : Prop :=
  ∀ front rest timer, q.timerCallbacks = front :: rest → q.objs.live.lookup front = some timer →
    AddFits now timer.milliInter ∧
      Window (tv :: now.addTick timer.milliInter :: timeouts q.objs rest)

/-- One pass: the front is moved to the back, set again and pushed. -/
theorem callFront_eq (tv now : Time) {front : Nat} {others : List Nat} {timer : TimerObj}
    (moved : stl.pop_heap (pointerGreater q.objs) q.timerCallbacks = others ++ [front])
    (alive : ∀ p ∈ q.timerCallbacks, p ∈ q.objs.live)
    (live : ∀ p ∈ others ++ [front], p ∈ q.objs.live)
    (found : q.objs.live.lookup front = some timer) :
    q.callFront stl tv front now = .ok { q with
      objs := q.objs.set front (timer.resetTimer now)
      timerCallbacks := stl.push_heap (pointerGreater (q.objs.set front (timer.resetTimer now)))
        (others ++ [front])
      phase := .polling tv } := by
  have live' : ∀ p ∈ others ++ [front], p ∈ (q.objs.set front (timer.resetTimer now)).live :=
    fun p member => AList.mem_replace.mpr (live p member)
  have parked : { q with phase := .firing tv front }.reheap stl.pop_heap =
      .ok { q with phase := .firing tv front, timerCallbacks := others ++ [front] } := by
    rw [← moved]
    exact if_pos alive
  unfold BlmIoqueue.callFront
  rw [parked]
  show BlmIoqueue.rearm stl { q with
    phase := .firing tv front, timerCallbacks := others ++ [front] } tv front now = _
  unfold BlmIoqueue.rearm
  simp only [found, List.append_eq_nil_iff, List.cons_ne_self, and_false, if_false,
    List.dropLast_concat]
  exact if_pos live'

/-- One pass calls the front, sets it again and leaves the same timers as a heap. -/
theorem callFront_ok (spec : HeapSpec stl) (ordered : Ordered q tv) {front : Nat}
    {rest : List Nat} {timer : TimerObj} (split : q.timerCallbacks = front :: rest)
    (found : q.objs.live.lookup front = some timer)
    (window : Window (tv :: now.addTick timer.milliInter :: timeouts q.objs rest)) :
    ∃ q', q.callFront stl tv front now = .ok q' ∧ Ordered q' tv ∧ q'.phase = .polling tv ∧
      q'.timerCallbacks.Perm q.timerCallbacks ∧
      q'.objs = q.objs.set front (timer.resetTimer now) := by
  obtain ⟨others, moved, heap⟩ :=
    popped_heap spec ordered.vector ordered.live ordered.heap split
  have popped := spec.pop_heap (pointerGreater q.objs) q.timerCallbacks
  rw [moved] at popped
  have same : others.Perm rest := by
    rw [split] at popped
    exact ((List.perm_append_singleton front others).symm.trans popped).cons_inv
  have live : ∀ p ∈ others ++ [front], p ∈ q.objs.live :=
    fun p member => ordered.live p (popped.mem_iff.mp member)
  have nodup : (others ++ [front]).Nodup := popped.nodup_iff.mpr ordered.nodup
  have within : Window (tv :: now.addTick timer.milliInter :: timeouts q.objs others) := by
    apply window.mono
    intro t member
    rcases List.mem_cons.mp member with rfl | member
    · exact List.mem_cons_self
    · rcases List.mem_cons.mp member with rfl | member
      · exact List.mem_cons_of_mem _ List.mem_cons_self
      · exact List.mem_cons_of_mem _ (List.mem_cons_of_mem _
          (timeouts_subset (fun p there => same.mem_iff.mp there) t member))
  obtain ⟨window', heap'⟩ := rearmed_heap spec rfl live nodup heap found rfl within
  have pushed := spec.push_heap (pointerGreater (q.objs.set front (timer.resetTimer now)))
    (others ++ [front])
  have pass := callFront_eq tv now moved ordered.live live found
  refine ⟨_, pass, ⟨?_, ?_, window', heap'⟩, rfl, pushed.trans popped, rfl⟩
  · intro p member
    exact AList.mem_replace.mpr (live p (pushed.mem_iff.mp member))
  · exact pushed.nodup_iff.mpr nodup

/-- Every pass of the loop fits. -/
def LoopFits (stl : HeapFns Nat) (tv : Time) : List Time → BlmIoqueue → Prop
  | [], _ => True
  | now :: readings, q => ∀ front, q.due tv = .ok (some front) → PassFits q tv now ∧
      ∀ q', q.callFront stl tv front now = .ok q' → LoopFits stl tv readings q'

/-- A timer set again is not before the tick of the poll. -/
theorem rearmed_later {objs : Objects TimerObj} {p : Nat} {timer : TimerObj}
    (found : objs.live.lookup p = some timer) (fits : AddFits now timer.milliInter)
    (positive : 0 ≤ timer.milliInter.toInt) (later : ms tv ≤ ms now) :
    before (objs.set p (timer.resetTimer now)) tv p = false := by
  rw [← Bool.not_eq_true, before_iff]
  rintro ⟨timer', found', earlier⟩
  rw [Objects.lookup_set found] at found'
  cases found'
  have sum := ms_addTick fits
  have earlier : ms (now.addTick timer.milliInter) < ms tv := earlier
  omega

theorem before_set_ne {objs : Objects TimerObj} {p other : Nat} {timer : TimerObj}
    (different : other ≠ p) : before (objs.set p timer) tv other = before objs tv other := by
  unfold before
  rw [Objects.lookup_set_ne different]

/-- A pass takes the timer it calls out of the timers that are due, and no other. -/
theorem due_erase {objs : Objects TimerObj} {p : Nat} {timer : TimerObj} {v w : List Nat}
    (nodup : v.Nodup) (same : w.Perm v)
    (later : before (objs.set p timer) tv p = false) :
    (w.filter (before (objs.set p timer) tv)).Perm ((v.filter (before objs tv)).erase p) := by
  have filtered : v.filter (before (objs.set p timer) tv) = (v.filter (before objs tv)).erase p := by
    rw [(nodup.filter _).erase_eq_filter, List.filter_filter]
    apply List.filter_congr
    intro other _
    by_cases equal : other = p
    · subst equal
      simp [later]
    · simp [before_set_ne equal, equal]
  exact filtered ▸ same.filter _

/-- Timers in the order of their timeouts. -/
def InOrder (objs : Objects TimerObj) (called : List Nat) : Prop :=
  called.Pairwise fun a b => ∀ ta tb, objs.live.lookup a = some ta →
    objs.live.lookup b = some tb → ms ta.timeout ≤ ms tb.timeout

/-- A timer keeps its interval and its callback. -/
def SameTimers (objs objs' : Objects TimerObj) : Prop :=
  ∀ p timer, objs.live.lookup p = some timer → ∃ timeout,
    objs'.live.lookup p = some { timer with timeout := timeout }

theorem sameTimers_set {objs : Objects TimerObj} {p : Nat} {timer : TimerObj} (now : Time)
    (found : objs.live.lookup p = some timer) :
    SameTimers objs (objs.set p (timer.resetTimer now)) := by
  intro other timer' found'
  by_cases equal : other = p
  · subst equal
    rw [found] at found'
    cases found'
    exact ⟨_, Objects.lookup_set found⟩
  · exact ⟨timer'.timeout, by rw [Objects.lookup_set_ne equal, found']⟩

theorem SameTimers.trans {objs₁ objs₂ objs₃ : Objects TimerObj} (first : SameTimers objs₁ objs₂)
    (second : SameTimers objs₂ objs₃) : SameTimers objs₁ objs₃ := by
  intro p timer found
  obtain ⟨timeout, found'⟩ := first p timer found
  obtain ⟨timeout', found''⟩ := second p _ found'
  exact ⟨timeout', found''⟩

/-- What the loop has done when it ends: the timers called, and the state after. -/
structure Polled (q : BlmIoqueue) (tv : Time) (called : List Nat) (q' : BlmIoqueue) : Prop where
  exactly : called.Perm (q.timerCallbacks.filter (before q.objs tv))
  inOrder : InOrder q.objs called
  vector : q'.timerCallbacks.Perm q.timerCallbacks
  timers : SameTimers q.objs q'.objs
  heap : IsHeap (pointerGreater q'.objs) q'.timerCallbacks
  left : q'.phase = .idle

/-- The loop ends at once when nothing is due. -/
theorem polled_none (ordered : Ordered q tv)
    (none : ∀ p ∈ q.timerCallbacks, before q.objs tv p = false) :
    Polled q tv [] { q with phase := .idle } where
  exactly := by
    rw [List.filter_eq_nil_iff.mpr fun p member => by simp [none p member]]
  inOrder := .nil
  vector := .refl _
  timers := fun p timer found => ⟨timer.timeout, found⟩
  heap := ordered.heap
  left := rfl

/-- A pass, followed by what the loop does from there. -/
theorem polled_cons {q₁ : BlmIoqueue} {front : Nat} {rest called : List Nat} {timer : TimerObj}
    (ordered : Ordered q tv) (split : q.timerCallbacks = front :: rest)
    (found : q.objs.live.lookup front = some timer) (early : ms timer.timeout < ms tv)
    (vector : q₁.timerCallbacks.Perm q.timerCallbacks)
    (reset : q₁.objs = q.objs.set front (timer.resetTimer now))
    (later : before q₁.objs tv front = false) (polled : Polled q₁ tv called q') :
    Polled q tv (front :: called) q' := by
  have member : front ∈ q.timerCallbacks := by rw [split]; exact List.mem_cons_self
  have due : front ∈ q.timerCallbacks.filter (before q.objs tv) :=
    List.mem_filter.mpr ⟨member, before_iff.mpr ⟨timer, found, early⟩⟩
  rw [reset] at later
  have erased := due_erase ordered.nodup vector later
  rw [← reset] at erased later
  have others : ∀ p ∈ called, p ≠ front ∧ p ∈ q.timerCallbacks := by
    intro p there
    obtain ⟨inside, soon⟩ := List.mem_filter.mp (polled.exactly.mem_iff.mp there)
    refine ⟨?_, vector.mem_iff.mp inside⟩
    rintro rfl
    rw [later] at soon
    cases soon
  refine ⟨?_, ?_, polled.vector.trans vector, ?_, polled.heap, polled.left⟩
  · exact ((polled.exactly.trans erased).cons front).trans (List.perm_cons_erase due).symm
  · refine .cons ?_ ?_
    · intro p there ta tb ha hb
      exact front_least ordered.vector ordered.live ordered.heap split (others p there).2 ha hb
    · refine polled.inOrder.imp_of_mem ?_
      intro a b ha hb ordered₁ ta tb fa fb
      refine ordered₁ ta tb ?_ ?_
      · rw [reset, Objects.lookup_set_ne (others a ha).1, fa]
      · rw [reset, Objects.lookup_set_ne (others b hb).1, fb]
  · refine SameTimers.trans ?_ polled.timers
    rw [reset]
    exact sameTimers_set now found

theorem intervals_kept {q₁ : BlmIoqueue} {front : Nat} {timer : TimerObj}
    (intervals : ∀ p ∈ q.timerCallbacks, ∀ timer, q.objs.live.lookup p = some timer →
      0 ≤ timer.milliInter.toInt)
    (member : front ∈ q.timerCallbacks) (found : q.objs.live.lookup front = some timer)
    (vector : q₁.timerCallbacks.Perm q.timerCallbacks)
    (reset : q₁.objs = q.objs.set front (timer.resetTimer now)) :
    ∀ p ∈ q₁.timerCallbacks, ∀ timer, q₁.objs.live.lookup p = some timer →
      0 ≤ timer.milliInter.toInt := by
  intro p there timer' found'
  rw [reset] at found'
  by_cases equal : p = front
  · subst equal
    rw [Objects.lookup_set found] at found'
    cases found'
    exact intervals p member timer found
  · rw [Objects.lookup_set_ne equal] at found'
    exact intervals p (vector.mem_iff.mp there) timer' found'

theorem pollTimers_pass {q₁ : BlmIoqueue} {front : Nat} {called : List Nat} {readings : List Time}
    (due : q.due tv = .ok (some front)) (ran : q.callFront stl tv front now = .ok q₁)
    (rest : BlmIoqueue.pollTimers stl tv readings q₁ = .ok (called, q')) :
    BlmIoqueue.pollTimers stl tv (now :: readings) q = .ok (front :: called, q') := by
  rw [BlmIoqueue.pollTimers, due]
  show (q.callFront stl tv front now >>= _) = _
  rw [ran]
  show (BlmIoqueue.pollTimers stl tv readings q₁ >>= _) = _
  rw [rest]
  rfl

/-- By induction on the readings: each pass leaves one due timer fewer. -/
theorem pollTimers_ok (spec : HeapSpec stl) (readings : List Time) (q : BlmIoqueue)
    (ordered : Ordered q tv)
    (intervals : ∀ p ∈ q.timerCallbacks, ∀ timer, q.objs.live.lookup p = some timer →
      0 ≤ timer.milliInter.toInt)
    (later : ∀ now ∈ readings, ms tv ≤ ms now) (fits : LoopFits stl tv readings q)
    (enough : (q.timerCallbacks.filter (before q.objs tv)).length ≤ readings.length) :
    ∃ called q', BlmIoqueue.pollTimers stl tv readings q = .ok (called, q') ∧
      Polled q tv called q' := by
  induction readings generalizing q with
  | nil =>
    rcases due_cases ordered with ⟨ended, none⟩ | ⟨front, rest, timer, _, split, found, early⟩
    · exact ⟨[], _, by rw [BlmIoqueue.pollTimers, ended]; rfl, polled_none ordered none⟩
    · have due : before q.objs tv front = true := before_iff.mpr ⟨timer, found, early⟩
      rw [split, List.filter_cons_of_pos due] at enough
      simp at enough
  | cons now readings ih =>
    rcases due_cases ordered with ⟨ended, none⟩ | ⟨front, rest, timer, due, split, found, early⟩
    · exact ⟨[], _, by rw [BlmIoqueue.pollTimers, ended]; rfl, polled_none ordered none⟩
    · obtain ⟨passFits, loopFits⟩ := fits front due
      obtain ⟨added, window⟩ := passFits front rest timer split found
      obtain ⟨q₁, ran, ordered₁, _, vector, reset⟩ :=
        callFront_ok spec ordered split found window
      have member : front ∈ q.timerCallbacks := by rw [split]; exact List.mem_cons_self
      have rearmed : before q₁.objs tv front = false := by
        rw [reset]
        exact rearmed_later found added (intervals front member timer found)
          (later now List.mem_cons_self)
      have fewer : (q₁.timerCallbacks.filter (before q₁.objs tv)).length ≤ readings.length := by
        have erased := (due_erase ordered.nodup vector (reset ▸ rearmed)).length_eq
        have soon : front ∈ q.timerCallbacks.filter (before q.objs tv) :=
          List.mem_filter.mpr ⟨member, before_iff.mpr ⟨timer, found, early⟩⟩
        rw [← reset, List.length_erase_of_mem soon] at erased
        rw [List.length_cons] at enough
        omega
      obtain ⟨called, q', rest', polled⟩ := ih q₁ ordered₁
        (intervals_kept intervals member found vector reset)
        (fun now member => later now (List.mem_cons_of_mem _ member)) (loopFits q₁ ran) fewer
      exact ⟨front :: called, q', pollTimers_pass due ran rest',
        polled_cons ordered split found early vector reset rearmed polled⟩

/-- The loop is a run of the timers in which no callback touches them. -/
theorem pollTimers_run (readings : List Time) (q : BlmIoqueue) (polling : q.phase = .polling tv)
    (called : List Nat) (ran : BlmIoqueue.pollTimers stl tv readings q = .ok (called, q')) :
    Trace.Run (Step stl) q ((readings.take called.length).flatMap
      (fun now => [.fire, .callbackReturned now]) ++ [.pollDone]) q' := by
  have done : ∀ {q : BlmIoqueue}, q.phase = .polling tv → q.due tv = .ok none →
      Step stl q .pollDone { q with phase := .idle } := by
    intro q polling ended
    unfold Step Trace.ofFallible
    simp [BlmIoqueue.next, polling, ended]
  induction readings generalizing q called with
  | nil =>
    obtain ⟨front, due, ran⟩ := bind_ok ran
    cases front with
    | none =>
      cases ran
      exact .cons (done polling due) (.nil _)
    | some front => cases ran
  | cons now readings ih =>
    obtain ⟨front, due, ran⟩ := bind_ok ran
    cases front with
    | none =>
      cases ran
      exact .cons (done polling due) (.nil _)
    | some front =>
      obtain ⟨q₁, pass, ran⟩ := bind_ok ran
      obtain ⟨⟨called', q₂⟩, rest, ran⟩ := bind_ok ran
      cases ran
      obtain ⟨q₀, popped, rearmed⟩ := bind_ok pass
      obtain ⟨_, _, _, polling₁⟩ := rearm_ok rearmed
      have fired : Step stl q .fire q₀ := by
        unfold Step Trace.ofFallible
        simp [BlmIoqueue.next, polling, due, popped]
      have firing : q₀.phase = .firing tv front := (reheap_ok popped).2
      have returned : Step stl q₀ (.callbackReturned now) q₁ := by
        unfold Step Trace.ofFallible
        simp [BlmIoqueue.next, firing, rearmed]
      exact .cons fired (.cons returned (ih q₁ polling₁ called' rest))

/-- One `poll` at tick `tv` over any vector of distinct timers that is a heap, with
intervals of at least 0, callbacks that leave the timers alone, a clock that does not go
back and tick arithmetic that does not overflow: the loop ends, having called exactly the
timers that were before `tv`, each once and in the order of their timeouts, and the vector
is a heap of the same timers. -/
theorem poll_calls_due (stl : HeapFns Nat) (spec : HeapSpec stl) (q : BlmIoqueue) (tv : Time)
    (readings : List Time) (live : ∀ p ∈ q.timerCallbacks, p ∈ q.objs.live)
    (distinct : q.timerCallbacks.Nodup)
    (heap : IsHeap (pointerGreater q.objs) q.timerCallbacks)
    (intervals : ∀ p ∈ q.timerCallbacks, ∀ timer, q.objs.live.lookup p = some timer →
      0 ≤ timer.milliInter.toInt)
    (clock : (tv :: readings).Pairwise fun a b => ms a ≤ ms b)
    (enough : q.timerCallbacks.length ≤ readings.length)
    (compared : Window (tv :: timeouts q.objs q.timerCallbacks))
    (fits : LoopFits stl tv readings { q with phase := .polling tv }) :
    ∃ called q', BlmIoqueue.pollTimers stl tv readings { q with phase := .polling tv } =
        .ok (called, q') ∧ called.Nodup ∧
      (∀ p, p ∈ called ↔ p ∈ q.timerCallbacks ∧
        ∃ timer, q.objs.live.lookup p = some timer ∧ ms timer.timeout < ms tv) ∧
      InOrder q.objs called ∧ q'.phase = .idle ∧ q'.timerCallbacks.Perm q.timerCallbacks ∧
      SameTimers q.objs q'.objs ∧ IsHeap (pointerGreater q'.objs) q'.timerCallbacks := by
  have ordered : Ordered { q with phase := .polling tv } tv := ⟨live, distinct, compared, heap⟩
  obtain ⟨called, q', ran, polled⟩ := pollTimers_ok spec readings _ ordered intervals
    (fun now member => List.rel_of_pairwise_cons clock member) fits
    (Nat.le_trans (List.length_filter_le _ _) enough)
  have once : called.Nodup := polled.exactly.nodup_iff.mpr (distinct.filter _)
  have exactly : ∀ p, p ∈ called ↔ p ∈ q.timerCallbacks ∧
      ∃ timer, q.objs.live.lookup p = some timer ∧ ms timer.timeout < ms tv := by
    intro p
    rw [polled.exactly.mem_iff, List.mem_filter, before_iff]
  exact ⟨called, q', ran, once, exactly, polled.inOrder, polled.left, polled.vector,
    polled.timers, polled.heap⟩

/-- Timers after 1, 9 and 3 s. -/
def threeTimers : BlmIoqueue where
  objs := ((Objects.init.new (.make 1000 ⟨1, 1⟩ (tick 0))).new (.make 9000 ⟨1, 2⟩ (tick 0))).new
    (.make 3000 ⟨2, 1⟩ (tick 0))
  timerCallbacks := [0, 1, 2]
  phase := .idle

/-- At 4 s the first and the last are due. -/
theorem poll_calls_due_two :
    ∃ called q', BlmIoqueue.pollTimers sifting (tick 4) [tick 4, tick 5, tick 5]
        { threeTimers with phase := .polling (tick 4) } = .ok (called, q') ∧
      called = [0, 2] ∧ InOrder threeTimers.objs called ∧
      q'.timerCallbacks.Perm [0, 1, 2] := by
  have fits : LoopFits sifting (tick 4) [tick 4, tick 5, tick 5]
      { threeTimers with phase := .polling (tick 4) } := by
    rintro _ ⟨⟩
    refine ⟨?_, ?_⟩
    · rintro front rest timer ⟨⟩ ⟨⟩
      decide
    · rintro q₁ ⟨⟩ _ ⟨⟩
      refine ⟨?_, ?_⟩
      · rintro front rest timer ⟨⟩ ⟨⟩
        decide
      · rintro q₂ ⟨⟩ _ ⟨⟩
  obtain ⟨called, q', ran, _, _, inOrder, _, vector, _⟩ := poll_calls_due sifting sifting_spec
    threeTimers (tick 4) [tick 4, tick 5, tick 5] (by decide) (by decide) (by decide)
    (by decide) (by decide) (by decide) (by decide) fits
  exact ⟨called, q', ran, by cases ran; rfl, inOrder, vector⟩

end BlmLink.Guarantees.PollLoop
