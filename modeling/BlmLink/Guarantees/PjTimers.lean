import Mathlib
import BlmLink.Guarantees.PjTimerState

/-!
# Timers of the library

pjlib/src/pj/timer.c:309-527. What the timer heap is for is a map from entries to expiry times
(`Pending`). Every sequence of schedules, cancellations and iterations of `pj_timer_heap_poll`,
callbacks and other threads that use the heap included, runs without an access outside the arrays
and without a loop that goes on, and is a run of the map (`timers_refine`): a poll fires the
pending entries that are due, the earliest first.
-/
namespace BlmLink.Guarantees.PjTimers

open BlmLink.Lib BlmLink.Lib.BinaryHeap BlmLink.Source PjTimerHeap PjTimerArrays PjTimerState

section refinement

/-- What the heap is for: the pending entries with their expiry times. -/
abbrev Pending := Nat → Option PjTimeVal

/-- The pending entries and the polls that are in their loops. -/
abbrev Timers := Pending × List (PjTimeVal × Nat)

/-- What the calls do to the pending entries, with at most `most` entries fired in a poll. -/
inductive Does (most : Nat) : Timers → PjTimers.Event → PjTimers.Output → Timers → Prop where
  | schedule {P polls p} now delay (idle : P p = none) :
      Does most (P, polls) (.schedule p now delay) (.status 0)
        (Function.update P p (some (now.add delay)), polls)
  | refuse {P polls p} now delay (pending : P p ≠ none) :
      Does most (P, polls) (.schedule p now delay) (.status PJ_EINVALIDOP) (P, polls)
  | cancel {P polls p} (pending : P p ≠ none) :
      Does most (P, polls) (.cancel p) (.count 1) (Function.update P p none, polls)
  | absent {P polls p} (idle : P p = none) : Does most (P, polls) (.cancel p) (.count 0) (P, polls)
  | poll {P polls} now : Does most (P, polls) (.poll now) .began (P, polls ++ [(now, 0)])
  /-- The entry is due, and no other expires before it. -/
  | fire {P polls i now n p t} (polling : polls[i]? = some (now, n)) (more : n < most)
      (pending : P p = some t) (due : stamp t ≤ stamp now)
      (earliest : ∀ q u, P q = some u → stamp t ≤ stamp u) :
      Does most (P, polls) (.iterate i) (.fired p)
        (Function.update P p none, polls.set i (now, n + 1))
  /-- The poll has fired as many as it may, or nothing is due. -/
  | end_ {P polls i now n} (polling : polls[i]? = some (now, n))
      (done : most ≤ n ∨ ∀ q u, P q = some u → stamp now < stamp u) :
      Does most (P, polls) (.iterate i) (.ended n) (P, polls.eraseIdx i)
  | nothing {P polls i} (none : polls[i]? = none) :
      Does most (P, polls) (.iterate i) .nothing (P, polls)

inductive DoesAll (most : Nat) :
    Timers → List PjTimers.Event → List PjTimers.Output → Timers → Prop where
  | nil {T} : DoesAll most T [] [] T
  | cons {T T' T'' e o events outputs} (first : Does most T e o T')
      (rest : DoesAll most T' events outputs T'') : DoesAll most T (e :: events) (o :: outputs) T''

/-- The pending entries of a heap: those with an id. -/
def pending (ht : PjTimerHeap) : Pending := fun p =>
  if (ht.entries p)._timer_id < 1 then none else some (ht.entries p)._timer_value

variable {ht ht' : PjTimerHeap} {v free : List Nat}

theorem pending_eq (sound : Sound ht v free) (p : Nat) :
    pending ht p = if p ∈ v then some (ht.entries p)._timer_value else none := by
  rw [pending]
  by_cases member : p ∈ v
  · have := (sound.laid.inside p member).1
    rw [if_neg (by omega), if_pos member]
  · rw [if_pos (sound.idle p member), if_neg member]

theorem pending_none (sound : Sound ht v free) {p : Nat} : pending ht p = none ↔ p ∉ v := by
  rw [pending_eq sound]
  split <;> simp [*]

theorem pending_removed {p : Nat} {w free' : List Nat} (sound : Sound ht v free)
    (sound' : Sound ht' w free') (perm : (p :: w).Perm v)
    (kept : ∀ q, q ≠ p → ht'.entries q = ht.entries q) :
    pending ht' = Function.update (pending ht) p none := by
  funext q
  by_cases here : q = p
  · subst here
    have gone := (List.nodup_cons.mp (perm.nodup_iff.mpr sound.laid.nodup)).1
    rw [Function.update_self, pending_none sound']
    exact gone
  · rw [Function.update_of_ne here, pending, pending, kept q here]

theorem schedule_does (sound : Sound ht v free) (entry : Nat) (now delay : PjTimeVal)
    (polls : List (PjTimeVal × Nat)) :
    ∃ status ht' w free', ht.schedule entry now delay = some (status, ht') ∧ Sound ht' w free' ∧
      ht'.max_entries_per_poll = ht.max_entries_per_poll ∧
      Does ht.max_entries_per_poll (pending ht, polls) (.schedule entry now delay) (.status status)
        (pending ht', polls) := by
  rw [PjTimerHeap.schedule]
  by_cases member : entry ∈ v
  · have := (sound.laid.inside entry member).1
    rw [if_neg (by omega)]
    refine ⟨_, ht, v, free, rfl, sound, rfl, .refuse now delay ?_⟩
    rw [ne_eq, pending_none sound]
    exact fun absent => absent member
  · rw [if_pos (sound.idle entry member)]
    obtain ⟨ht', w, free', ran, sound', perm, value, kept, perPoll⟩ :=
      schedule_entry_eq sound member (now.add delay)
    refine ⟨0, ht', w, free', ran, sound', perPoll, ?_⟩
    have after : pending ht' = Function.update (pending ht) entry (some (now.add delay)) := by
      funext q
      by_cases here : q = entry
      · rw [here, Function.update_self, pending_eq sound', if_pos (perm.mem_iff.mpr
          List.mem_cons_self), value]
      · rw [Function.update_of_ne here, pending, pending, kept q here]
    rw [after]
    exact .schedule now delay ((pending_none sound).mpr member)

theorem cancel_present {entry : Nat} (sound : Sound ht v free) (member : entry ∈ v) :
    ∃ ht' w free', ht.cancel entry = some (1, ht') ∧ Sound ht' w free' ∧
      ht'.max_entries_per_poll = ht.max_entries_per_poll ∧
      pending ht' = Function.update (pending ht) entry none := by
  obtain ⟨positive, inside⟩ := sound.laid.inside entry member
  rw [sound.idsSize] at inside
  obtain ⟨slot, below, at_⟩ := List.mem_iff_getElem.mp member
  have here : v[slot]? = some entry := by rw [List.getElem?_eq_getElem below, at_]
  obtain ⟨ht', w, free', ran, sound', perm, kept, perPoll⟩ := remove_node_eq sound here
  have stored := sound.laid.stored slot entry here (Nat.ne_of_lt below)
  have number := sound.laid.numbered slot entry here (Nat.ne_of_lt below)
  refine ⟨ht', w, free', ?_, sound', perPoll, pending_removed sound sound' perm kept⟩
  rw [PjTimerHeap.cancel]
  dsimp only
  rw [if_neg (by omega), number, Option.bind_eq_bind, Option.bind_some, if_neg (by omega),
    Int.toNat_natCast, stored, Option.bind_eq_bind, Option.bind_some, if_neg (by simp), ran]
  rfl

/-- An entry that is not scheduled has no id, or the one that is never given. -/
theorem cancel_absent {entry : Nat} (sound : Sound ht v free) (absent : entry ∉ v) :
    ht.cancel entry = some (0, ht) := by
  have unset := sound.idle entry absent
  rw [PjTimerHeap.cancel]
  dsimp only
  split
  · rfl
  next range =>
    rw [show (ht.entries entry)._timer_id = 0 by omega, sound.zero]
    rfl

theorem cancel_does (sound : Sound ht v free) (entry : Nat) (polls : List (PjTimeVal × Nat)) :
    ∃ count ht' w free', ht.cancel entry = some (count, ht') ∧ Sound ht' w free' ∧
      ht'.max_entries_per_poll = ht.max_entries_per_poll ∧
      Does ht.max_entries_per_poll (pending ht, polls) (.cancel entry) (.count count)
        (pending ht', polls) := by
  by_cases member : entry ∈ v
  · obtain ⟨ht', w, free', ran, sound', perPoll, after⟩ := cancel_present sound member
    refine ⟨1, ht', w, free', ran, sound', perPoll, ?_⟩
    rw [after]
    refine .cancel ?_
    rw [ne_eq, pending_none sound]
    exact fun absent => absent member
  · exact ⟨0, ht, v, free, cancel_absent sound member, sound, rfl,
      .absent ((pending_none sound).mpr member)⟩

/-- The entry at the front of the heap is the earliest. -/
theorem front_earliest {front : Nat} (sound : Sound ht v free) (first : v[0]? = some front) {q : Nat}
    {u : PjTimeVal} (present : pending ht q = some u) :
    stamp (ht.entries front)._timer_value ≤ stamp u := by
  rw [pending_eq sound] at present
  split at present
  next member =>
    cases present
    obtain ⟨k, below, at_⟩ := List.mem_iff_getElem.mp member
    have here : v[k]? = some q := by rw [List.getElem?_eq_getElem below, at_]
    exact (later_false ht _ _).mp
      (sound.ordered.front (strictWeak ht v) k front q first here)
  next => cases present

theorem iterate_does (sound : Sound ht v free) {i n : Nat} {now : PjTimeVal}
    {polls : List (PjTimeVal × Nat)} (polling : polls[i]? = some (now, n)) :
    ∃ called ht' w free', ht.pollOnce now n = some (called, ht') ∧ Sound ht' w free' ∧
      ht'.max_entries_per_poll = ht.max_entries_per_poll ∧
      ((∃ entry, called = some entry ∧ Does ht.max_entries_per_poll (pending ht, polls) (.iterate i)
          (.fired entry) (pending ht', polls.set i (now, n + 1))) ∨
        called = none ∧ Does ht.max_entries_per_poll (pending ht, polls) (.iterate i) (.ended n)
          (pending ht', polls.eraseIdx i)) := by
  rw [pollOnce]
  cases v with
  | nil =>
    have empty : ht.cur_size = 0 := sound.cur_size
    rw [if_pos empty]
    refine ⟨none, ht, [], free, rfl, sound, rfl, .inr ⟨rfl, .end_ polling (.inr ?_)⟩⟩
    intro q u present
    rw [pending_eq sound, if_neg (by simp)] at present
    cases present
  | cons front rest =>
    have first : (front :: rest)[0]? = some front := rfl
    rw [if_neg (by rw [sound.cur_size]; simp), sound.laid.stored 0 front first (by simp),
      Option.bind_eq_bind, Option.bind_some]
    split
    next ready =>
      obtain ⟨due, more⟩ := ready
      obtain ⟨ht', w, free', ran, sound', perm, kept, perPoll⟩ := remove_node_eq sound first
      rw [ran]
      refine ⟨some front, ht', w, free', rfl, sound', perPoll, .inl ⟨front, rfl, ?_⟩⟩
      rw [pending_removed sound sound' perm kept]
      refine .fire polling more ?_ ((lte_iff _ _).mp due) fun q u present =>
        front_earliest sound first present
      rw [pending_eq sound, if_pos List.mem_cons_self]
    next notReady =>
      refine ⟨none, ht, front :: rest, free, rfl, sound, rfl, .inr ⟨rfl, .end_ polling ?_⟩⟩
      by_cases more : n < ht.max_entries_per_poll
      · refine .inr fun q u present => ?_
        have late : ¬ stamp (ht.entries front)._timer_value ≤ stamp now :=
          fun due => notReady ⟨(lte_iff _ _).mpr due, more⟩
        exact (not_le.mp late).trans_le (front_earliest sound first present)
      · exact .inl (Nat.le_of_not_lt more)

/-- Every call succeeds and does to the pending entries what it is for. -/
theorem next_does {s : PjTimers} (sound : Sound s.ht v free) (e : PjTimers.Event) :
    ∃ output s' w free', s.next e = some (output, s') ∧ Sound s'.ht w free' ∧
      s'.ht.max_entries_per_poll = s.ht.max_entries_per_poll ∧
      Does s.ht.max_entries_per_poll (pending s.ht, s.polls) e output (pending s'.ht, s'.polls) := by
  cases e with
  | schedule entry now delay =>
    obtain ⟨status, ht', w, free', ran, sound', perPoll, does⟩ :=
      schedule_does sound entry now delay s.polls
    exact ⟨_, { s with ht := ht' }, w, free', by rw [PjTimers.next, ran]; rfl, sound', perPoll, does⟩
  | cancel entry =>
    obtain ⟨count, ht', w, free', ran, sound', perPoll, does⟩ := cancel_does sound entry s.polls
    exact ⟨_, { s with ht := ht' }, w, free', by rw [PjTimers.next, ran]; rfl, sound', perPoll, does⟩
  | poll now => exact ⟨_, _, v, free, rfl, sound, rfl, .poll now⟩
  | iterate i =>
    rw [PjTimers.next]
    cases polling : s.polls[i]? with
    | none => exact ⟨_, _, v, free, rfl, sound, rfl, .nothing polling⟩
    | some poll =>
      obtain ⟨now, n⟩ := poll
      obtain ⟨called, ht', w, free', ran, sound', perPoll, does⟩ := iterate_does sound polling
      dsimp only
      rw [ran]
      rcases does with ⟨entry, rfl, does⟩ | ⟨rfl, does⟩
      · exact ⟨_, _, w, free', rfl, sound', perPoll, does⟩
      · exact ⟨_, _, w, free', rfl, sound', perPoll, does⟩

/-- The induction is on the calls; the number of entries of a poll does not change. -/
theorem run_does {s : PjTimers} (sound : Sound s.ht v free) (events : List PjTimers.Event) :
    ∃ outputs s', s.run events = some (outputs, s') ∧
      DoesAll s.ht.max_entries_per_poll (pending s.ht, s.polls) events outputs
        (pending s'.ht, s'.polls) := by
  induction events generalizing s v free with
  | nil => exact ⟨[], s, rfl, .nil⟩
  | cons e events ih =>
    obtain ⟨output, s', w, free', ran, sound', perPoll, does⟩ := next_does sound e
    obtain ⟨outputs, s'', ranRest, doesRest⟩ := ih sound'
    rw [perPoll] at doesRest
    refine ⟨output :: outputs, s'', ?_, .cons does doesRest⟩
    rw [PjTimers.run, ran]
    change (PjTimers.run s' events).bind _ = _
    rw [ranRest]
    rfl

theorem sound_create (size : Nat) (entries : Nat → PjTimerEntry)
    (unset : ∀ p, (entries p)._timer_id < 1) :
    Sound (create size entries) [] (List.range' 1 (size + 1)) := by
  have ids (id : Nat) (inside : id < size + 2) :
      (create size entries).timerId id = some (-((id : Int) + 1)) := by
    rw [timerId, if_pos (by omega), create]
    dsimp only
    rw [Int.toNat_natCast, List.getElem?_map, List.getElem?_range inside, Option.map_some]
  have max_size : (create size entries).max_size = size + 2 := rfl
  refine ⟨⟨Nat.zero_le _, by simp, by simp, by simp, by simp, List.nodup_nil⟩, rfl, ?_, ?_, ?_, ?_,
    List.nodup_range', ?_, ?_, ?_, ids 0 (by omega), fun p _ => unset p⟩
  · rw [create, List.length_replicate]
  · rw [create, List.length_map, List.length_range]
  · intro i k _ a b ha
    cases ha
  · exact chain_range 1 (size + 1) (fun f _ inside => ids f (max_size ▸ inside))
      (by rw [max_size, Nat.add_comm])
  · intro f member
    obtain ⟨low, high⟩ := List.mem_range'_1.mp member
    refine ⟨low, ?_, by simp⟩
    change f < size + 2
    omega
  · rw [List.length_range']
    rfl
  · change 0 + 2 ≤ size + 2
    omega

/-- Whatever its first size, and for entries that are not scheduled yet, every sequence of calls on
the heap runs without an access outside its arrays, and does with the pending entries what the
calls are for: a poll fires, up to 64 of them, the entries that are due, always one that no pending
entry expires before, and it ends early only when nothing is due. -/
theorem timers_refine (size : Nat) (entries : Nat → PjTimerEntry)
    (unset : ∀ p, (entries p)._timer_id < 1) (events : List PjTimers.Event) :
    ∃ outputs s, PjTimers.run ⟨create size entries, []⟩ events = some (outputs, s) ∧
      DoesAll 64 (fun _ => none, []) events outputs (pending s.ht, s.polls) := by
  have sound := sound_create size entries unset
  obtain ⟨outputs, s, ran, does⟩ := run_does (s := ⟨create size entries, []⟩) sound events
  refine ⟨outputs, s, ran, ?_⟩
  have empty : pending (create size entries) = fun _ => none := by
    funext p
    exact (pending_none sound).mpr (by simp)
  rw [← empty]
  exact does

/-- Three entries on a heap that has to grow, the second cancelled; the others are due. -/
def threeCalls : List PjTimers.Event :=
  [.schedule 4 ⟨10, 0⟩ ⟨2, 500⟩, .schedule 7 ⟨10, 0⟩ ⟨0, 1500⟩, .schedule 9 ⟨10, 200⟩ ⟨1, 900⟩,
    .cancel 7, .poll ⟨13, 0⟩, .iterate 0, .iterate 0, .iterate 0]

theorem timers_refine_three : ∃ outputs s,
    PjTimers.run ⟨create 0 fun _ => ⟨-1, ⟨0, 0⟩⟩, []⟩ threeCalls = some (outputs, s) ∧
      DoesAll 64 (fun _ => none, []) threeCalls outputs (pending s.ht, s.polls) ∧
      outputs = [.status 0, .status 0, .status 0, .count 1, .began, .fired 9, .fired 4, .ended 2] := by
  obtain ⟨outputs, s, ran, does⟩ := timers_refine 0 (fun _ => ⟨-1, ⟨0, 0⟩⟩) (fun _ => by decide)
    threeCalls
  have computed : (PjTimers.run ⟨create 0 fun _ => ⟨-1, ⟨0, 0⟩⟩, []⟩ threeCalls).map Prod.fst =
      some [.status 0, .status 0, .status 0, .count 1, .began, .fired 9, .fired 4, .ended 2] := by
    decide +kernel
  rw [ran, Option.map_some, Option.some.injEq] at computed
  exact ⟨outputs, s, ran, does, computed⟩

end refinement

end BlmLink.Guarantees.PjTimers
