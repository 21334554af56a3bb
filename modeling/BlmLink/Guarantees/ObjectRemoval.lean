import BlmLink.Guarantees.TimerDelay
import BlmLink.Lib.Between
import BlmLink.Source.SingleComm

/-!
# After `removeObj` an object is not called

`removeObj` takes the callbacks of an object out of the timers and out of the connect,
close and message lists, but does not reach the callback of an HTTP request in
progress: its completion still calls the object (`removed_object_called`). In every
run in which no such request is in progress at a `removeObj`, and in which no freed
timer or list node is used, a callback is called after `removeObj` of its object only
if it was registered again (`removed_not_called`).

The invariant is that every callback registered anywhere was registered since the last
`removeObj` of its object; a call then finds its callback at one of these places.
-/
namespace BlmLink.Guarantees.ObjectRemoval

open BlmLink.Lib BlmLink.Lib.BinaryHeap BlmLink.Source TimerRegistry TimerDelay

variable {stl : HeapFns Nat} {s s' : SingleComm}

/-- The callback object is registered in the slot. -/
def Present (s : SingleComm) (cb : CallbackObj) : Slot → Prop
  | .timer => ∃ timer, s.timers.objs.live.lookup cb.id = some timer ∧ timer.callback = cb.callback
  | .connect => cb ∈ s.connCallbacks
  | .close => cb ∈ s.closeCallbacks
  | .message mt => ∃ cbs, (mt, cbs) ∈ s.msgMap ∧ cb ∈ cbs
  | .wget => cb ∈ s.requests

/-- The callback was registered since the last `removeObj` of its object. -/
def RegisteredSince (log : List CommEntry) (slot : Slot) (cb : CallbackObj) : Prop :=
  Between.Since (.removedObj (some cb.callback.obj)) (· = .registered slot cb) log

/-- Every callback called was registered since the last `removeObj` of its object. -/
def CallsRegistered (log : List CommEntry) : Prop :=
  ∀ before slot cb after, log = before ++ .called slot cb :: after → RegisteredSince before slot cb

structure Inv (s : SingleComm) : Prop where
  sound : s.corrupted = false
  timers : Registered s.timers
  present : ∀ {slot cb}, Present s cb slot → RegisteredSince s.log slot cb
  calls : CallsRegistered s.log

section log

theorem callsRegistered_snoc {log : List CommEntry} {entry : CommEntry}
    (before : CallsRegistered log)
    (call : ∀ slot cb, entry = .called slot cb → RegisteredSince log slot cb) :
    CallsRegistered (log ++ [entry]) := by
  intro front slot cb after split
  rcases List.eq_nil_or_concat' after with rfl | ⟨middle, last, rfl⟩
  · obtain ⟨rfl, same⟩ := List.append_inj' split rfl
    exact call slot cb (List.singleton_inj.mp same)
  · rw [← List.cons_append, ← List.append_assoc] at split
    exact before front slot cb middle (List.append_inj' split rfl).1

theorem inv_init : Inv .init where
  sound := rfl
  timers := registered_init
  present := by
    intro slot cb present
    cases slot <;> simp [Present, SingleComm.init, BlmIoqueue.init, Objects.init] at present
  calls := by simp [CallsRegistered, SingleComm.init]

/-- A step that adds an entry to the log: what is registered afterwards was registered before,
and not by an object that the entry says was removed, or is what the entry says. -/
theorem inv_entry (inv : Inv s) {entry : CommEntry} (log : s'.log = s.log ++ [entry])
    (sound : s'.corrupted = false) (timers : Registered s'.timers)
    (present : ∀ {slot cb}, Present s' cb slot →
      entry = .registered slot cb ∨
        (Present s cb slot ∧ entry ≠ .removedObj (some cb.callback.obj)))
    (call : ∀ slot cb, entry = .called slot cb → Present s cb slot) : Inv s' where
  sound := sound
  timers := timers
  present := by
    intro slot cb there
    rw [log]
    apply Between.since_snoc.mpr
    rcases present there with rfl | ⟨before, other⟩
    · exact ⟨by simp, .inl rfl⟩
    · exact ⟨other, .inr (inv.present before)⟩
  calls := by
    rw [log]
    exact callsRegistered_snoc inv.calls fun slot cb same => inv.present (call slot cb same)

/-- A step that registers one callback. -/
theorem inv_registered (inv : Inv s) {place : Slot} {new : CallbackObj}
    (log : s'.log = s.log ++ [.registered place new]) (sound : s'.corrupted = false)
    (timers : Registered s'.timers)
    (present : ∀ {slot cb}, Present s' cb slot →
      (slot = place ∧ cb = new) ∨ Present s cb slot) : Inv s' := by
  refine inv_entry inv log sound timers ?_ nofun
  intro slot cb there
  rcases present there with ⟨rfl, rfl⟩ | before
  · exact .inl rfl
  · exact .inr ⟨before, nofun⟩

/-- A step that adds nothing to the log registers nothing. -/
theorem inv_silent (inv : Inv s) (log : s'.log = s.log) (sound : s'.corrupted = false)
    (timers : Registered s'.timers)
    (present : ∀ {slot cb}, Present s' cb slot → Present s cb slot) : Inv s' where
  sound := sound
  timers := timers
  present := by
    intro slot cb there
    rw [log]
    exact inv.present (present there)
  calls := by
    rw [log]
    exact inv.calls

end log

section lists

theorem mem_removeAllFromList {obj : Option Nat} {cbs : List CallbackObj} {cb : CallbackObj} :
    cb ∈ (removeAllFromList obj cbs).1 ↔
      cb ∈ cbs ∧ obj ≠ none ∧ some cb.callback.obj ≠ obj := by
  induction cbs with
  | nil => simp [removeAllFromList]
  | cons first cbs ih =>
    unfold removeAllFromList
    dsimp only
    split
    next stays =>
      rw [List.mem_cons, ih, List.mem_cons]
      constructor
      · rintro (rfl | ⟨member, other⟩)
        · exact ⟨.inl rfl, stays⟩
        · exact ⟨.inr member, other⟩
      · rintro ⟨rfl | member, other⟩
        · exact .inl rfl
        · exact .inr ⟨member, other⟩
    next goes =>
      rw [ih, List.mem_cons]
      constructor
      · rintro ⟨member, other⟩
        exact ⟨.inr member, other⟩
      · rintro ⟨rfl | member, other⟩
        · exact absurd other goes
        · exact ⟨member, other⟩

theorem mem_pushMsg {mt mt' : Int} {cb cb' : CallbackObj} {map : List (Int × List CallbackObj)}
    {cbs : List CallbackObj} (entry : (mt', cbs) ∈ pushMsg mt cb map) (member : cb' ∈ cbs) :
    (mt' = mt ∧ cb' = cb) ∨ ∃ cbs, (mt', cbs) ∈ map ∧ cb' ∈ cbs := by
  induction map with
  | nil =>
    cases List.mem_singleton.mp entry
    exact .inl ⟨rfl, List.mem_singleton.mp member⟩
  | cons first map ih =>
    obtain ⟨mt₁, cbs₁⟩ := first
    unfold pushMsg at entry
    split at entry
    next same =>
      rcases List.mem_cons.mp entry with here | later
      · cases here
        rcases List.mem_cons.mp member with rfl | member
        · exact .inl ⟨same, rfl⟩
        · exact .inr ⟨cbs₁, List.mem_cons_self, member⟩
      · exact .inr ⟨cbs, List.mem_cons_of_mem _ later, member⟩
    · rcases List.mem_cons.mp entry with here | later
      · cases here
        exact .inr ⟨cbs, List.mem_cons_self, member⟩
      · rcases ih later with new | ⟨cbs', there, member'⟩
        · exact .inl new
        · exact .inr ⟨cbs', List.mem_cons_of_mem _ there, member'⟩

/-- What `removeObjCallbacks` leaves in the lists was there and is not bound to the object. -/
theorem present_removeObjCallbacks (s : SingleComm) (obj : Option Nat) {slot : Slot}
    {cb : CallbackObj} (there : Present (s.removeObjCallbacks obj).2 cb slot) :
    Present s cb slot ∧ (slot = .timer ∨ slot = .wget ∨ some cb.callback.obj ≠ obj) := by
  cases slot with
  | timer => exact ⟨there, .inl rfl⟩
  | wget => exact ⟨there, .inr (.inl rfl)⟩
  | connect =>
    obtain ⟨member, -, other⟩ := mem_removeAllFromList.mp there
    exact ⟨member, .inr (.inr other)⟩
  | close =>
    obtain ⟨member, -, other⟩ := mem_removeAllFromList.mp there
    exact ⟨member, .inr (.inr other)⟩
  | message mt =>
    obtain ⟨cbs, entry, member⟩ := there
    obtain ⟨⟨mt', cbs'⟩, before, same⟩ := List.mem_map.mp (List.mem_of_mem_filter entry)
    cases same
    obtain ⟨member', -, other⟩ := mem_removeAllFromList.mp member
    exact ⟨⟨cbs', before, member'⟩, .inr (.inr other)⟩

theorem mem_of_lookup {mt : Int} {cbs : List CallbackObj} {map : List (Int × List CallbackObj)}
    (found : map.lookup mt = some cbs) : (mt, cbs) ∈ map := by
  induction map with
  | nil => cases found
  | cons first map ih =>
    obtain ⟨mt', cbs'⟩ := first
    rw [List.lookup_cons] at found
    split at found
    next same =>
      cases found
      rw [beq_iff_eq] at same
      rw [same]
      exact List.mem_cons_self
    · exact List.mem_cons_of_mem _ (ih found)

/-- A walk calls what is registered in its slot. -/
theorem present_of_callbacks {slot : Slot} {cb : CallbackObj} (member : cb ∈ s.callbacks slot) :
    Present s cb slot := by
  cases slot with
  | timer => cases member
  | wget => cases member
  | connect => exact member
  | close => exact member
  | message mt =>
    change cb ∈ (s.msgMap.lookup mt).getD [] at member
    cases found : s.msgMap.lookup mt with
    | none =>
      rw [found] at member
      cases member
    | some cbs =>
      rw [found] at member
      exact ⟨cbs, mem_of_lookup found, member⟩

end lists

section steps

/-- The condition on a step: when a timer's callback returns its timer stands where `poll` left
it; when a callback of a list answers 0 its node was not erased; and `removeObj` finds no
request in progress that is bound to the object. -/
def Meets (s : SingleComm) : SingleComm.Event → Prop
  | .timer e => Parked s.timers e
  | .returned ret => ret = 0 → ∀ walk outer, s.walks = walk :: outer → walk.index ≠ none
  | .removeObj (some obj) => ∀ cb ∈ s.requests, cb.callback.obj ≠ obj
  | _ => True

theorem inv_visit (inv : Inv s) (slot : Slot) (i : Nat) (outer : List Walk) :
    Inv (s.visit slot i outer) := by
  unfold SingleComm.visit
  split
  · exact inv_silent inv rfl inv.sound inv.timers fun there => there
  next cb found =>
    refine inv_entry inv rfl inv.sound inv.timers (fun there => .inr ⟨there, by simp⟩) ?_
    rintro slot' cb' ⟨⟩
    exact present_of_callbacks (List.mem_of_getElem? found)

theorem inv_returned {ret : Int} (inv : Inv s) (meets : Meets s (.returned ret))
    (stepped : s.returned ret = some s') : Inv s' := by
  unfold SingleComm.returned at stepped
  split at stepped
  · cases stepped
  next walk outer inside =>
    split at stepped
    · cases stepped
      exact inv_silent inv rfl inv.sound inv.timers fun there => there
    next zero =>
      split at stepped
      next erased => exact absurd erased (meets (not_not.mp zero) walk outer inside)
      next i _ =>
        cases stepped
        exact inv_visit inv walk.slot (i + 1) outer

/-- A timer afterwards is one from before, or the one just added. -/
theorem present_timer {e : BlmIoqueue.Event} {q : BlmIoqueue} {cb : CallbackObj} {timer : TimerObj}
    (stepped : s.timers.next stl e = some (.ok q))
    (found : q.objs.live.lookup cb.id = some timer) (same : timer.callback = cb.callback) :
    Present s cb .timer ∨ ∃ interval now, e = .addTimerCallback interval cb.callback now ∧
      cb.id = s.timers.objs.fresh := by
  have aged := aged_next stepped
  by_cases old : cb.id < s.timers.objs.fresh
  · rcases aged.lookup old found with before | ⟨now, tv, before, -, -, found', rfl⟩
    · exact .inl ⟨timer, before, same⟩
    · exact .inl ⟨before, found', same⟩
  · obtain ⟨interval, scb, now, rfl, last, rfl⟩ := aged.made (Nat.not_lt.mp old) found
    cases same
    exact .inr ⟨interval, now, rfl, last⟩

/-- What a step of the timers leaves registered, the added timer apart. -/
theorem present_stepTimers {e : BlmIoqueue.Event} {q : BlmIoqueue} {log : List CommEntry}
    (stepped : s.timers.next stl e = some (.ok q)) {slot : Slot} {cb : CallbackObj}
    (there : Present { s with timers := q, log := log } cb slot) :
    Present s cb slot ∨ (slot = .timer ∧ ∃ interval now,
      e = .addTimerCallback interval cb.callback now ∧ cb.id = s.timers.objs.fresh) := by
  cases slot with
  | timer =>
    obtain ⟨timer, found, same⟩ := there
    rcases present_timer stepped found same with before | added
    · exact .inl before
    · exact .inr ⟨rfl, added⟩
  | connect | close | message mt | wget => exact .inl there

theorem inv_timer {e : BlmIoqueue.Event} (permutes : Permutes stl) (inv : Inv s)
    (parked : Parked s.timers e) (stepped : s.stepTimers stl e = some s') : Inv s' := by
  unfold SingleComm.stepTimers at stepped
  split at stepped
  · cases stepped
  next failed => exact absurd trivial ((next_change inv.timers parked failed).fails rfl)
  next q ran =>
    cases stepped
    have registered := registered_change permutes inv.timers
      ((next_change inv.timers parked ran).returns rfl)
    have silent : SingleComm.timerEntries s.timers q e = [] →
        (∀ interval scb now, e ≠ .addTimerCallback interval scb now) → Inv { s with
          timers := q, log := s.log ++ SingleComm.timerEntries s.timers q e } := by
      intro none other
      refine inv_silent inv (by simp [none]) inv.sound registered ?_
      intro slot cb there
      rcases present_stepTimers ran there with before | ⟨-, interval, now, added, -⟩
      · exact before
      · exact absurd added (other interval cb.callback now)
    cases e with
    | addTimerCallback interval scb now =>
      refine inv_entry inv rfl inv.sound registered ?_ (by simp)
      intro slot cb there
      rcases present_stepTimers ran there with before | ⟨rfl, interval', now', added, last⟩
      · exact .inr ⟨before, by simp⟩
      · cases added
        left
        rw [← last]
    | fire =>
      obtain ⟨tv, front, polling, due, heaped⟩ := fire_ok ran
      obtain ⟨timer, rest, split, found, -⟩ := due_ok due
      obtain ⟨objs, phase⟩ := reheap_ok heaped
      have entries : SingleComm.timerEntries s.timers q .fire =
          [.called .timer ⟨front, timer.callback⟩] := by
        simp only [SingleComm.timerEntries, phase, objs, found]
        rfl
      rw [entries]
      refine inv_entry inv rfl inv.sound registered ?_ ?_
      · intro slot cb there
        rcases present_stepTimers ran there with before | ⟨-, interval, now, added, -⟩
        · exact .inr ⟨before, by simp⟩
        · cases added
      · rintro slot cb ⟨⟩
        exact ⟨timer, found, rfl⟩
    | removeTimer timer => exact silent rfl (by simp)
    | removeObjTimers obj => exact silent rfl (by simp)
    | poll tv => exact silent rfl (by simp)
    | callbackReturned now => exact silent rfl (by simp)
    | pollDone => exact silent rfl (by simp)

theorem inv_removeObjCallbacks (inv : Inv s) (obj : Option Nat) :
    Inv (s.removeObjCallbacks obj).2 :=
  inv_silent inv rfl inv.sound inv.timers fun there => (present_removeObjCallbacks s obj there).1

/-- What `removeObjTimers` leaves was there and is not bound to the object. -/
theorem present_removeObjTimers {obj : Option Nat} {objs : Objects TimerObj} {cb : CallbackObj}
    {timer : TimerObj}
    (left : (s.timers.timerCallbacks.filter (kept s.timers.objs obj)).Perm objs.live.keys)
    (same : ∀ p ∈ s.timers.timerCallbacks.filter (kept s.timers.objs obj),
      objs.live.lookup p = s.timers.objs.live.lookup p)
    (found : objs.live.lookup cb.id = some timer) (bound : timer.callback = cb.callback) :
    Present s cb .timer ∧ some cb.callback.obj ≠ obj := by
  have member := left.mem_iff.mpr (AList.mem_keys.mp (Objects.live_of_lookup found))
  have before := same cb.id member
  rw [found] at before
  have stays := (List.mem_filter.mp member).2
  simp only [kept, ← before, decide_eq_true_eq] at stays
  exact ⟨⟨timer, before.symm, bound⟩, bound ▸ stays.2⟩

theorem removeObj_ok (obj : Option Nat) (registered : Registered s.timers) :
    ∃ objs : Objects TimerObj,
      (s.timers.timerCallbacks.filter (kept s.timers.objs obj)).Perm objs.live.keys ∧
      (∀ p ∈ s.timers.timerCallbacks.filter (kept s.timers.objs obj),
        objs.live.lookup p = s.timers.objs.live.lookup p) ∧
      (s.removeObj obj).2 = ({ s with timers := { s.timers with
        objs := objs
        timerCallbacks := s.timers.timerCallbacks.filter (kept s.timers.objs obj) }
        }.removeObjCallbacks obj).2.note (.removedObj obj) := by
  have total := removeObjTimers_total registered obj
  unfold SingleComm.removeObj
  split
  next failed => exact absurd trivial (total.fails failed)
  next r timers removed =>
    obtain ⟨objs, split, left, same⟩ := total.returns removed
    dsimp only at split
    subst split
    exact ⟨objs, left, same, rfl⟩

/-- `removeObj` leaves nothing that is bound to the object, the requests apart. -/
theorem inv_removeObj {obj : Option Nat} (inv : Inv s) (meets : Meets s (.removeObj obj)) :
    Inv (s.removeObj obj).2 := by
  obtain ⟨objs, left, same, removed⟩ := removeObj_ok obj inv.timers
  rw [removed]
  refine inv_entry inv rfl inv.sound left ?_ (by simp)
  intro slot cb there
  right
  let emptied : SingleComm := { s with timers := { s.timers with
    objs := objs
    timerCallbacks := s.timers.timerCallbacks.filter (kept s.timers.objs obj) } }
  have there' : Present (emptied.removeObjCallbacks obj).2 cb slot := by
    cases slot <;> exact there
  obtain ⟨before, other⟩ := present_removeObjCallbacks emptied obj there'
  have distinct : some cb.callback.obj ≠ obj →
      CommEntry.removedObj obj ≠ .removedObj (some cb.callback.obj) := by
    intro different equal
    exact different (CommEntry.removedObj.inj equal).symm
  cases slot with
  | timer =>
    obtain ⟨timer, found, bound⟩ := before
    obtain ⟨present, different⟩ := present_removeObjTimers left same found bound
    exact ⟨present, distinct different⟩
  | wget =>
    refine ⟨before, ?_⟩
    cases obj with
    | none => simp
    | some o => exact distinct fun equal => meets cb before (Option.some.inj equal)
  | connect | close | message mt =>
    have different : some cb.callback.obj ≠ obj := by simpa using other
    exact ⟨before, distinct different⟩

theorem inv_next (permutes : Permutes stl) (inv : Inv s) {e : SingleComm.Event} (meets : Meets s e)
    (stepped : s.next stl e = some s') : Inv s' := by
  cases e with
  | timer e => exact inv_timer permutes inv meets stepped
  | addConnectCallback callback =>
    cases stepped
    refine inv_registered inv rfl inv.sound inv.timers ?_
    intro slot cb there
    cases slot with
    | connect =>
      rcases List.mem_cons.mp there with rfl | before
      · exact .inl ⟨rfl, rfl⟩
      · exact .inr before
    | timer | close | message mt | wget => exact .inr there
  | addCloseCallback callback =>
    cases stepped
    refine inv_registered inv rfl inv.sound inv.timers ?_
    intro slot cb there
    cases slot with
    | close =>
      rcases List.mem_cons.mp there with rfl | before
      · exact .inl ⟨rfl, rfl⟩
      · exact .inr before
    | timer | connect | message mt | wget => exact .inr there
  | addMsgCallback mt callback =>
    cases stepped
    refine inv_registered inv rfl inv.sound inv.timers ?_
    intro slot cb there
    cases slot with
    | message mt' =>
      obtain ⟨cbs, entry, member⟩ := there
      rcases mem_pushMsg entry member with ⟨rfl, rfl⟩ | before
      · exact .inl ⟨rfl, rfl⟩
      · exact .inr before
    | timer | connect | close | wget => exact .inr there
  | wget callback =>
    cases stepped
    refine inv_registered inv rfl inv.sound inv.timers ?_
    intro slot cb there
    cases slot with
    | wget =>
      rcases List.mem_append.mp there with before | last
      · exact .inr before
      · rw [List.mem_singleton.mp last]
        exact .inl ⟨rfl, rfl⟩
    | timer | connect | close | message mt => exact .inr there
  | removeObjCallbacks obj =>
    cases stepped
    exact inv_removeObjCallbacks inv obj
  | removeObj obj =>
    obtain ⟨-, same⟩ := Option.ite_none_right_eq_some.mp stepped
    cases same
    exact inv_removeObj inv meets
  | walk slot =>
    cases stepped
    exact inv_visit inv slot 0 s.walks
  | returned ret => exact inv_returned inv meets stepped
  | complete cb =>
    obtain ⟨due, same⟩ := Option.ite_none_right_eq_some.mp stepped
    cases same
    refine inv_entry inv rfl inv.sound inv.timers ?_ ?_
    · intro slot cb' there
      cases slot with
      | wget => exact .inr ⟨List.mem_of_mem_erase there, by simp⟩
      | timer | connect | close | message mt => exact .inr ⟨there, by simp⟩
    · rintro slot cb' ⟨⟩
      exact due
  | stray slot cb =>
    obtain ⟨freed, -⟩ := Option.ite_none_right_eq_some.mp stepped
    rw [inv.sound] at freed
    cases freed

end steps

/-- The system of one `SingleComm`, its user, its callbacks and the I/O queue. -/
def Step (stl : HeapFns Nat) : SingleComm → SingleComm.Event → SingleComm → Prop :=
  Trace.ofOption (SingleComm.next stl)

/-- After `removeObj` of an object, a callback bound to it is called only if it was registered
again in between. -/
def RemovedNotCalled (log : List CommEntry) : Prop :=
  ∀ before between after slot cb,
    log = before ++ .removedObj (some cb.callback.obj) :: (between ++ .called slot cb :: after) →
    .registered slot cb ∈ between

/-- In every run in which, at each `removeObj`, no request bound to the object is in progress,
each firing timer is where `poll` left it when its callback returns, and no list node is
erased under the loop that stands on it: after `removeObj` no callback bound to the object is
called, whatever place it was registered at, unless it is registered again. -/
theorem removed_not_called (stl : HeapFns Nat) (permutes : Permutes stl)
    (events : List SingleComm.Event) (s : SingleComm)
    (run : Trace.Run (Trace.Guarded (Step stl) Meets) .init events s) : RemovedNotCalled s.log := by
  have inv : Inv s := run.invariant inv_init fun before stepped =>
    inv_next permutes before stepped.2 stepped.1
  intro before between after slot cb split
  have since := inv.calls (before ++ .removedObj (some cb.callback.obj) :: between) slot cb after
    (by rw [split, List.append_assoc, List.cons_append])
  obtain ⟨entry, member, rfl⟩ := since.after
  exact member

/-- An object with a message callback and a timer is removed and registers its message callback
again; a message of the type then calls it. -/
def registersAgain : List SingleComm.Event :=
  [.addMsgCallback 5 ⟨1, 1⟩, .timer (.addTimerCallback 1000 ⟨1, 2⟩ (tick 0)), .removeObj (some 1),
    .addMsgCallback 5 ⟨1, 1⟩, .walk (.message 5), .returned 0]

theorem removed_not_called_again :
    ∃ s, Trace.Run (Trace.Guarded (Step sifting) Meets) .init registersAgain s ∧
      s.log = [.registered (.message 5) ⟨0, ⟨1, 1⟩⟩, .registered .timer ⟨0, ⟨1, 2⟩⟩,
        .removedObj (some 1), .registered (.message 5) ⟨1, ⟨1, 1⟩⟩,
        .called (.message 5) ⟨1, ⟨1, 1⟩⟩] ∧ RemovedNotCalled s.log := by
  have run : ∃ s, Trace.Run (Trace.Guarded (Step sifting) Meets) .init registersAgain s ∧
      s.log = [.registered (.message 5) ⟨0, ⟨1, 1⟩⟩, .registered .timer ⟨0, ⟨1, 2⟩⟩,
        .removedObj (some 1), .registered (.message 5) ⟨1, ⟨1, 1⟩⟩,
        .called (.message 5) ⟨1, ⟨1, 1⟩⟩] := by
    refine ⟨_, .cons ⟨rfl, trivial⟩ (.cons ⟨rfl, trivial⟩ (.cons ⟨rfl, ?_⟩ (.cons ⟨rfl, trivial⟩
      (.cons ⟨rfl, trivial⟩ (.cons ⟨rfl, ?_⟩ (.nil _)))))), rfl⟩
    · intro cb due
      cases due
    · rintro - walk outer ⟨⟩ ⟨⟩
  obtain ⟨s, run, log⟩ := run
  exact ⟨s, run, log, removed_not_called sifting sifting_permutes registersAgain s run⟩

/-- An object starts a request and is removed; the completion calls it. -/
theorem removed_object_called :
    ¬ ∀ (stl : HeapFns Nat), HeapSpec stl → ∀ (events : List SingleComm.Event) (s : SingleComm),
      Trace.Run (Step stl) .init events s → RemovedNotCalled s.log := by
  intro claim
  have run : ∃ s, Trace.Run (Step sifting) .init
      [.wget ⟨1, 1⟩, .removeObj (some 1), .complete ⟨0, ⟨1, 1⟩⟩] s ∧
      s.log = [.registered .wget ⟨0, ⟨1, 1⟩⟩, .removedObj (some 1), .called .wget ⟨0, ⟨1, 1⟩⟩] :=
    ⟨_, .cons rfl (.cons rfl (.cons rfl (.nil _))), rfl⟩
  obtain ⟨s, run, log⟩ := run
  have again := claim sifting sifting_spec _ s run [.registered .wget ⟨0, ⟨1, 1⟩⟩] [] [] .wget
    ⟨0, ⟨1, 1⟩⟩ log
  cases again

end BlmLink.Guarantees.ObjectRemoval
