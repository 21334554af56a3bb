import BlmLink.Guarantees.ObjectRemoval

/-!
# Edits of the registry during a dispatch

`BlmClient::processMsg` walks the list of a message type with an iterator while its
callbacks run, and these may register and remove callbacks. Registering puts the new
entry in front of the list and does no harm. `removeAllCallbackFromList` moves the kept
pointers to the first nodes: if it takes out an entry at or before the running one, the
iterator stands too far on, so that as many callbacks are passed over as were taken out
there, or on a node that was erased. A dispatch calls what it should call if and only if
no removal in it takes out such an entry (`dispatch_iff`); a callback that removes its own
object always does (`own_removal_skips`).
-/
namespace BlmLink.Guarantees.DispatchEdits

open BlmLink.Lib BlmLink.Lib.BinaryHeap BlmLink.Source

/-- What `removeObjCallbacks` keeps in a list. -/
def keeps (obj : Option Nat) (cb : CallbackObj) : Bool :=
  decide (obj ≠ none ∧ some cb.callback.obj ≠ obj)

/-- What is still to be called after an event: a removal takes its entries out, and when a
callback returns it is the turn of the next one. -/
def pendingAfter (pending : List CallbackObj) : SingleComm.Event → List CallbackObj
  | .removeObjCallbacks obj => pending.filter (keeps obj)
  | .returned _ => pending.tail
  | _ => pending

/-- It is the turn of the first one pending: it is called, and nothing else is. When none
is pending the dispatch is over, and the walks around it go on. -/
def Turn (slot : Slot) (outer : List Walk) (s s' : SingleComm) : List CallbackObj → Prop
  | [] => s'.corrupted = false ∧ s'.walks = outer ∧ s'.log = s.log
  | cb :: _ => s'.corrupted = false ∧ s'.log = s.log ++ [.called slot cb]

section steps
variable (stl : HeapFns Nat) (depth : Nat)

/-- What the callbacks of a dispatch do: they edit the message callbacks and return 0. -/
def FromCallback : SingleComm.Event → Prop
  | .addMsgCallback _ _ => True
  | .removeObjCallbacks _ => True
  | .returned ret => ret = 0
  | _ => False

/-- A step of a dispatch, while one of its callbacks runs; `depth` walks go on around it. -/
def Step : SingleComm → SingleComm.Event → SingleComm → Prop :=
  Trace.Guarded (Trace.ofOption (SingleComm.next stl)) fun s e =>
    s.corrupted = false ∧ s.walks.length = depth + 1 ∧ FromCallback e

/-- Whenever a callback returns, it is the turn of the first one that was registered when the
dispatch began, has not been called and has not been removed. -/
def OnTurn (slot : Slot) : List CallbackObj → SingleComm → List SingleComm.Event → Prop
  | _, _, [] => True
  | pending, s, e :: events => ∀ s', Step stl depth s e s' →
      (e = .returned 0 → Turn slot s.walks.tail s s' pending) ∧
        OnTurn slot (pendingAfter pending e) s' events

/-- A removal takes out no entry at or before the one that runs. -/
def Spares (slot : Slot) (s : SingleComm) : SingleComm.Event → Prop
  | .removeObjCallbacks obj => ∀ i, s.walks.head? = some ⟨slot, some i⟩ →
      ∀ cb ∈ (s.callbacks slot).take (i + 1), keeps obj cb = true
  | _ => True

end steps

section lists

theorem removeAllFromList_eq (obj : Option Nat) (cbs : List CallbackObj) :
    (removeAllFromList obj cbs).1 = cbs.filter (keeps obj) := by
  induction cbs with
  | nil => rfl
  | cons cb cbs ih =>
    unfold removeAllFromList
    dsimp only
    split
    next stays =>
      rw [List.filter_cons_of_pos (by simpa [keeps] using stays), ← ih]
    next goes =>
      rw [List.filter_cons_of_neg (by simpa [keeps] using goes), ← ih]

/-- The message types of a `msgMap`; a `map` has each of them once. -/
def types (map : List (Int × List CallbackObj)) : List Int := map.map Prod.fst

theorem types_pushMsg (mt : Int) (cb : CallbackObj) (map : List (Int × List CallbackObj)) :
    types (pushMsg mt cb map) = types map ∨
      (mt ∉ types map ∧ types (pushMsg mt cb map) = types map ++ [mt]) := by
  induction map with
  | nil => exact .inr ⟨by simp [types], rfl⟩
  | cons entry map ih =>
    unfold pushMsg
    split
    next same => exact .inl rfl
    next other =>
      have head : ∀ rest : List (Int × List CallbackObj),
          types (entry :: rest) = entry.1 :: types rest := fun _ => rfl
      simp only [head]
      rcases ih with same | ⟨absent, added⟩
      · exact .inl (by rw [same])
      · refine .inr ⟨?_, by rw [added, List.cons_append]⟩
        rw [List.mem_cons]
        rintro (rfl | member)
        · exact other rfl
        · exact absent member

theorem nodup_pushMsg {map : List (Int × List CallbackObj)} (distinct : (types map).Nodup)
    (mt : Int) (cb : CallbackObj) : (types (pushMsg mt cb map)).Nodup := by
  rcases types_pushMsg mt cb map with same | ⟨absent, added⟩
  · rw [same]
    exact distinct
  · rw [added]
    exact List.nodup_append.mpr ⟨distinct, List.nodup_singleton _, by
      rintro a member b last rfl
      rw [List.mem_singleton] at last
      exact absent (last ▸ member)⟩

theorem lookup_pushMsg (mt mt' : Int) (cb : CallbackObj) (map : List (Int × List CallbackObj)) :
    ((pushMsg mt cb map).lookup mt').getD [] =
      if mt' = mt then cb :: (map.lookup mt').getD [] else (map.lookup mt').getD [] := by
  induction map with
  | nil =>
    by_cases same : mt' = mt
    · simp [pushMsg, same]
    · have differs : (mt' == mt) = false := by simpa using same
      simp [pushMsg, List.lookup_cons, differs, same]
  | cons entry map ih =>
    obtain ⟨key, cbs⟩ := entry
    unfold pushMsg
    by_cases found : mt' = key
    · subst found
      by_cases same : mt' = mt <;> simp [same]
    · have differs : (mt' == key) = false := by simpa using found
      split
      next same =>
        subst same
        simp [List.lookup_cons, differs, found]
      next => simp only [List.lookup_cons, differs, ih]

/-- Each list loses its entries of the object, and lists that become empty are erased. -/
theorem lookup_removed (obj : Option Nat) (mt : Int) (map : List (Int × List CallbackObj))
    (distinct : (types map).Nodup) :
    (((map.map fun entry => (entry.1, (removeAllFromList obj entry.2).1)).filter
        fun entry => !entry.2.isEmpty).lookup mt).getD [] =
      ((map.lookup mt).getD []).filter (keeps obj) := by
  induction map with
  | nil => rfl
  | cons entry map ih =>
    obtain ⟨key, cbs⟩ := entry
    obtain ⟨absent, distinct⟩ := List.nodup_cons.mp distinct
    have later := ih distinct
    rw [List.map_cons, removeAllFromList_eq]
    by_cases found : mt = key
    · subst found
      have none : (map.lookup mt) = none := by
        rw [List.lookup_eq_none_iff]
        intro entry member
        simp only [bne_iff_ne, ne_eq]
        rintro rfl
        exact absent (List.mem_map.mpr ⟨entry, member, rfl⟩)
      rw [none] at later
      by_cases empty : cbs.filter (keeps obj) = []
      · rw [List.filter_cons_of_neg (by simp [empty]), later]
        simp [empty]
      · rw [List.filter_cons_of_pos (by simpa using empty)]
        simp
    · have differs : (mt == key) = false := by simpa using found
      rw [List.lookup_cons, differs]
      rw [← later]
      by_cases empty : (cbs.filter (keeps obj)).isEmpty = true
      · rw [List.filter_cons_of_neg (by simp [empty])]
      · rw [List.filter_cons_of_pos (by simp [empty]), List.lookup_cons, differs]

end lists

section walking

variable {mt : Int} {depth lag : Nat} {s s' : SingleComm} {pending passed : List CallbackObj}

/-- The iterator of the dispatch is on a node. In front of what is pending the list has
entries that were called, and entries added since; the iterator is `lag` nodes past the
last of these. -/
structure Placed (mt : Int) (depth : Nat) (s : SingleComm) (pending passed : List CallbackObj)
    (lag : Nat) : Prop where
  sound : s.corrupted = false
  distinct : (types s.msgMap).Nodup
  list : s.callbacks (.message mt) = passed ++ pending
  within : lag ≤ pending.length
  top : ∃ i rest, s.walks = ⟨.message mt, some i⟩ :: rest ∧ rest.length = depth ∧
    i + 1 = passed.length + lag

/-- The node of the iterator was erased. -/
structure Lost (depth : Nat) (s : SingleComm) : Prop where
  sound : s.corrupted = false
  top : ∃ slot rest, s.walks = ⟨slot, none⟩ :: rest ∧ rest.length = depth

theorem callbacks_added (s : SingleComm) (mt mt' : Int) (callback : Callback) :
    (s.addMsgCallback mt' callback).callbacks (.message mt) =
      if mt = mt' then ⟨s.fresh, callback⟩ :: s.callbacks (.message mt)
      else s.callbacks (.message mt) :=
  lookup_pushMsg mt' mt ⟨s.fresh, callback⟩ s.msgMap

theorem distinct_added (distinct : (types s.msgMap).Nodup) (mt' : Int) (callback : Callback) :
    (types (s.addMsgCallback mt' callback).msgMap).Nodup :=
  nodup_pushMsg distinct mt' ⟨s.fresh, callback⟩

/-- Registering a callback moves list and iterator together. -/
theorem placed_added (placed : Placed mt depth s pending passed lag) (mt' : Int)
    (callback : Callback) :
    ∃ passed', Placed mt depth (s.addMsgCallback mt' callback) pending passed' lag := by
  obtain ⟨i, rest, walks, around, place⟩ := placed.top
  have list := callbacks_added s mt mt' callback
  have walks' : (s.addMsgCallback mt' callback).walks =
      (⟨.message mt, some i⟩ :: rest).map (SingleComm.shift (.message mt')) := by
    rw [← walks]
    rfl
  by_cases same : mt = mt'
  · subst same
    rw [if_pos rfl, placed.list] at list
    refine ⟨⟨s.fresh, callback⟩ :: passed, placed.sound, distinct_added placed.distinct mt callback,
      list, placed.within, i + 1, rest.map (SingleComm.shift (.message mt)), ?_, ?_, ?_⟩
    · rw [walks']
      simp [SingleComm.shift]
    · rw [List.length_map, around]
    · rw [List.length_cons]
      omega
  · rw [if_neg same, placed.list] at list
    refine ⟨passed, placed.sound, distinct_added placed.distinct mt' callback, list, placed.within,
      i, rest.map (SingleComm.shift (.message mt')), ?_, by rw [List.length_map, around], place⟩
    rw [walks']
    simp [SingleComm.shift, same]

theorem lost_added (lost : Lost depth s) (mt' : Int) (callback : Callback) :
    Lost depth (s.addMsgCallback mt' callback) := by
  obtain ⟨slot, rest, walks, around⟩ := lost.top
  refine ⟨lost.sound, slot, rest.map (SingleComm.shift (.message mt')), ?_, ?_⟩
  · show s.walks.map (SingleComm.shift (.message mt')) = _
    rw [walks, List.map_cons, SingleComm.shift]
    split <;> rfl
  · rw [List.length_map, around]

theorem callbacks_removed (distinct : (types s.msgMap).Nodup) (obj : Option Nat) (mt : Int) :
    (s.removeObjCallbacks obj).2.callbacks (.message mt) =
      (s.callbacks (.message mt)).filter (keeps obj) :=
  lookup_removed obj mt s.msgMap distinct

theorem distinct_removed (distinct : (types s.msgMap).Nodup) (obj : Option Nat) :
    (types (s.removeObjCallbacks obj).2.msgMap).Nodup := by
  have sublist : (types (s.removeObjCallbacks obj).2.msgMap).Sublist (types (s.msgMap.map
      fun entry => (entry.1, (removeAllFromList obj entry.2).1))) :=
    List.filter_sublist.map _
  refine sublist.nodup ?_
  rw [types, List.map_map]
  exact distinct

/-- Removal leaves the iterator where it was, so that it is past as many more entries as were
taken out before it. -/
theorem placed_removed (placed : Placed mt depth s pending passed lag) (obj : Option Nat) :
    Placed mt depth (s.removeObjCallbacks obj).2 (pending.filter (keeps obj))
        (passed.filter (keeps obj))
        (lag + (passed.length - (passed.filter (keeps obj)).length)) ∨
      (Lost depth (s.removeObjCallbacks obj).2 ∧
        0 < lag + (passed.length - (passed.filter (keeps obj)).length)) := by
  obtain ⟨i, rest, walks, around, place⟩ := placed.top
  have list := callbacks_removed placed.distinct obj mt
  rw [placed.list, List.filter_append] at list
  have shorter := List.length_filter_le (keeps obj) passed
  have walks' : (s.removeObjCallbacks obj).2.walks =
      ⟨.message mt, (some i).filter (· < ((s.removeObjCallbacks obj).2.callbacks
        (.message mt)).length)⟩ :: rest.map (s.removeObjCallbacks obj).2.settle := by
    show s.walks.map (s.removeObjCallbacks obj).2.settle = _
    rw [walks]
    rfl
  rw [list, List.length_append] at walks'
  by_cases inside : i < (passed.filter (keeps obj)).length + (pending.filter (keeps obj)).length
  · refine .inl ⟨placed.sound, distinct_removed placed.distinct obj, list, by omega, i,
      rest.map (s.removeObjCallbacks obj).2.settle, ?_, by rw [List.length_map, around], by omega⟩
    rw [walks']
    simp [Option.filter, inside]
  · refine .inr ⟨⟨placed.sound, .message mt, rest.map (s.removeObjCallbacks obj).2.settle, ?_,
      by rw [List.length_map, around]⟩, by omega⟩
    rw [walks']
    simp [Option.filter, inside]

theorem lost_removed (lost : Lost depth s) (obj : Option Nat) :
    Lost depth (s.removeObjCallbacks obj).2 := by
  obtain ⟨slot, rest, walks, around⟩ := lost.top
  refine ⟨lost.sound, slot, rest.map (s.removeObjCallbacks obj).2.settle, ?_, ?_⟩
  · show s.walks.map (s.removeObjCallbacks obj).2.settle = _
    rw [walks]
    rfl
  · rw [List.length_map, around]

/-- The iterator goes on to the node after its own: the entry that is `lag` places behind the
one whose turn it is. -/
theorem placed_returned (placed : Placed mt depth s pending passed lag)
    (returned : s.returned 0 = some s') :
    (pending.length = lag ∧ s'.corrupted = false ∧ s'.walks = s.walks.tail ∧ s'.log = s.log) ∨
      ∃ cb first later, pending[lag]? = some cb ∧ pending = first :: later ∧
        s'.log = s.log ++ [.called (.message mt) cb] ∧
        Placed mt depth s' later (passed ++ [first]) lag := by
  obtain ⟨i, rest, walks, around, place⟩ := placed.top
  have within := placed.within
  unfold SingleComm.returned at returned
  rw [walks] at returned
  simp only [ne_eq, not_true_eq_false, if_false, Option.some.injEq] at returned
  unfold SingleComm.visit at returned
  rw [placed.list, show i + 1 = passed.length + lag from place,
    List.getElem?_append_right (Nat.le_add_right _ _), Nat.add_sub_cancel_left] at returned
  cases entry : pending[lag]? with
  | none =>
    rw [entry] at returned
    subst returned
    have ended := List.getElem?_eq_none_iff.mp entry
    exact .inl ⟨by omega, placed.sound, by rw [walks]; rfl, rfl⟩
  | some cb =>
    rw [entry] at returned
    subst returned
    have inside := (List.getElem?_eq_some_iff.mp entry).1
    cases pending with
    | nil => simp at inside
    | cons first later =>
      refine .inr ⟨cb, first, later, rfl, rfl, rfl, placed.sound, placed.distinct, ?_, ?_,
        passed.length + lag, rest, rfl, around, ?_⟩
      · rw [List.append_assoc, List.singleton_append]
        exact placed.list
      · rw [List.length_cons] at inside
        omega
      · rw [List.length_append, List.length_singleton]
        omega

theorem lost_returned (lost : Lost depth s) (returned : s.returned 0 = some s') :
    s'.corrupted = true := by
  obtain ⟨slot, rest, walks, _⟩ := lost.top
  unfold SingleComm.returned at returned
  rw [walks] at returned
  simp only [ne_eq, not_true_eq_false, if_false, Option.some.injEq] at returned
  rw [← returned]

/-- The iterator stands too far on, or nowhere. -/
def Lagging (mt : Int) (depth : Nat) (s : SingleComm) (pending : List CallbackObj) : Prop :=
  (∃ passed lag, Placed mt depth s pending passed lag ∧ 0 < lag) ∨ Lost depth s

theorem Lagging.running (lagging : Lagging mt depth s pending) :
    s.corrupted = false ∧ s.walks.length = depth + 1 := by
  rcases lagging with ⟨_, _, placed, _⟩ | lost
  · obtain ⟨i, rest, walks, around, _⟩ := placed.top
    exact ⟨placed.sound, by rw [walks, List.length_cons, around]⟩
  · obtain ⟨slot, rest, walks, around⟩ := lost.top
    exact ⟨lost.sound, by rw [walks, List.length_cons, around]⟩

/-- Edits do not bring the iterator back. -/
theorem lagging_edited {stl : HeapFns Nat} {e : SingleComm.Event}
    (lagging : Lagging mt depth s pending) (stepped : Step stl depth s e s') :
    Lagging mt depth s' (pendingAfter pending e) ∨ e = .returned 0 := by
  obtain ⟨ran, _, _, from'⟩ := stepped
  cases e with
  | addMsgCallback mt' callback =>
    cases ran
    refine .inl ?_
    rcases lagging with ⟨passed, lag, placed, positive⟩ | lost
    · obtain ⟨passed', placed'⟩ := placed_added placed mt' callback
      exact .inl ⟨passed', lag, placed', positive⟩
    · exact .inr (lost_added lost mt' callback)
  | removeObjCallbacks obj =>
    cases ran
    refine .inl ?_
    rcases lagging with ⟨passed, lag, placed, positive⟩ | lost
    · rcases placed_removed placed obj with placed' | ⟨lost, _⟩
      · exact .inl ⟨_, _, placed', by omega⟩
      · exact .inr lost
    · exact .inr (lost_removed lost obj)
  | returned ret =>
    cases from'
    exact .inr rfl
  | _ => cases from'

end walking

section runs

variable {stl : HeapFns Nat} {mt : Int} {depth : Nat} {s s' : SingleComm}
  {pending passed : List CallbackObj} {events : List SingleComm.Event}

/-- The dispatch is over, or a freed node was used. -/
def Over (depth : Nat) (s : SingleComm) : Prop := s.walks.length = depth ∨ s.corrupted = true

theorem step_functional : Trace.Functional (Step stl depth) :=
  (Trace.functional_ofOption _).guarded _

theorem onTurn_cons {e : SingleComm.Event} (first : Step stl depth s e s') :
    OnTurn stl depth (.message mt) pending s (e :: events) ↔
      (e = .returned 0 → Turn (.message mt) s.walks.tail s s' pending) ∧
        OnTurn stl depth (.message mt) (pendingAfter pending e) s' events := by
  constructor
  · intro onTurn
    exact onTurn s' first
  · intro onTurn s'' stepped
    obtain rfl := step_functional _ _ _ _ first stepped
    exact onTurn

/-- Once the iterator is too far on, the dispatch does not get to its end without a wrong
call, one too few, or the use of a freed node. -/
theorem lagging_fails (lagging : Lagging mt depth s pending)
    (run : Trace.Run (Step stl depth) s events s') (over' : Over depth s') :
    ¬ OnTurn stl depth (.message mt) pending s events := by
  induction run generalizing pending with
  | nil s =>
    obtain ⟨sound, running⟩ := lagging.running
    rcases over' with ended | corrupted
    · omega
    · rw [sound] at corrupted
      cases corrupted
  | @cons s s₁ s' e events first rest ih =>
    intro onTurn
    obtain ⟨turn, onTurn⟩ := (onTurn_cons first).mp onTurn
    rcases lagging_edited lagging first with lagging | rfl
    · exact ih lagging over' onTurn
    · have turn := turn rfl
      have returned : s.returned 0 = some s₁ := first.1
      rcases lagging with ⟨passed, lag, placed, positive⟩ | lost
      · rcases placed_returned placed returned with
          ⟨short, _, _, log⟩ | ⟨cb, next, later, _, split, _, placed'⟩
        · cases pending with
          | nil => simp only [List.length_nil] at short; omega
          | cons next later =>
            have called := turn.2
            rw [log] at called
            simp at called
        · rw [split] at onTurn
          exact ih (.inl ⟨_, lag, placed', positive⟩) over' onTurn
      · have corrupted := lost_returned lost returned
        cases pending with
        | nil => exact absurd (turn.1.symm.trans corrupted) (by simp)
        | cons next later => exact absurd (turn.1.symm.trans corrupted) (by simp)

/-- With the iterator in its place, what stands at or before it is what was passed. -/
theorem spares_iff (placed : Placed mt depth s pending passed 0) (obj : Option Nat) :
    Spares (.message mt) s (.removeObjCallbacks obj) ↔ passed.filter (keeps obj) = passed := by
  obtain ⟨i, rest, walks, _, place⟩ := placed.top
  have front : (s.callbacks (.message mt)).take (i + 1) = passed := by
    rw [placed.list, List.take_left' (by omega)]
  rw [List.filter_eq_self, ← front]
  constructor
  · intro spares
    exact spares i (by rw [walks]; rfl)
  · intro spares i' top
    rw [walks] at top
    cases top
    exact spares

/-- A removal that spares what was passed leaves the iterator in its place. -/
theorem placed_spared (placed : Placed mt depth s pending passed 0) {obj : Option Nat}
    (spares : Spares (.message mt) s (.removeObjCallbacks obj)) :
    ∃ passed', Placed mt depth (s.removeObjCallbacks obj).2 (pending.filter (keeps obj))
      passed' 0 := by
  have same := (spares_iff placed obj).mp spares
  rcases placed_removed placed obj with placed' | ⟨_, positive⟩
  · rw [same, Nat.sub_self] at placed'
    exact ⟨passed, placed'⟩
  · rw [same] at positive
    omega

/-- Any other removal lets the nodes move up under the iterator. -/
theorem lagging_removed (placed : Placed mt depth s pending passed 0) {obj : Option Nat}
    (strikes : ¬ Spares (.message mt) s (.removeObjCallbacks obj)) :
    Lagging mt depth (s.removeObjCallbacks obj).2 (pending.filter (keeps obj)) := by
  have fewer : (passed.filter (keeps obj)).length < passed.length := by
    refine Nat.lt_of_le_of_ne (List.length_filter_le _ _) fun equal => strikes ?_
    exact (spares_iff placed obj).mpr (List.filter_sublist.eq_of_length equal)
  rcases placed_removed placed obj with placed' | ⟨lost, _⟩
  · exact .inl ⟨_, _, placed', by omega⟩
  · exact .inr lost

theorem guarded_cons {e : SingleComm.Event} {s₁ : SingleComm} (first : Step stl depth s e s₁) :
    Trace.Run (Trace.Guarded (Step stl depth) (Spares (.message mt))) s (e :: events) s' ↔
      Spares (.message mt) s e ∧
        Trace.Run (Trace.Guarded (Step stl depth) (Spares (.message mt))) s₁ events s' := by
  constructor
  · intro run
    cases run with
    | cons first' rest =>
      obtain rfl := step_functional _ _ _ _ first first'.1
      exact ⟨first'.2, rest⟩
  · rintro ⟨spares, rest⟩
    exact .cons ⟨first, spares⟩ rest

/-- By induction on the run: with the iterator in its place each event keeps it there, or is
a removal that does not spare what was passed. -/
theorem placed_iff (placed : Placed mt depth s pending passed 0)
    (run : Trace.Run (Step stl depth) s events s') (over' : Over depth s') :
    OnTurn stl depth (.message mt) pending s events ↔
      Trace.Run (Trace.Guarded (Step stl depth) (Spares (.message mt))) s events s' := by
  induction run generalizing pending passed with
  | nil s => exact iff_of_true trivial (.nil s)
  | @cons s s₁ s' e events first rest ih =>
    rw [onTurn_cons first, guarded_cons first]
    have stepped := first
    obtain ⟨ran, _, _, from'⟩ := stepped
    cases e with
    | addMsgCallback mt' callback =>
      cases ran
      obtain ⟨passed', placed'⟩ := placed_added placed mt' callback
      exact and_congr (iff_of_true (by simp) trivial) (ih placed' over')
    | removeObjCallbacks obj =>
      cases ran
      by_cases spares : Spares (.message mt) s (.removeObjCallbacks obj)
      · obtain ⟨passed', placed'⟩ := placed_spared placed spares
        exact and_congr (iff_of_true (by simp) spares) (ih placed' over')
      · have lagging := lagging_removed placed spares
        exact iff_of_false (fun onTurn => lagging_fails lagging rest over' onTurn.2)
          (fun guarded => spares guarded.1)
    | returned ret =>
      cases from'
      have returned : s.returned 0 = some s₁ := ran
      rcases placed_returned placed returned with
        ⟨ended, sound, walks, log⟩ | ⟨cb, next, later, entry, split, log, placed'⟩
      · obtain rfl := List.eq_nil_of_length_eq_zero ended
        refine and_congr (iff_of_true (fun _ => ⟨sound, walks, log⟩) trivial) ?_
        cases rest with
        | nil => exact iff_of_true trivial (.nil _)
        | cons next _ =>
          have around := next.2.2.1
          obtain ⟨i, rest', top, same, _⟩ := placed.top
          rw [walks, top, List.tail_cons] at around
          omega
      · subst split
        obtain rfl : next = cb := Option.some.inj entry
        exact and_congr (iff_of_true (fun _ => ⟨placed'.sound, log⟩) trivial) (ih placed' over')
    | _ => cases from'

end runs

/-- The state in which a dispatch of the type `mt` begins: its first callback is called. -/
def dispatched (s : SingleComm) (mt : Int) : SingleComm := s.visit (.message mt) 0 s.walks

/-- The callbacks registered for the type at the beginning are called one by one, each when it
is its turn unless it was removed before, and no other one is called. -/
def CallsOnTurn (stl : HeapFns Nat) (s : SingleComm) (mt : Int) (events : List SingleComm.Event) :
    Prop :=
  Turn (.message mt) s.walks s (dispatched s mt) (s.callbacks (.message mt)) ∧
    OnTurn stl s.walks.length (.message mt) (s.callbacks (.message mt)).tail (dispatched s mt) events

/-- For every registry and every dispatch from it that came to its end, whatever its callbacks
registered and removed: it calls what it should call if and only if no removal took out an
entry at or before the running one. -/
theorem dispatch_iff (stl : HeapFns Nat) (s : SingleComm) (mt : Int) (sound : s.corrupted = false)
    (distinct : (types s.msgMap).Nodup) (events : List SingleComm.Event) (s' : SingleComm)
    (run : Trace.Run (Step stl s.walks.length) (dispatched s mt) events s')
    (ended : Over s.walks.length s') :
    CallsOnTurn stl s mt events ↔
      Trace.Run (Trace.Guarded (Step stl s.walks.length) (Spares (.message mt)))
        (dispatched s mt) events s' := by
  unfold CallsOnTurn
  cases list : s.callbacks (.message mt) with
  | nil =>
    have nothing : dispatched s mt = s := by
      rw [dispatched, SingleComm.visit, list]
      rfl
    rw [nothing] at run ⊢
    cases run with
    | nil => exact iff_of_true ⟨⟨sound, rfl, rfl⟩, trivial⟩ (.nil _)
    | cons first _ =>
      have around := first.2.2.1
      omega
  | cons cb later =>
    have begun : dispatched s mt =
        { s with walks := ⟨.message mt, some 0⟩ :: s.walks }.note (.called (.message mt) cb) := by
      rw [dispatched, SingleComm.visit, list]
      rfl
    have placed : Placed mt s.walks.length (dispatched s mt) later [cb] 0 := by
      rw [begun]
      exact ⟨sound, distinct, list, Nat.zero_le _, 0, s.walks, rfl, rfl, rfl⟩
    have turn : Turn (.message mt) s.walks s (dispatched s mt) (cb :: later) := by
      rw [begun]
      exact ⟨sound, rfl⟩
    rw [← placed_iff placed run ended]
    exact and_iff_right turn

/-- Callbacks of the objects 3, 2 and 1 for messages of type 7, in this order. -/
def threeCallbacks : SingleComm :=
  ((SingleComm.init.addMsgCallback 7 ⟨1, 1⟩).addMsgCallback 7 ⟨2, 1⟩).addMsgCallback 7 ⟨3, 1⟩

/-- The first one removes the last one and registers a new one. -/
theorem dispatch_removes_later :
    ∃ s', Trace.Run (Step sifting 0) (dispatched threeCallbacks 7)
        [.removeObjCallbacks (some 1), .addMsgCallback 7 ⟨4, 1⟩, .returned 0, .returned 0] s' ∧
      CallsOnTurn sifting threeCallbacks 7
        [.removeObjCallbacks (some 1), .addMsgCallback 7 ⟨4, 1⟩, .returned 0, .returned 0] := by
  have run : ∃ s', Trace.Run (Trace.Guarded (Step sifting 0) (Spares (.message 7)))
        (dispatched threeCallbacks 7)
        [.removeObjCallbacks (some 1), .addMsgCallback 7 ⟨4, 1⟩, .returned 0, .returned 0] s' ∧
      s'.walks = [] := by
    refine ⟨_, .cons ⟨⟨rfl, rfl, rfl, trivial⟩, ?_⟩ (.cons ⟨⟨rfl, rfl, rfl, trivial⟩, trivial⟩
      (.cons ⟨⟨rfl, rfl, rfl, rfl⟩, trivial⟩ (.cons ⟨⟨rfl, rfl, rfl, rfl⟩, trivial⟩ (.nil _)))), rfl⟩
    rintro i ⟨⟩
    decide
  obtain ⟨s', guarded, over'⟩ := run
  have calls := (dispatch_iff sifting threeCallbacks 7 rfl (by decide) _ s' guarded.forget
    (.inl (by rw [over']; rfl))).mpr guarded
  exact ⟨s', guarded.forget, calls⟩

/-- The first callback removes its own object: the second one is passed over. -/
theorem own_removal_skips :
    ¬ ∀ (stl : HeapFns Nat) (s : SingleComm) (mt : Int), s.corrupted = false →
      (types s.msgMap).Nodup → ∀ (events : List SingleComm.Event) (s' : SingleComm),
      Trace.Run (Step stl s.walks.length) (dispatched s mt) events s' → Over s.walks.length s' →
      CallsOnTurn stl s mt events := by
  intro claim
  have run : ∃ s₁ s', Step sifting 0 (dispatched threeCallbacks 7) (.removeObjCallbacks (some 3)) s₁ ∧
      Step sifting 0 s₁ (.returned 0) s' ∧ s'.log = s₁.log ++ [.called (.message 7) ⟨0, ⟨1, 1⟩⟩] ∧
      ∃ s'', Trace.Run (Step sifting 0) s' [.returned 0] s'' ∧ s''.walks = [] :=
    ⟨_, _, ⟨rfl, rfl, rfl, trivial⟩, ⟨rfl, rfl, rfl, rfl⟩, rfl, _,
      .cons ⟨rfl, rfl, rfl, rfl⟩ (.nil _), rfl⟩
  obtain ⟨s₁, s', first, second, log, s'', third, over'⟩ := run
  have calls := claim sifting threeCallbacks 7 rfl (by decide)
    [.removeObjCallbacks (some 3), .returned 0, .returned 0] s'' (.cons first (.cons second third))
    (.inl (by rw [over']; rfl))
  have turn := ((calls.2 s₁ first).2 s' second).1 rfl
  have wrong := turn.2
  rw [log] at wrong
  exact absurd (List.append_cancel_left wrong) (by decide)

end BlmLink.Guarantees.DispatchEdits
