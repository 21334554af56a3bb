import BlmLink.Guarantees.DispatchEdits
import BlmLink.Source.CallbackRegistry

/-!
# Removing the callbacks of an object

After any sequence of registrations and removals `removeObjCallbacks` takes the callbacks
of its object out of every list, and no others, and leaves no message type with an empty
list (`removeObjCallbacks_exact`). What it leaves is what `SingleComm` says
(`registry_removed`).

The second pass erases by message type, so it needs each type once in `msgMap`; the types
that it is given are those of the lists that are empty then.
-/
namespace BlmLink.Guarantees.CallbackRemoval

open BlmLink.Lib BlmLink.Source BlmLink.Source.CallbackRegistry DispatchEdits

section passes

variable (obj : Option Nat)

theorem stays_eq : stays obj = keeps obj := by
  funext cb
  cases obj <;> simp [stays, keeps]

/-- What a list entry of `msgMap` is after the first pass. -/
def compacted (entry : Int × List CallbackObj) : Int × List CallbackObj :=
  (entry.1, entry.2.filter (stays obj))

/-- The first pass compacts every list, and collects the types of those that became empty. -/
theorem pass_eq (map : List (Int × List CallbackObj)) (pass : MsgPass) :
    map.foldl (MsgPass.entry obj) pass =
      { msgMap := pass.msgMap ++ map.map (compacted obj)
        emptyMsg := pass.emptyMsg ++
          types ((map.map (compacted obj)).filter fun entry => entry.2.isEmpty)
        deleted := pass.deleted ++ (map.flatMap Prod.snd).filter fun cb => !stays obj cb
        removedCn := pass.removedCn + ((map.flatMap Prod.snd).filter fun cb => !stays obj cb).length }
    := by
  induction map generalizing pass with
  | nil => simp [types]
  | cons entry map ih =>
    obtain ⟨kept, dropped, removed⟩ := Compaction.run_spec (stays obj) entry.2
    rw [List.foldl_cons, ih]
    simp only [MsgPass.entry, CallbackRegistry.removeAllCallbackFromList, kept, dropped, removed]
    by_cases empty : (entry.2.filter (stays obj)).isEmpty = true
    · simp [compacted, types, empty, Int.add_assoc]
    · simp [compacted, types, empty, Int.add_assoc]

theorem removeAllFromList_count (cbs : List CallbackObj) :
    (removeAllFromList obj cbs).2 = (cbs.filter fun cb => !stays obj cb).length := by
  induction cbs with
  | nil => rfl
  | cons cb cbs ih =>
    unfold removeAllFromList
    dsimp only
    split
    next kept =>
      rw [ih, List.filter_cons_of_neg (by simpa [stays_eq, keeps] using kept)]
    next out =>
      have gone : stays obj cb = false := by
        rw [stays_eq, keeps]
        exact decide_eq_false out
      rw [ih, List.filter_cons_of_pos (by rw [gone]; rfl)]
      rfl

theorem msgCount_eq (map : List (Int × List CallbackObj)) :
    (map.map fun entry =>
        ((entry.2.filter fun cb => !stays obj cb).length : Int)).sum =
      ((map.flatMap Prod.snd).filter fun cb => !stays obj cb).length := by
  induction map with
  | nil => rfl
  | cons entry map ih =>
    rw [List.map_cons, List.sum_cons, ih]
    simp

theorem eraseType_eq {map : List (Int × List CallbackObj)} (distinct : (types map).Nodup)
    (mt : Int) : eraseType map mt = map.filter fun entry => entry.1 != mt := by
  induction map with
  | nil => rfl
  | cons entry map ih =>
    obtain ⟨absent, distinct⟩ := List.nodup_cons.mp distinct
    by_cases found : entry.1 = mt
    · have others : ∀ other ∈ map, (other.1 != mt) = true := by
        intro other member
        simp only [bne_iff_ne]
        intro same
        exact absent (List.mem_map.mpr ⟨other, member, same.trans found.symm⟩)
      simp only [eraseType, List.eraseP_cons, found, beq_self_eq_true, cond_true, bne_self_eq_false,
        Bool.false_eq_true, not_false_eq_true, List.filter_cons_of_neg]
      exact (List.filter_eq_self.mpr others).symm
    · have differs : (entry.1 == mt) = false := by simpa using found
      simp only [eraseType, List.eraseP_cons, differs, cond_false, bne, Bool.not_false,
        List.filter_cons_of_pos]
      exact congrArg _ (ih distinct)

theorem types_filter_nodup {map : List (Int × List CallbackObj)} (distinct : (types map).Nodup)
    (p : Int × List CallbackObj → Bool) : (types (map.filter p)).Nodup :=
  (List.filter_sublist.map Prod.fst).nodup distinct

theorem eraseTypes_eq {map : List (Int × List CallbackObj)} (distinct : (types map).Nodup)
    (mts : List Int) :
    mts.foldl eraseType map = map.filter fun entry => decide (entry.1 ∉ mts) := by
  induction mts generalizing map with
  | nil => simp
  | cons mt mts ih =>
    rw [List.foldl_cons, eraseType_eq distinct, ih (types_filter_nodup distinct _),
      List.filter_filter]
    refine List.filter_congr fun entry _ => ?_
    rw [Bool.eq_iff_iff]
    simp [and_comm]

/-- The second pass: each type that was collected has one list, and that one is empty. -/
theorem emptied_eq {map : List (Int × List CallbackObj)} (distinct : (types map).Nodup) :
    (types (map.filter fun entry => entry.2.isEmpty)).foldl eraseType map =
      map.filter fun entry => !entry.2.isEmpty := by
  rw [eraseTypes_eq distinct]
  refine List.filter_congr fun entry member => ?_
  have collected : entry.1 ∈ types (map.filter fun entry => entry.2.isEmpty) ↔
      entry.2.isEmpty = true := by
    constructor
    · intro among
      obtain ⟨other, found, same⟩ := List.mem_map.mp among
      obtain ⟨member', empty⟩ := List.mem_filter.mp found
      rw [List.inj_on_of_nodup_map distinct member' member same] at empty
      exact empty
    · intro empty
      exact List.mem_map.mpr ⟨entry, List.mem_filter.mpr ⟨member, empty⟩, rfl⟩
  cases empty : entry.2.isEmpty <;> simp [collected, empty]

theorem types_compacted (map : List (Int × List CallbackObj)) :
    types (map.map (compacted obj)) = types map := by
  rw [types, List.map_map]
  rfl

/-- What `removeObjCallbacks` does, without its loops. -/
theorem removal_eq {r : CallbackRegistry} (distinct : (types r.msgMap).Nodup) :
    r.removeObjCallbacks obj =
      { registry :=
          { connCallbacks := r.connCallbacks.filter (stays obj)
            closeCallbacks := r.closeCallbacks.filter (stays obj)
            msgMap := (r.msgMap.map (compacted obj)).filter fun entry => !entry.2.isEmpty }
        deleted := r.all.filter fun cb => !stays obj cb
        removedCn := (r.all.filter fun cb => !stays obj cb).length } := by
  obtain ⟨keptConn, droppedConn, removedConn⟩ := Compaction.run_spec (stays obj) r.connCallbacks
  obtain ⟨keptClose, droppedClose, removedClose⟩ :=
    Compaction.run_spec (stays obj) r.closeCallbacks
  have emptied := emptied_eq (by rw [types_compacted obj r.msgMap]; exact distinct)
  simp only [CallbackRegistry.removeObjCallbacks, pass_eq,
    CallbackRegistry.removeAllCallbackFromList, keptConn, droppedConn, removedConn, keptClose, droppedClose, removedClose, List.nil_append, emptied]
  simp [CallbackRegistry.all, Int.add_assoc]

end passes

section calls

/-- A `std::map` has each type once, and no type is left with an empty list. -/
structure WellFormed (r : CallbackRegistry) : Prop where
  distinct : (types r.msgMap).Nodup
  nonempty : ∀ entry ∈ r.msgMap, entry.2 ≠ []

variable {r : CallbackRegistry}

theorem pushMsg_nonempty {map : List (Int × List CallbackObj)}
    (nonempty : ∀ entry ∈ map, entry.2 ≠ []) (mt : Int) (cb : CallbackObj) :
    ∀ entry ∈ pushMsg mt cb map, entry.2 ≠ [] := by
  induction map with
  | nil => simp [pushMsg]
  | cons head map ih =>
    obtain ⟨first, rest⟩ := List.forall_mem_cons.mp nonempty
    unfold pushMsg
    split
    · exact List.forall_mem_cons.mpr ⟨List.cons_ne_nil _ _, rest⟩
    · exact List.forall_mem_cons.mpr ⟨first, ih rest⟩

theorem wellFormed_removed (wellFormed : WellFormed r) (obj : Option Nat) :
    WellFormed (r.removeObjCallbacks obj).registry := by
  rw [removal_eq obj wellFormed.distinct]
  refine ⟨?_, ?_⟩
  · refine types_filter_nodup ?_ _
    rw [types_compacted]
    exact wellFormed.distinct
  · intro entry member
    have kept := (List.mem_filter.mp member).2
    simpa using kept

theorem wellFormed_call (wellFormed : WellFormed r) (c : Call) : WellFormed (r.call c) := by
  cases c with
  | addConnectCallback cb => exact ⟨wellFormed.distinct, wellFormed.nonempty⟩
  | addCloseCallback cb => exact ⟨wellFormed.distinct, wellFormed.nonempty⟩
  | addMsgCallback mt cb =>
    exact ⟨nodup_pushMsg wellFormed.distinct mt cb, pushMsg_nonempty wellFormed.nonempty mt cb⟩
  | removeObjCallbacks obj => exact wellFormed_removed wellFormed obj

theorem wellFormed_built (calls : List Call) : WellFormed (built calls) := by
  have along : ∀ r, WellFormed r → WellFormed (calls.foldl call r) := by
    induction calls with
    | nil => exact fun r wellFormed => wellFormed
    | cons c calls ih => exact fun r wellFormed => ih _ (wellFormed_call wellFormed c)
  exact along init ⟨List.nodup_nil, by simp [init]⟩

end calls

/-- The removal from `SingleComm` leaves the lists that the loops leave, and counts the same. -/
theorem registry_removed {s : SingleComm} (distinct : (types s.msgMap).Nodup) (obj : Option Nat) :
    (s.removeObjCallbacks obj).2.registry = (s.registry.removeObjCallbacks obj).registry ∧
      (s.removeObjCallbacks obj).1 = (s.registry.removeObjCallbacks obj).removedCn := by
  rw [removal_eq obj distinct]
  constructor
  · simp only [SingleComm.registry, SingleComm.removeObjCallbacks, removeAllFromList_eq,
      ← stays_eq]
    rfl
  · simp only [SingleComm.removeObjCallbacks, removeAllFromList_count, CallbackRegistry.all,
      SingleComm.registry, List.filter_append, List.length_append, Int.natCast_add, msgCount_eq]

/-- The callbacks that are bound to another object. -/
def others (obj : Nat) (cbs : List CallbackObj) : List CallbackObj :=
  cbs.filter fun cb => decide (cb.callback.obj ≠ obj)

theorem stays_some (obj : Nat) :
    stays (some obj) = fun cb : CallbackObj => decide (cb.callback.obj ≠ obj) := by
  funext cb
  simp [stays]

theorem msgCallbacks_removed {r : CallbackRegistry} (wellFormed : WellFormed r) (obj : Nat)
    (mt : Int) :
    (r.removeObjCallbacks (some obj)).registry.msgCallbacks mt = others obj (r.msgCallbacks mt) := by
  have left := lookup_removed (some obj) mt r.msgMap wellFormed.distinct
  simp only [removeAllFromList_eq, ← stays_eq] at left
  rw [removal_eq (some obj) wellFormed.distinct, others, ← stays_some]
  exact left

/-- A type is in `msgMap` exactly when it has a callback. -/
theorem mem_types {r : CallbackRegistry} (wellFormed : WellFormed r) (mt : Int) :
    mt ∈ types r.msgMap ↔ r.msgCallbacks mt ≠ [] := by
  rw [msgCallbacks]
  cases found : r.msgMap.lookup mt with
  | none =>
    rw [List.lookup_eq_none_iff] at found
    simp only [Option.getD_none, ne_eq, not_true_eq_false, iff_false]
    intro among
    obtain ⟨entry, member, same⟩ := List.mem_map.mp among
    have differs := found entry member
    rw [same] at differs
    simp at differs
  | some cbs =>
    obtain ⟨before, after, split, _⟩ := List.lookup_eq_some_iff.mp found
    have member : (mt, cbs) ∈ r.msgMap := by simp [split]
    exact iff_of_true (List.mem_map.mpr ⟨_, member, rfl⟩) (wellFormed.nonempty _ member)

/-- In a registry built by any calls, the removal of an object leaves in every list the
callbacks of other objects, in their order, deletes the others once each and counts them, and
keeps in `msgMap` the types with a callback left. -/
theorem removeObjCallbacks_exact (calls : List Call) (obj : Nat) :
    let r := built calls
    let removal := r.removeObjCallbacks (some obj)
    removal.registry.connCallbacks = others obj r.connCallbacks ∧
      removal.registry.closeCallbacks = others obj r.closeCallbacks ∧
      (∀ mt, removal.registry.msgCallbacks mt = others obj (r.msgCallbacks mt)) ∧
      (∀ entry ∈ removal.registry.msgMap, entry.2 ≠ []) ∧
      (∀ mt, mt ∈ types removal.registry.msgMap ↔ others obj (r.msgCallbacks mt) ≠ []) ∧
      removal.deleted = r.all.filter (fun cb => decide (cb.callback.obj = obj)) ∧
      removal.removedCn = (r.all.filter fun cb => decide (cb.callback.obj = obj)).length := by
  intro r removal
  have wellFormed : WellFormed r := wellFormed_built calls
  have after : WellFormed removal.registry := wellFormed_removed wellFormed (some obj)
  have message := msgCallbacks_removed wellFormed obj
  have gone : (fun cb : CallbackObj => !stays (some obj) cb) =
      fun cb => decide (cb.callback.obj = obj) := by
    funext cb
    simp [stays]
  have equation := removal_eq (some obj) wellFormed.distinct
  rw [gone, stays_some] at equation
  refine ⟨congrArg (·.registry.connCallbacks) equation,
    congrArg (·.registry.closeCallbacks) equation, message, after.nonempty, ?_,
    congrArg (·.deleted) equation, congrArg (·.removedCn) equation⟩
  intro mt
  rw [mem_types after, message]

end BlmLink.Guarantees.CallbackRemoval
