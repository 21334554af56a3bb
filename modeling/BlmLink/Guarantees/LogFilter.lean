import Mathlib
import BlmLink.Lib.Pieces
import BlmLink.Source.BlmLog

/-!
# The modules that are logged

`blmSetLog` sets the level but only adds to the modules, so the filter has the names of all
calls so far. It is what the last call asked for if and only if that call names every
module that an earlier one named (`filter_iff`). A call with an empty string, which should
turn all modules on, changes nothing once a module has been named.
-/
namespace BlmLink.Guarantees.LogFilter

open BlmLink.Lib BlmLink.Source BlmLog

section names

/-- The names in the `modules` string of a call. -/
def Names (modules name : Bytes) : Prop := Piece 0x20 (cString modules) name

/-- A name has no octet zero. -/
theorem cString_name {modules name : Bytes} (named : Names modules name) : cString name = name := by
  obtain ⟨before, after, split, _⟩ := named.within
  refine List.takeWhile_eq_self_iff.mpr fun ch member => ?_
  have inside : ch ∈ cString modules := by
    rw [split]
    exact List.mem_append_left _ (List.mem_append_right _ member)
  exact List.mem_takeWhile_imp (p := fun ch => ch != 0) inside

/-- What `splitFrom` has at the end of the string. -/
theorem mem_lastPiece {sep : Byte} {cur : Bytes} (unbroken : sep ∉ cur) (piece : Bytes) :
    (piece ∈ if cur = [] then [] else [cur]) ↔ Piece sep cur piece := by
  rw [Piece.of_unbroken unbroken]
  split
  next empty => simp [empty]
  next nonempty => simp [nonempty]

theorem mem_splitFrom (sep : Byte) (cont cur : Bytes) (unbroken : sep ∉ cur) (piece : Bytes) :
    piece ∈ splitFrom sep cont cur ↔ Piece sep (cur ++ cString cont) piece := by
  induction cont generalizing cur with
  | nil =>
    rw [splitFrom, cString, List.takeWhile_nil, List.append_nil]
    exact mem_lastPiece unbroken piece
  | cons ch cont ih =>
    unfold splitFrom
    by_cases ended : ch = 0
    · have cut : cString (ch :: cont) = [] := by simp [cString, ended]
      rw [if_pos ended, cut, List.append_nil]
      exact mem_lastPiece unbroken piece
    · rw [if_neg ended, cString_cons ended]
      by_cases parted : ch = sep
      · subst parted
        have later := ih [] (by simp)
        rw [List.nil_append] at later
        rw [if_pos rfl, Piece.append_sep unbroken, ← later]
        split
        next empty => simp [empty]
        next nonempty => simp [nonempty]
      · have longer : sep ∉ cur ++ [ch] := by simp [unbroken, Ne.symm parted]
        rw [if_neg parted, ih (cur ++ [ch]) longer, List.append_assoc, List.singleton_append]

theorem mem_splitString (modules name : Bytes) :
    name ∈ splitString modules 0x20 ↔ Names modules name :=
  mem_splitFrom 0x20 modules [] (by simp) name

theorem mem_insertAll (names modules : List Bytes) (name : Bytes) :
    name ∈ names.foldl BlmLog.insert modules ↔ name ∈ modules ∨ name ∈ names := by
  induction names generalizing modules with
  | nil => simp
  | cons first names ih =>
    have one : name ∈ BlmLog.insert modules first ↔ name ∈ modules ∨ name = first := by
      unfold BlmLog.insert
      split
      next present =>
        constructor
        · exact .inl
        · rintro (member | rfl)
          · exact member
          · exact present
      next => simp
    rw [List.foldl_cons, ih, one, List.mem_cons, or_assoc]

/-- The names of all calls are in the filter. -/
theorem mem_modules_after (calls : List SetLog) (name : Bytes) :
    name ∈ (after calls).blmlog_modules ↔ ∃ call ∈ calls, Names call.modules name := by
  induction calls using List.reverseRecOn with
  | nil => simp [after, init]
  | append_singleton calls call ih =>
    have step : (after (calls ++ [call])).blmlog_modules =
        (splitString call.modules 0x20).foldl BlmLog.insert (after calls).blmlog_modules := by
      rw [after, List.foldl_append]
      rfl
    rw [step, mem_insertAll, ih, mem_splitString]
    simp [or_and_right, exists_or]

theorem level_after (calls : List SetLog) (last : SetLog) :
    (after (calls ++ [last])).blmlog_level = last.detail_level := by
  rw [after, List.foldl_append]
  rfl

end names

section filter

variable (earlier : List SetLog) (last : SetLog)

/-- The message is passed on when it is not above the level of the last call, and that call
names no module or this one. -/
def AsSet (level : Int) (module : Bytes) : Prop :=
  level ≤ last.detail_level ∧
    ((∀ name, ¬ Names last.modules name) ∨ Names last.modules (cString module))

/-- The message is passed on to `pj_log`. -/
def Passed (g : BlmLog) (level : Int) (module : Bytes) (fmt : String) : Prop :=
  ⟨module, level, fmt⟩ ∈ g.blmlog level module fmt

theorem passed_iff (g : BlmLog) (level : Int) (module : Bytes) (fmt : String) :
    Passed g level module fmt ↔ level ≤ g.blmlog_level ∧
      ((∀ name, name ∉ g.blmlog_modules) ∨ cString module ∈ g.blmlog_modules) := by
  have empty : g.blmlog_modules.isEmpty = true ↔ ∀ name, name ∉ g.blmlog_modules := by
    rw [List.isEmpty_iff, List.eq_nil_iff_forall_not_mem]
  have open_ : g.filtered level module = false ↔ level ≤ g.blmlog_level ∧
      (g.blmlog_modules.isEmpty = true ∨ cString module ∈ g.blmlog_modules) := by
    simp [filtered, or_iff_not_imp_left]
  unfold Passed blmlog
  rw [← empty, ← open_]
  cases g.filtered level module <;> simp

/-- The messages of a dump are passed on together, by the same filter. -/
theorem dump_passed_iff (g : BlmLog) (level : Int) (module : Bytes) (message : PjLog) :
    message ∈ g.blmlogDump level module ↔
      message ∈ [⟨module, level, "dumping %s %x bytes:"⟩, ⟨module, level, "\n%s"⟩] ∧
        Passed g level module message.fmt := by
  unfold Passed blmlogDump blmlog
  cases g.filtered level module with
  | true => simp
  | false =>
    simp only [Bool.false_eq_true, if_false, List.singleton_append, List.mem_cons, List.not_mem_nil,
      or_false, and_true]

theorem passed_after (level : Int) (module : Bytes) (fmt : String) :
    Passed (after (earlier ++ [last])) level module fmt ↔ level ≤ last.detail_level ∧
      ((∀ name, ¬ ∃ call ∈ earlier ++ [last], Names call.modules name) ∨
        ∃ call ∈ earlier ++ [last], Names call.modules (cString module)) := by
  rw [passed_iff, level_after]
  simp only [mem_modules_after]

/-- After any calls the filter is what the last call asked for, for every message, if and only
if the names of the earlier calls are names of the last one. -/
theorem filter_iff :
    (∀ level module fmt, Passed (after (earlier ++ [last])) level module fmt ↔
        AsSet last level module) ↔
      ∀ call ∈ earlier, ∀ name, Names call.modules name → Names last.modules name := by
  simp only [passed_after, AsSet]
  constructor
  · intro asSet call member name named
    have among : call ∈ earlier ++ [last] := List.mem_append_left _ member
    by_contra absent
    by_cases none : ∀ other, ¬ Names last.modules other
    · -- No call names the empty string, so a message of that module is kept back.
      have passed := (asSet last.detail_level [] "").mpr ⟨Int.le_refl _, .inl none⟩
      rcases passed.2 with unnamed | ⟨_, _, empty⟩
      · exact unnamed name ⟨call, among, named⟩
      · exact empty.nonempty rfl
    · have passed := (asSet last.detail_level name "").mp
        ⟨Int.le_refl _, .inr ⟨call, among, (cString_name named).symm ▸ named⟩⟩
      rcases passed.2 with unnamed | named'
      · exact none unnamed
      · exact absent (cString_name named ▸ named')
  · intro covered level module _
    have same : ∀ name, (∃ call ∈ earlier ++ [last], Names call.modules name) ↔
        Names last.modules name := by
      intro name
      constructor
      · rintro ⟨call, among, named⟩
        rcases List.mem_append.mp among with member | ended
        · exact covered call member name named
        · rwa [List.mem_singleton.mp ended] at named
      · intro named
        exact ⟨last, by simp, named⟩
    simp only [same]

/-- Once a module is named, an empty string does not turn the others on again. -/
theorem leftover_filter :
    ¬ Passed (after [⟨3, [0x61]⟩, ⟨3, []⟩]) 3 [0x62] "" ∧ AsSet ⟨3, []⟩ 3 [0x62] := by
  refine ⟨by unfold Passed; decide, by decide, .inl fun name named => ?_⟩
  rw [← mem_splitString] at named
  exact List.not_mem_nil named

end filter

end BlmLink.Guarantees.LogFilter
