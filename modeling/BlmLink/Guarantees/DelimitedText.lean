import BlmLink.Source.UtilStrings

/-!
# Splitting at a delimiter and joining

`strToStrList` on a string of a delimiter searches from left to right, and its pieces are
those of `Substring.Cut` (`strToStrList_cut`); it drops the last piece if that is empty, and
only then joining does not give the string back. The overload for a character drops all empty
pieces (`splitString_cut`).
-/
namespace BlmLink.Guarantees.DelimitedText

open BlmLink.Lib BlmLink.Lib.Substring BlmLink.Source

section join

variable {α : Type} (text : α → Bytes) (delim : Bytes)

theorem foldl_joined (str : Bytes) (l : List α) :
    l.foldl (fun str a => str ++ (text a ++ delim)) str =
      str ++ l.flatMap fun a => text a ++ delim := by
  induction l generalizing str with
  | nil => simp
  | cons a l ih => rw [List.foldl_cons, ih, List.flatMap_cons, List.append_assoc]

theorem joinList_nil : joinList text delim [] = [] := by
  simp [joinList, substrTo]

/-- What `joinList` returns lacks the last delimiter. -/
theorem joinList_append {l : List α} (nonempty : l ≠ []) :
    joinList text delim l ++ delim = l.flatMap fun a => text a ++ delim := by
  obtain ⟨front, a, rfl⟩ := (List.eq_nil_or_concat' l).resolve_left nonempty
  have whole : (front ++ [a]).flatMap (fun a => text a ++ delim) =
      (front.flatMap fun a => text a ++ delim) ++ text a ++ delim := by
    simp [List.flatMap_append]
  have size : ((((front.flatMap fun a => text a ++ delim) ++ text a ++ delim).length : Int) -
      delim.length) = ((front.flatMap fun a => text a ++ delim) ++ text a).length := by
    rw [List.length_append]
    omega
  rw [joinList, foldl_joined, List.nil_append, whole, size, substrTo, if_neg (by omega),
    Int.toNat_natCast, List.take_left]

end join

section strings

variable {delimit : Bytes}

/-- The pieces that `strToStrList` pushes. -/
def pushed (pieces : List Bytes) (last : Bytes) : List Bytes :=
  pieces ++ if last = [] then [] else [last]

/-- The loop with `done` searched and `rest` to be searched. -/
theorem strToStrLoop_spec (nonempty : delimit ≠ []) (fuel : Nat) (done rest : Bytes)
    (strList : List Bytes) (enough : rest.length < fuel) :
    ∃ pieces last, Cut delimit rest pieces last ∧
      strToStrLoop (done ++ rest) delimit fuel done.length strList =
        some (strList ++ pushed pieces last) := by
  induction fuel generalizing done rest strList with
  | zero => exact absurd enough (Nat.not_lt_zero _)
  | succ fuel ih =>
    unfold strToStrLoop
    rcases find_rest delimit done rest with ⟨found, absent⟩ | ⟨front, later, rfl, first, found⟩
    · refine ⟨[], rest, .none absent, ?_⟩
      rw [found]
      simp only [List.drop_left, pushed, List.nil_append]
      split
      · rw [List.append_nil]
      · rfl
    · have shorter : later.length < fuel := by
        have positive := List.length_pos_iff.mpr nonempty
        simp only [List.length_append] at enough
        omega
      obtain ⟨pieces, last, cut, ended⟩ :=
        ih (done ++ front ++ delimit) later (strList ++ [front]) shorter
      refine ⟨front :: pieces, last, .next first cut, ?_⟩
      have parted : done ++ (front ++ delimit ++ later) = done ++ front ++ delimit ++ later := by
        simp only [List.append_assoc]
      have piece : (front ++ delimit ++ later).take ((done ++ front).length - done.length) =
          front := by
        rw [List.length_append, Nat.add_sub_cancel_left, List.append_assoc, List.take_left]
      rw [found]
      simp only [List.drop_left, piece]
      rw [parted, ← List.length_append, ended]
      simp [pushed]

/-- `strToStrList` ends, and pushes the pieces of a scan from left to right. -/
theorem strToStrList_cut (src : Bytes) (nonempty : delimit ≠ []) :
    ∃ pieces last, Cut delimit src pieces last ∧
      strToStrList src delimit = some (pushed pieces last) := by
  by_cases empty : src = []
  · subst empty
    exact ⟨[], [], .none (not_occursAt_nil nonempty), by simp [strToStrList, pushed]⟩
  · obtain ⟨pieces, last, cut, ended⟩ :=
      strToStrLoop_spec nonempty (src.length + 1) [] src [] (Nat.lt_succ_self _)
    refine ⟨pieces, last, cut, ?_⟩
    rw [strToStrList, if_neg (by simp [empty, nonempty])]
    exact ended

/-- The last occurrence that a scan from left to right meets ends the string. -/
def EndsWithMatch (delimit src : Bytes) : Prop := ∃ pieces, pieces ≠ [] ∧ Cut delimit src pieces []

theorem endsWithMatch_iff {src last : Bytes} {pieces : List Bytes}
    (cut : Cut delimit src pieces last) :
    EndsWithMatch delimit src ↔ pieces ≠ [] ∧ last = [] := by
  constructor
  · rintro ⟨pieces', some, cut'⟩
    obtain ⟨rfl, rfl⟩ := cut.unique cut'
    exact ⟨some, rfl⟩
  · rintro ⟨some, rfl⟩
    exact ⟨pieces, some, cut⟩

theorem mem_pushed {pieces : List Bytes} {last piece : Bytes}
    (among : piece ∈ pushed pieces last) : piece ∈ pieces ++ [last] := by
  unfold pushed at among
  split at among
  · rw [List.append_nil] at among
    exact List.mem_append_left _ among
  · exact among

/-- No piece of `strToStrList` has the delimiter in it, and joining the pieces gives the string
back, without its last delimiter if the string ends with a match of the scan. -/
theorem join_split (s d : Bytes) (nonempty : d ≠ []) :
    ∃ list, strToStrList s d = some list ∧
      (∀ piece ∈ list, ∀ p, ¬ OccursAt d piece p) ∧
      (EndsWithMatch d s → strListToStr list d ++ d = s) ∧
      (¬ EndsWithMatch d s → strListToStr list d = s) := by
  obtain ⟨pieces, last, cut, ended⟩ := strToStrList_cut s nonempty
  refine ⟨pushed pieces last, ended, ?_, ?_, ?_⟩
  · intro piece among p
    exact cut.absent nonempty (mem_pushed among) p
  · intro matched
    obtain ⟨some, rfl⟩ := (endsWithMatch_iff cut).mp matched
    rw [pushed, if_pos rfl, List.append_nil, strListToStr, joinList_append id d some]
    have joined := cut.joined
    rw [List.append_nil] at joined
    exact joined
  · intro unmatched
    by_cases empty : last = []
    · subst empty
      have none : pieces = [] := by
        by_contra some
        exact unmatched ((endsWithMatch_iff cut).mpr ⟨some, rfl⟩)
      subst none
      have joined := cut.joined
      rw [pushed, if_pos rfl, strListToStr, List.append_nil, joinList_nil]
      exact joined
    · rw [pushed, if_neg empty, strListToStr]
      apply (List.append_left_inj d).mp
      rw [joinList_append id d (by simp), List.flatMap_append, ← cut.joined]
      simp

/-- A delimiter that overlaps itself. -/
theorem join_split_overlapping :
    ∃ list, strToStrList [1, 2, 2, 2] [2, 2] = some list ∧
      (∀ piece ∈ list, ∀ p, ¬ OccursAt [2, 2] piece p) ∧
      (EndsWithMatch [2, 2] [1, 2, 2, 2] → strListToStr list [2, 2] ++ [2, 2] = [1, 2, 2, 2]) ∧
      (¬ EndsWithMatch [2, 2] [1, 2, 2, 2] → strListToStr list [2, 2] = [1, 2, 2, 2]) :=
  join_split [1, 2, 2, 2] [2, 2] (by decide)

example : strToStrList [1, 2, 2, 2] [2, 2] = some [[1], [2]] := by decide

end strings

section characters

variable {sep : Byte}

/-- A piece that is not empty. -/
def given (piece : Bytes) : List Bytes := if piece = [] then [] else [piece]

theorem splitFrom_run {run : Bytes} (unbroken : sep ∉ run) (nulFree : 0 ∉ run)
    (cont cur : Bytes) : splitFrom sep (run ++ cont) cur = splitFrom sep cont (cur ++ run) := by
  induction run generalizing cur with
  | nil => rw [List.nil_append, List.append_nil]
  | cons ch run ih =>
    rw [List.mem_cons, not_or] at unbroken nulFree
    rw [List.cons_append, splitFrom, if_neg (Ne.symm nulFree.1), if_neg (Ne.symm unbroken.1),
      ih unbroken.2 nulFree.2, List.append_assoc, List.singleton_append]

theorem splitFrom_sep (nonzero : sep ≠ 0) (cont cur : Bytes) :
    splitFrom sep (sep :: cont) cur = given cur ++ splitString cont sep := by
  rw [splitFrom, if_neg nonzero, if_pos rfl, splitString, given]
  split
  · rfl
  · rfl

theorem splitString_unbroken {run : Bytes} (unbroken : sep ∉ run) (nulFree : 0 ∉ run) :
    splitString run sep = given run := by
  rw [splitString, ← List.append_nil run, splitFrom_run unbroken nulFree, List.nil_append,
    List.append_nil]
  rfl

/-- The run before the first separator is the first piece. -/
theorem splitString_append {run : Bytes} (nonzero : sep ≠ 0) (unbroken : sep ∉ run)
    (nulFree : 0 ∉ run) (cont : Bytes) :
    splitString (run ++ sep :: cont) sep = given run ++ splitString cont sep := by
  rw [splitString, splitFrom_run unbroken nulFree, List.nil_append, splitFrom_sep nonzero]

/-- `splitString` has the pieces of the scan that are not empty. -/
theorem splitString_cut {s last : Bytes} {pieces : List Bytes} (cut : Cut [sep] s pieces last)
    (nonzero : sep ≠ 0) (nulFree : 0 ∉ s) :
    splitString s sep = (pieces ++ [last]).flatMap given := by
  induction cut with
  | @none s absent =>
    have unbroken : sep ∉ s := by
      intro member
      obtain ⟨p, _, occurs⟩ := occursAt_of_mem member
      exact absent p occurs
    rw [splitString_unbroken unbroken nulFree]
    simp
  | @next front rest last pieces first later ih =>
    simp only [List.mem_append, not_or] at nulFree
    have unbroken : sep ∉ front := by
      intro member
      obtain ⟨p, inside, occurs⟩ := occursAt_of_mem member
      refine first p inside ?_
      rw [List.append_assoc]
      exact occurs.append
    rw [List.append_assoc, List.singleton_append,
      splitString_append nonzero unbroken nulFree.1.1, ih nulFree.2, List.cons_append,
      List.flatMap_cons]

theorem flatMap_given (pieces : List Bytes) :
    pieces.flatMap given = pieces.filter fun piece => decide (piece ≠ []) := by
  induction pieces with
  | nil => rfl
  | cons piece pieces ih =>
    rw [List.flatMap_cons, ih, List.filter_cons, given]
    split
    next empty => simp [empty]
    next nonempty => simp [nonempty]

/-- The overload for a character gives the pieces of the overload for a string of that
character that are not empty. -/
theorem split_char (s : Bytes) (c : Byte) (nulFree : 0 ∉ s) (nonzero : c ≠ 0) :
    ∃ list, strToStrList s [c] = some list ∧
      strToStrListChar s c = list.filter fun piece => decide (piece ≠ []) := by
  obtain ⟨pieces, last, cut, ended⟩ := strToStrList_cut s (List.cons_ne_nil c [])
  refine ⟨pushed pieces last, ended, ?_⟩
  rw [strToStrListChar, splitString_cut cut nonzero nulFree, flatMap_given, pushed,
    List.filter_append, List.filter_append]
  split
  next empty => simp [empty]
  · rfl

theorem split_char_doubled :
    (0 : Byte) ∉ ([2, 1, 2, 2, 1, 2] : Bytes) ∧ ∃ list, strToStrList [2, 1, 2, 2, 1, 2] [2] = some list ∧
      strToStrListChar [2, 1, 2, 2, 1, 2] 2 = list.filter fun piece => decide (piece ≠ []) :=
  ⟨by decide, split_char [2, 1, 2, 2, 1, 2] 2 (by decide) (by decide)⟩

end characters

end BlmLink.Guarantees.DelimitedText
