import Mathlib
import BlmLink.Guarantees.DelimitedText

/-!
# Lists of numbers as text

`intListToStr` writes the numbers with a delimiter between them, and `strToIntList` reads them
back: no numeral has the delimiter in it, begins or ends with white space, or is empty. But
`trimSpaces` keeps the length of the text in an `int`. From 2 ^ 31 octets on it overflows or
cuts the text, and numbers are lost (`trimSpaces_long`).
-/
namespace BlmLink.Guarantees.IntLists

open BlmLink.Lib BlmLink.Lib.Numerals BlmLink.Source DelimitedText

section numerals

/-- A digit as a character. -/
def digitChar (digit : Nat) : Byte := BitVec.ofNat 8 (48 + digit)

theorem toNat_digitChar {digit : Nat} (small : digit < 10) : (digitChar digit).toNat = 48 + digit := by
  rw [digitChar, BitVec.toNat_ofNat]
  omega

theorem isdigit_digitChar {digit : Nat} (small : digit < 10) : isdigit (digitChar digit) = true := by
  simp only [isdigit, toNat_digitChar small, Bool.and_eq_true, decide_eq_true_eq]
  omega

theorem isdigit_of_mem {n : Nat} {c : Byte} (among : c ∈ (numeral 10 n).map digitChar) :
    isdigit c = true := by
  obtain ⟨digit, written, rfl⟩ := List.mem_map.mp among
  exact isdigit_digitChar (digit_lt (by decide) written)

theorem digitsValue_numeral (n : Nat) : digitsValue ((numeral 10 n).map digitChar) = n := by
  have whole : ((numeral 10 n).map digitChar).takeWhile isdigit = (numeral 10 n).map digitChar := by
    rw [List.takeWhile_eq_self_iff]
    exact fun _ among => isdigit_of_mem among
  have digits : ((numeral 10 n).map digitChar).map (fun c => c.toNat - 48) = numeral 10 n := by
    rw [List.map_map]
    refine (List.map_congr_left fun digit among => ?_).trans (List.map_id _)
    have small : digit < 10 := digit_lt (by decide) among
    rw [Function.comp_apply, toNat_digitChar small, Nat.add_sub_cancel_left, id]
  rw [digitsValue, whole, digits, value_numeral]

theorem intToStr_eq (i : CInt) : intToStr i =
    (if i.toInt < 0 then [chr '-'] else []) ++ (numeral 10 i.toInt.natAbs).map digitChar := rfl

theorem mem_intToStr {i : CInt} {c : Byte} (among : c ∈ intToStr i) :
    c = chr '-' ∨ isdigit c = true := by
  rw [intToStr_eq, List.mem_append] at among
  rcases among with sign | digits
  · split at sign
    · exact .inl (List.mem_singleton.mp sign)
    · cases sign
  · exact .inr (isdigit_of_mem digits)

theorem intToStr_ne_nil (i : CInt) : intToStr i ≠ [] := by
  rw [intToStr_eq]
  simp [numeral_ne_nil]

/-- No character of a numeral is white space or the terminator. -/
theorem plain_of_mem {i : CInt} {c : Byte} (among : c ∈ intToStr i) : isspace c = false ∧ c ≠ 0 := by
  rcases mem_intToStr among with rfl | digit
  · decide
  · simp only [isdigit, Bool.and_eq_true, decide_eq_true_eq] at digit
    constructor
    · simp only [isspace, Bool.or_eq_false_iff, beq_eq_false_iff_ne, Bool.and_eq_false_iff,
        decide_eq_false_iff_not]
      omega
    · rintro rfl
      exact absurd digit.1 (by decide)

theorem length_intToStr_le (i : CInt) : (intToStr i).length ≤ 11 := by
  have bound : i.toInt.natAbs < 10 ^ 10 := by
    have low := BitVec.le_toInt i
    have high := BitVec.toInt_lt (x := i)
    omega
  have digits := length_numeral_le (by decide) bound (by decide)
  rw [intToStr_eq, List.length_append, List.length_map]
  split
  · rw [List.length_singleton]
    omega
  · rw [List.length_nil]
    omega

/-- `atoi` skips nothing of a numeral. -/
theorem dropWhile_intToStr (i : CInt) : (cString (intToStr i)).dropWhile isspace = intToStr i := by
  rw [cString_of_nulFree fun zero => (plain_of_mem zero).2 rfl]
  cases split : intToStr i with
  | nil => rfl
  | cons c rest =>
    have member : c ∈ intToStr i := split ▸ List.mem_cons_self
    rw [List.dropWhile_cons_of_neg (by simp [(plain_of_mem member).1])]

theorem strToInt_intToStr (i : CInt) : strToInt (intToStr i) = i := by
  rw [strToInt, dropWhile_intToStr]
  by_cases negative : i.toInt < 0
  · have signed : intToStr i = chr '-' :: (numeral 10 i.toInt.natAbs).map digitChar := by
      rw [intToStr_eq, if_pos negative, List.singleton_append]
    have magnitude : -(i.toInt.natAbs : Int) = i.toInt := by omega
    rw [signed]
    simp only [if_true, digitsValue_numeral]
    rw [magnitude, BitVec.ofInt_toInt]
  · have unsigned : intToStr i = (numeral 10 i.toInt.natAbs).map digitChar := by
      rw [intToStr_eq, if_neg negative, List.nil_append]
    have magnitude : (i.toInt.natAbs : Int) = i.toInt := by omega
    have read := digitsValue_numeral i.toInt.natAbs
    rw [← unsigned] at read
    cases split : intToStr i with
    | nil => exact absurd split (intToStr_ne_nil i)
    | cons c rest =>
      have digit : isdigit c = true := by
        have among : c ∈ intToStr i := split ▸ List.mem_cons_self
        exact isdigit_of_mem (unsigned ▸ among)
      have noMinus : c ≠ chr '-' := by
        rintro rfl
        exact absurd digit (by decide)
      have noPlus : c ≠ chr '+' := by
        rintro rfl
        exact absurd digit (by decide)
      rw [split] at read
      simp only [if_neg noMinus, if_neg noPlus, read]
      rw [magnitude, BitVec.ofInt_toInt]

end numerals

/-- A delimiter that no numeral has in it. -/
structure Delimits (d : Byte) : Prop where
  nonzero : d ≠ 0
  noSign : d ≠ chr '-'
  noDigit : isdigit d = false

section text

variable {d : Byte} {l : List CInt}

theorem Delimits.not_mem (delimits : Delimits d) (i : CInt) : d ∉ intToStr i := by
  intro member
  rcases mem_intToStr member with sign | digit
  · exact delimits.noSign sign
  · exact Bool.false_ne_true (delimits.noDigit.symm.trans digit)

/-- A separator at the end adds no piece. -/
theorem splitFrom_append_sep (sep : Byte) (s cur : Bytes) :
    splitFrom sep (s ++ [sep]) cur = splitFrom sep s cur := by
  induction s generalizing cur with
  | nil =>
    rw [List.nil_append, splitFrom, splitFrom]
    split
    · rfl
    · rw [if_pos rfl]
      split <;> rfl
  | cons ch s ih =>
    rw [List.cons_append, splitFrom, splitFrom]
    simp only [ih]

theorem splitString_flatMap (delimits : Delimits d) (l : List CInt) :
    splitString (l.flatMap fun i => intToStr i ++ [d]) d = l.map intToStr := by
  induction l with
  | nil => rfl
  | cons i l ih =>
    rw [List.flatMap_cons, List.append_assoc, List.singleton_append,
      splitString_append delimits.nonzero (delimits.not_mem i) (fun zero => (plain_of_mem zero).2 rfl),
      ih, given, if_neg (intToStr_ne_nil i)]
    rfl

/-- The text splits into its numerals. -/
theorem splitString_intListToStr (delimits : Delimits d) (nonempty : l ≠ []) :
    splitString (intListToStr l d) d = l.map intToStr := by
  rw [← splitString_flatMap delimits, ← joinList_append intToStr [d] nonempty, splitString,
    splitString, splitFrom_append_sep]
  rfl

theorem map_strToInt (l : List CInt) : (l.map intToStr).map strToInt = l := by
  rw [List.map_map]
  exact (List.map_congr_left fun i _ => strToInt_intToStr i).trans (List.map_id l)

/-- There are at most as many pieces as separators, and one more. -/
theorem length_splitFrom_le (sep : Byte) (s cur : Bytes) :
    (splitFrom sep s cur).length ≤ s.count sep + 1 := by
  induction s generalizing cur with
  | nil =>
    rw [splitFrom]
    split <;> simp
  | cons ch s ih =>
    rw [splitFrom]
    split
    · split <;> simp
    · split
      next same =>
        subst same
        rw [List.count_cons_self]
        have rest := ih []
        split
        · omega
        · rw [List.length_cons]
          omega
      next other =>
        rw [List.count_cons_of_ne other]
        exact ih _

/-- The text ends with the last numeral, behind the others and their delimiters. -/
theorem intListToStr_concat (d : Byte) (init : List CInt) (i : CInt) :
    intListToStr (init ++ [i]) d = (init.flatMap fun i => intToStr i ++ [d]) ++ intToStr i := by
  apply (List.append_left_inj [d]).mp
  rw [intListToStr, joinList_append intToStr [d] (by simp)]
  simp

end text

section trim

/-- No white space at either end. -/
structure Trimmed (s : Bytes) : Prop where
  nonempty : s ≠ []
  first : ∀ c, s.head? = some c → isspace c = false
  last : ∀ c, s.getLast? = some c → isspace c = false

variable {s : Bytes}

theorem Trimmed.takeWhile (trimmed : Trimmed s) : s.takeWhile isspace = [] := by
  cases s with
  | nil => rfl
  | cons c rest => rw [List.takeWhile_cons_of_neg (by simp [trimmed.first c rfl])]

theorem trimEnd_le (value : Bytes) (ed : Nat) : trimEnd value ed ≤ ed := by
  induction ed with
  | zero => exact Nat.le_refl 0
  | succ ed ih =>
    rw [trimEnd]
    split
    · omega
    · exact Nat.le_refl _

theorem Trimmed.trimEnd (trimmed : Trimmed s) :
    Source.trimEnd s (s.length - 1) = s.length - 1 := by
  cases size : s.length - 1 with
  | zero => rfl
  | succ ed =>
    have inside : ed + 1 < s.length := by omega
    have final : isspace (s.getD (ed + 1) 0) = false := by
      apply trimmed.last
      rw [List.getLast?_eq_getElem?, size, List.getD_eq_getElem?_getD, List.getElem?_eq_getElem inside]
      rfl
    rw [Source.trimEnd, if_neg (Bool.eq_false_iff.mp final)]

/-- What `trimSpaces` does with a text that begins without white space. -/
theorem Trimmed.trimSpaces_eq (trimmed : Trimmed s) {ed : Nat}
    (size : sizeToInt (s.length - 1) = .ofNat ed) : trimSpaces s =
      if 2 ^ 31 ≤ Source.trimEnd s ed + 1 then none else some (s.take (Source.trimEnd s ed + 1)) := by
  have kept : ((0 : Nat) : Int) ≤ (Source.trimEnd s ed : Int) := Int.natCast_nonneg _
  have same : (Source.trimEnd s ed : Int) - ((0 : Nat) : Int) + 1 = (Source.trimEnd s ed + 1 : Nat) := by
    omega
  unfold trimSpaces
  simp only [trimmed.takeWhile, size, List.length_nil, List.drop_zero]
  rw [if_neg (by decide), if_pos kept, same, Int.toNat_natCast]
  by_cases long : 2 ^ 31 ≤ Source.trimEnd s ed + 1
  · rw [if_pos long, if_pos (by omega)]
  · rw [if_neg long, if_neg (by omega)]

theorem trimSpaces_negative {ed : Nat} (size : sizeToInt (s.length - 1) = .negSucc ed)
    (trimmed : Trimmed s) : trimSpaces s = some [] := by
  have behind : ¬ ((0 : Nat) : Int) ≤ .negSucc ed := by omega
  unfold trimSpaces
  simp only [trimmed.takeWhile, size, List.length_nil]
  rw [if_neg (by decide), if_neg behind]

theorem Trimmed.trimSpaces_short (trimmed : Trimmed s) (short : s.length < 2 ^ 31) :
    trimSpaces s = some s := by
  have positive := List.length_pos_iff.mpr trimmed.nonempty
  have size : sizeToInt (s.length - 1) = .ofNat (s.length - 1) := by
    rw [sizeToInt, BitVec.toInt_ofInt, Int.bmod_eq_of_le (by omega) (by omega)]
    show _ = ((s.length - 1 : Nat) : Int)
    omega
  rw [trimmed.trimSpaces_eq size, trimmed.trimEnd, if_neg (by omega),
    Nat.sub_add_cancel positive, List.take_length]

/-- From 2 ^ 31 octets on, `trimSpaces` overflows or cuts off more than any numeral. -/
theorem Trimmed.trimSpaces_long (trimmed : Trimmed s) (long : 2 ^ 31 ≤ s.length) :
    trimSpaces s = none ∨ ∃ k, trimSpaces s = some (s.take k) ∧ k + 2 ^ 31 ≤ s.length := by
  cases size : sizeToInt (s.length - 1) with
  | negSucc ed =>
    refine .inr ⟨0, ?_, by omega⟩
    rw [trimSpaces_negative size trimmed, List.take_zero]
  | ofNat ed =>
    have wrapped : (ed : Int) = Int.bmod (s.length - 1) (2 ^ 32) := by
      rw [← BitVec.toInt_ofInt]
      exact size.symm
    rw [trimmed.trimSpaces_eq size]
    split
    · exact .inl rfl
    next fits =>
      have before := trimEnd_le s ed
      refine .inr ⟨_, rfl, ?_⟩
      by_cases exact_ : ed = s.length - 1
      · rw [exact_, trimmed.trimEnd] at fits
        omega
      · rw [Int.bmod_def] at wrapped
        split at wrapped <;> omega

end trim

section lists

variable {d : Byte} {l : List CInt}

theorem trimmed_intListToStr (d : Byte) (nonempty : l ≠ []) : Trimmed (intListToStr l d) := by
  obtain ⟨init, i, rfl⟩ := (List.eq_nil_or_concat' l).resolve_left nonempty
  rw [intListToStr_concat]
  refine ⟨by simp [intToStr_ne_nil], ?_, ?_⟩
  · intro c first
    cases init with
    | nil => exact (plain_of_mem (List.mem_of_head? first)).1
    | cons j init =>
      rw [List.flatMap_cons, List.append_assoc, List.append_assoc,
        List.head?_append_of_ne_nil _ (intToStr_ne_nil j)] at first
      exact (plain_of_mem (List.mem_of_head? first)).1
  · intro c last
    rw [List.getLast?_append_of_ne_nil _ (intToStr_ne_nil i)] at last
    exact (plain_of_mem (List.mem_of_getLast? last)).1

/-- The octets of a number in decimal. -/
def width (i : CInt) : Nat :=
  (if i.toInt < 0 then 1 else 0) + (numeral 10 i.toInt.natAbs).length

/-- The octets of a list in decimal with a delimiter between any two numbers. -/
def textSize (l : List CInt) : Nat := (l.map fun i => width i + 1).sum - 1

theorem length_intToStr (i : CInt) : (intToStr i).length = width i := by
  rw [intToStr_eq, width, List.length_append, List.length_map]
  split <;> rfl

theorem length_flatMap (d : Byte) (l : List CInt) :
    (l.flatMap fun i => intToStr i ++ [d]).length = (l.map fun i => width i + 1).sum := by
  simp [List.length_flatMap, length_intToStr]

theorem length_intListToStr (d : Byte) (l : List CInt) :
    (intListToStr l d).length = textSize l := by
  by_cases nonempty : l = []
  · subst nonempty
    rfl
  · rw [textSize, ← length_flatMap d, ← joinList_append intToStr [d] nonempty, List.length_append,
      List.length_singleton, Nat.add_sub_cancel]
    rfl

theorem count_flatMap (delimits : Delimits d) (l : List CInt) :
    (l.flatMap fun i => intToStr i ++ [d]).count d = l.length := by
  induction l with
  | nil => rfl
  | cons i l ih =>
    rw [List.flatMap_cons, List.count_append, List.count_append, ih,
      List.count_eq_zero.mpr (delimits.not_mem i), List.count_singleton_self, List.length_cons]
    omega

/-- A part of the text that lacks more than the last numeral has fewer numbers. -/
theorem length_cut_lt (delimits : Delimits d) (nonempty : l ≠ []) {k : Nat}
    (cut : k + 12 ≤ (intListToStr l d).length) :
    (splitString ((intListToStr l d).take k) d).length < l.length := by
  obtain ⟨init, i, rfl⟩ := (List.eq_nil_or_concat' l).resolve_left nonempty
  have narrow := length_intToStr_le i
  have pieces := length_splitFrom_le d ((intListToStr (init ++ [i]) d).take k) []
  rw [intListToStr_concat] at cut pieces ⊢
  rw [List.length_append] at cut
  have some : init ≠ [] := by
    rintro rfl
    rw [List.flatMap_nil, List.length_nil] at cut
    omega
  -- The delimiter before the last numeral is cut off as well.
  have ending := joinList_append intToStr [d] some
  have counted := count_flatMap delimits init
  rw [← ending] at cut pieces counted ⊢
  rw [List.length_append, List.length_singleton] at cut
  rw [List.append_assoc, List.take_append_of_le_length (by omega)] at pieces ⊢
  have fewer := (List.take_sublist k (joinList intToStr [d] init)).count_le d
  rw [List.count_append, List.count_singleton_self] at counted
  rw [List.length_append, List.length_singleton, splitString]
  omega

/-- The list comes back exactly if its text is shorter than 2 ^ 31. -/
theorem list_restored_iff (delimits : Delimits d) (l : List CInt) :
    strToIntList (intListToStr l d) d = some l ↔ textSize l < 2 ^ 31 := by
  by_cases nonempty : l = []
  · subst nonempty
    exact iff_of_true rfl (by decide)
  · have trimmed := trimmed_intListToStr d nonempty
    rw [← length_intListToStr d]
    constructor
    · intro restored
      by_contra long
      rcases trimmed.trimSpaces_long (Nat.le_of_not_lt long) with overflow | ⟨k, kept, cut⟩
      · rw [strToIntList, overflow] at restored
        cases restored
      · rw [strToIntList, kept, Option.map_some, Option.some.injEq] at restored
        have beyond : k + 12 ≤ (intListToStr l d).length := by omega
        have fewer := length_cut_lt delimits nonempty beyond
        have size := congrArg List.length restored
        rw [List.length_map] at size
        omega
    · intro short
      rw [strToIntList, trimmed.trimSpaces_short short, Option.map_some,
        splitString_intListToStr delimits nonempty, map_strToInt]

/-- Reading back what was written gives the list exactly if its numerals and a delimiter
between any two of them take fewer than 2 ^ 31 octets. -/
theorem int_lists_restored (l : List CInt) (d : Byte) (nonzero : d ≠ 0) (noSign : d ≠ chr '-')
    (noDigit : isdigit d = false) :
    strToIntList (intListToStr l d) d = some l ↔ textSize l < 2 ^ 31 :=
  list_restored_iff ⟨nonzero, noSign, noDigit⟩ l

/-- The extreme numbers, with a space between them. -/
theorem extremes_restored :
    strToIntList (intListToStr [0x80000000, 0x7fffffff] 0x20) 0x20 =
      some [0x80000000, 0x7fffffff] :=
  (int_lists_restored [0x80000000, 0x7fffffff] 0x20 (by decide) (by decide) (by decide)).mpr
    (by decide)

theorem textSize_zeros (n : Nat) : textSize (List.replicate n 0) = n * 2 - 1 := by
  have one : width 0 + 1 = 2 := by decide
  rw [textSize, List.map_replicate, List.sum_replicate_nat, one]

theorem zeros_lost_of {n : Nat} (long : 2 ^ 30 < n) (delimits : Delimits d) :
    strToIntList (intListToStr (List.replicate n 0) d) d ≠ some (List.replicate n 0) := by
  rw [Ne, list_restored_iff delimits, textSize_zeros]
  omega

/-- The text of 2 ^ 30 + 1 zeros has 2 ^ 31 + 1 octets, and they are not read back. -/
theorem zeros_lost :
    strToIntList (intListToStr (List.replicate (2 ^ 30 + 1) 0) 0x2c) 0x2c ≠
      some (List.replicate (2 ^ 30 + 1) 0) :=
  zeros_lost_of (Nat.lt_succ_self _) ⟨by decide, by decide, by decide⟩

end lists

end BlmLink.Guarantees.IntLists
