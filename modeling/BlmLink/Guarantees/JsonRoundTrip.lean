import Mathlib
import BlmLink.Guarantees.BareWords
import BlmLink.Guarantees.JsonPrinter
import BlmLink.Guarantees.StringPasses

/-!
# Printing and parsing

What the parser builds from a text is a tree of a certain shape (`Built`); what the printer
writes for such a tree, formatted or not, the parser reads back as the same tree, if its
numbers are those of an `int` (`parsed_tree_restored`). Strings need nothing of the kind: every
octet but the NUL is written so that the copying pass gives it back (`copyString_escaped`), and
the parser never puts a NUL into a string (`copyString_nulFree`).
-/
namespace BlmLink.Guarantees.JsonRoundTrip

open BlmLink.Lib.Parsing BlmLink.Lib.Numerals BlmLink.Source
open BlmLink.Guarantees.JsonDialect BlmLink.Guarantees.JsonRecursion
open BlmLink.Guarantees.JsonLocality BlmLink.Guarantees.BareWords
open BlmLink.Guarantees.StringPasses BlmLink.Guarantees.IntLists
open BlmLink.Guarantees.JsonPrinter

variable {D : Type}

section escapes

theorem hexField_hex04 : ∀ token : Byte, hexField (hex04 token) = some (token.setWidth 32) := by
  decide +kernel

theorem hexDigit_plain : ∀ digit < 16, hexDigit digit ≠ quote ∧ hexDigit digit ≠ backslash := by
  decide

theorem hex04_plain (token : Byte) : ∀ ch ∈ hex04 token, ch ≠ quote ∧ ch ≠ backslash := by
  have bound := token.isLt
  rw [hex04]
  simp only [List.forall_mem_cons]
  exact ⟨hexDigit_plain 0 (by decide), hexDigit_plain 0 (by decide), hexDigit_plain _ (by omega),
    hexDigit_plain _ (by omega), List.forall_mem_nil _⟩

theorem scanHex_hex04 (token : Byte) (rest : Bytes) :
    scanHex (hex04 token ++ rest) = some (token.setWidth 32) := by
  have solid : (hex04 token ++ rest).dropWhile isspace = hex04 token ++ rest :=
    List.dropWhile_cons_of_neg (by decide)
  have field : (hex04 token ++ rest).take 4 = hex04 token := rfl
  rw [scanHex, solid, field, hexField_hex04]

theorem utf8_control : ∀ token : Byte, token.toNat < 32 →
    (utf8 (token.setWidth 32)).1 = [token] := by
  decide +kernel

theorem transcode_hex04 {token : Byte} (given : token ≠ 0) (control : token.toNat < 32)
    (units : Units) (rest : Bytes) :
    ∃ units', transcode units (hex04 token ++ rest) = .ok ([token], units', 4) := by
  have nonzero : token.setWidth 32 ≠ (0 : BitVec 32) := by
    intro zero
    exact given (by simpa using congrArg (BitVec.setWidth 8) zero)
  have small : (token.setWidth 32 : BitVec 32).toNat < 32 := by
    rw [BitVec.toNat_setWidth]
    omega
  have low : ¬ ((0xDC00 : BitVec 32) ≤ token.setWidth 32 ∧ token.setWidth 32 ≤ (0xDFFF : BitVec 32)) := by
    rw [BitVec.le_def]
    exact fun high => absurd (Nat.lt_of_le_of_lt high.1 small) (by decide)
  have low' : ¬ ((0xD800 : BitVec 32) ≤ token.setWidth 32 ∧ token.setWidth 32 ≤ (0xDBFF : BitVec 32)) := by
    rw [BitVec.le_def]
    exact fun high => absurd (Nat.lt_of_le_of_lt high.1 small) (by decide)
  unfold transcode
  rw [scanHex_hex04, Option.some_or]
  dsimp only
  rw [if_neg (by simp only [not_or]; exact ⟨low, nonzero⟩), if_neg low', utf8_control token control]
  exact ⟨_, rfl⟩

/-- The three ways in which an octet is written. -/
inductive Escape (token : Byte) : Bytes → Prop where
  | plain : token ≠ quote → token ≠ backslash → Escape token [token]
  | single (ch : Byte) : ch ≠ chr 'u' → unescape ch = token → Escape token [backslash, ch]
  | unicode : token.toNat < 32 → Escape token (backslash :: chr 'u' :: hex04 token)

theorem escaped_escape (token : Byte) : Escape token (escaped token) := by
  unfold escaped
  split
  next printable => exact .plain printable.2.1 printable.2.2
  next special =>
    split
    next same => exact .single _ (by decide) (by rw [same]; decide)
    next plain =>
      split
      next same => exact .single _ (by decide) (by rw [same]; decide)
      next inside =>
        repeat'
          split
          next same => exact .single _ (by decide) (by rw [same]; decide)
        apply Escape.unicode
        by_contra printable
        exact special ⟨by omega, inside, plain⟩

/-- The copying pass gives an octet back as it was before it was written. -/
theorem copyString_escaped {token : Byte} (given : token ≠ 0) (units : Units) (out rest : Bytes) :
    ∃ units', copyString false 0 units out (escaped token ++ rest) =
      copyString false 0 units' (out ++ [token]) rest := by
  have escape := escaped_escape token
  generalize escaped token = text at escape
  cases escape with
  | plain inside plain => exact ⟨units, copyString_plain inside plain units out rest⟩
  | single ch single same => exact ⟨units, same ▸ copyString_single single units out rest⟩
  | unicode control =>
    obtain ⟨units', transcoded⟩ := transcode_hex04 given control units rest
    apply Exists.intro units'
    rw [List.cons_append, List.cons_append, copyString_unicode transcoded,
      copyString_drop (by simp [hex04])]
    rfl

/-- The measuring pass counts an octet for it. -/
theorem measureString_escaped (token : Byte) (rest : Bytes) :
    (measureString false rest).1 < (measureString false (escaped token ++ rest)).1 := by
  have escape := escaped_escape token
  generalize escaped token = text at escape
  cases escape with
  | plain inside plain =>
    rw [List.singleton_append, measureString_char_length inside plain]
    exact Nat.lt_succ_self _
  | single ch single same =>
    rw [List.cons_append, List.singleton_append, measureString_escape]
    exact Nat.lt_succ_self _
  | unicode control =>
    have digits : ∀ (field : Bytes), (∀ ch ∈ field, ch ≠ quote ∧ ch ≠ backslash) →
        (measureString false rest).1 ≤ (measureString false (field ++ rest)).1 := by
      intro field plain
      induction field with
      | nil => exact Nat.le_refl _
      | cons ch field ih =>
        rw [List.forall_mem_cons] at plain
        rw [List.cons_append, measureString_char_length plain.1.1 plain.1.2]
        exact Nat.le_succ_of_le (ih plain.2)
    rw [List.cons_append, List.cons_append, measureString_escape]
    exact Nat.lt_succ_of_le (digits _ (hex04_plain token))

theorem copyString_escapes {str : Bytes} (nulFree : 0 ∉ str) (units : Units) (out rest : Bytes) :
    copyString false 0 units out (str.flatMap escaped ++ quote :: rest) =
      .ok (out ++ str, quote :: rest) := by
  induction str generalizing units out with
  | nil =>
    rw [List.flatMap_nil, List.nil_append, List.append_nil]
    exact copyString_quote units out rest
  | cons token str ih =>
    rw [List.mem_cons, not_or] at nulFree
    obtain ⟨units', step⟩ := copyString_escaped (Ne.symm nulFree.1) units out
      (str.flatMap escaped ++ quote :: rest)
    rw [List.flatMap_cons, List.append_assoc, step, ih nulFree.2, List.append_assoc,
      List.singleton_append]

theorem measureString_escapes (str rest : Bytes) :
    str.length ≤ (measureString false (str.flatMap escaped ++ rest)).1 := by
  induction str with
  | nil => exact Nat.zero_le _
  | cons token str ih =>
    have step := measureString_escaped token (str.flatMap escaped ++ rest)
    rw [List.flatMap_cons, List.append_assoc, List.length_cons]
    omega

/-- A string that was printed is read back, and what stands behind it is left. -/
theorem parse_string_printed {str text : Bytes} (nulFree : 0 ∉ str)
    (printed : print_string_ptr (some str) = .ok text) (item : Item D) (rest : Bytes) :
    ∃ behind, text = quote :: behind ∧ parse_string .modified item (text ++ rest) =
      .ok ({ item with valuestring := some str, type := .cJSON_String }, rest) := by
  have written := measured_ok printed
  rw [cString_of_nulFree nulFree] at written
  refine ⟨str.flatMap escaped ++ [quote], written, ?_⟩
  rw [written, List.cons_append, parse_string_quote, List.append_assoc, List.singleton_append,
    scanString, copyString_escapes nulFree]
  dsimp only
  rw [List.nil_append, if_neg (Nat.not_lt.mpr (measureString_escapes str _))]
  rfl

end escapes

section numbers

/-- What is relied on of the `double` arithmetic: a natural number up to `2 ^ 31` is exact, so
are the digits read one after another, and a whole number is told from any other. -/
structure ExactInts (ops : DoubleOps D) (texts : DoubleText D) where
  exactly : Nat → D
  ofInt : CInt → D
  zero : ops.zero = exactly 0
  digit : ∀ n digit, digit < 10 → n * 10 + digit ≤ 2 ^ 31 →
    ops.digit (exactly n) digit = exactly (n * 10 + digit)
  scaled : ∀ i : CInt, ops.scaled (decide (i.toInt < 0)) (exactly i.toInt.natAbs) 0 0 = ofInt i
  toInt : ∀ i, ops.toInt (ofInt i) = i
  nearInt : ∀ i, texts.nearInt i (ofInt i) = true

variable {ops : DoubleOps D} {texts : DoubleText D}

/-- No digit, point or exponent continues a number. -/
def EndsNumber (rest : Bytes) : Prop :=
  ∀ ch, rest.head? = some ch → isdigit ch = false ∧ ch ≠ chr '.' ∧ ch ≠ chr 'e' ∧ ch ≠ chr 'E'

theorem le_foldl_digits (digits : List Nat) (n : Nat) :
    n ≤ digits.foldl (fun v d => v * 10 + d) n := by
  induction digits generalizing n with
  | nil => exact Nat.le_refl _
  | cons digit digits ih => exact Nat.le_trans (by omega) (ih (n * 10 + digit))

theorem readDigits_exact (exact : ExactInts ops texts) {digits : List Nat} {n : Nat}
    (small : ∀ digit ∈ digits, digit < 10)
    (bound : digits.foldl (fun v d => v * 10 + d) n ≤ 2 ^ 31) (count : Nat) {rest : Bytes}
    (ends : EndsNumber rest) :
    readDigits ops (exact.exactly n) count (digits.map digitChar ++ rest) =
      ((exact.exactly (digits.foldl (fun v d => v * 10 + d) n), count + digits.length), rest) := by
  induction digits generalizing n count with
  | nil =>
    cases rest with
    | nil => rfl
    | cons ch rest =>
      rw [List.map_nil, List.nil_append, readDigits, if_neg (by simp [(ends ch rfl).1])]
      rfl
  | cons digit digits ih =>
    rw [List.forall_mem_cons] at small
    have below : n * 10 + digit ≤ 2 ^ 31 := Nat.le_trans (le_foldl_digits digits _) bound
    have value : (digitChar digit).toNat - 48 = digit := by
      rw [toNat_digitChar small.1]
      omega
    rw [List.map_cons, List.cons_append, readDigits, if_pos (isdigit_digitChar small.1), value,
      exact.digit n digit small.1 below, ih small.2 bound, List.foldl_cons, List.length_cons]
    congr 2
    omega

/-- The first digit of a number other than zero is not zero. -/
theorem numeral_cons {n : Nat} (nonzero : n ≠ 0) :
    ∃ first digits, numeral 10 n = first :: digits ∧ first ≠ 0 ∧ first < 10 := by
  have last := Nat.getLast_digit_ne_zero 10 nonzero
  cases written : numeral 10 n with
  | nil => exact absurd written (numeral_ne_nil 10 n)
  | cons first rest =>
    refine ⟨first, rest, rfl, ?_, digit_lt (by decide) (written ▸ List.mem_cons_self)⟩
    rw [numeral, if_neg nonzero] at written
    intro zero
    apply last
    rw [List.getLast_eq_head_reverse]
    simp [written, zero]

theorem readInteger_exact (exact : ExactInts ops texts) {n : Nat} (bound : n ≤ 2 ^ 31)
    (nonzero : n ≠ 0) {rest : Bytes} (ends : EndsNumber rest) :
    readInteger ops ((numeral 10 n).map digitChar ++ rest) = (exact.exactly n, rest) := by
  have whole : (numeral 10 n).foldl (fun v d => v * 10 + d) 0 = n := value_numeral 10 n
  have read := readDigits_exact exact (fun digit among => digit_lt (by decide) among)
    (by rw [whole]; exact bound) 0 ends
  rw [whole, ← exact.zero] at read
  obtain ⟨first, digits, written, some, small⟩ := numeral_cons nonzero
  rw [written] at read ⊢
  have leading : digitChar first ≠ chr '0' := by
    intro zero
    have value := congrArg BitVec.toNat zero
    rw [toNat_digitChar small] at value
    have zero_char : (chr '0').toNat = 48 := rfl
    omega
  rw [List.map_cons, List.cons_append] at read ⊢
  rw [readInteger, if_pos ⟨isdigit_digitChar small, leading⟩, read]

theorem readSign_exact (i : CInt) (rest : Bytes) :
    readSign (intToStr i ++ rest) = (decide (i.toInt < 0),
      if i.toInt = 0 then rest else (numeral 10 i.toInt.natAbs).map digitChar ++ rest) := by
  rw [intToStr_eq]
  by_cases zero : i.toInt = 0
  · rw [zero]
    rfl
  · obtain ⟨first, digits, written, some, small⟩ :=
      numeral_cons (n := i.toInt.natAbs) (by omega)
    have value := toNat_digitChar small
    have leading : digitChar first ≠ chr '0' := by
      intro same
      have zero_char : (chr '0').toNat = 48 := rfl
      have := congrArg BitVec.toNat same
      omega
    have unsigned : digitChar first ≠ chr '-' := by
      intro same
      have minus_char : (chr '-').toNat = 45 := rfl
      have := congrArg BitVec.toNat same
      omega
    rw [written, if_neg zero]
    by_cases negative : i.toInt < 0
    · rw [if_pos negative]
      simp [readSign, negative, leading]
    · rw [if_neg negative]
      simp [readSign, negative, leading, unsigned]

theorem ends_fraction (ops : DoubleOps D) (n : D) {rest : Bytes} (ends : EndsNumber rest) :
    readFraction ops n rest = ((n, 0), rest) :=
  if_neg fun point => (ends _ point.1).2.1 rfl

theorem ends_exponent {rest : Bytes} (ends : EndsNumber rest) : readExponent rest = (0, rest) := by
  apply if_neg
  rintro (small | large)
  · exact (ends _ small).2.2.1 rfl
  · exact (ends _ large).2.2.2 rfl

theorem ends_integer (ops : DoubleOps D) {rest : Bytes} (ends : EndsNumber rest) :
    readInteger ops rest = (ops.zero, rest) := by
  cases rest with
  | nil => rfl
  | cons ch rest =>
    rw [readInteger, if_neg]
    rintro ⟨digit, -⟩
    rw [(ends ch rfl).1] at digit
    cases digit

/-- An `int` that was printed is read back. -/
theorem parse_number_printed (exact : ExactInts ops texts) (i : CInt) (item : Item D)
    {rest : Bytes} (ends : EndsNumber rest) :
    parse_number ops item (intToStr i ++ rest) =
      ({ item with valuedouble := exact.ofInt i, valueint := i, type := .cJSON_Number }, rest) := by
  have bound : i.toInt.natAbs ≤ 2 ^ 31 := by
    have low := BitVec.le_toInt i
    have high := BitVec.toInt_lt (x := i)
    omega
  have integer : readInteger ops
      (if i.toInt = 0 then rest else (numeral 10 i.toInt.natAbs).map digitChar ++ rest) =
        (exact.exactly i.toInt.natAbs, rest) := by
    split
    next zero => rw [ends_integer ops ends, exact.zero, zero, Int.natAbs_zero]
    next nonzero => exact readInteger_exact exact bound (by omega) ends
  have value := exact.scaled i
  rw [parse_number, readSign_exact]
  dsimp only
  rw [integer]
  dsimp only
  rw [ends_fraction ops _ ends]
  dsimp only
  rw [ends_exponent ends, Nat.cast_zero, Int.neg_zero, value, exact.toInt]

end numbers

section trees

/-- The shape of the trees that the parser builds; `string` is the name of a member. -/
inductive Built (ops : DoubleOps D) : Item D → Prop where
  | null (string : Option Bytes) : Built ops ⟨.cJSON_NULL, none, 0, ops.zero, string, []⟩
  | false (string : Option Bytes) : Built ops ⟨.cJSON_False, none, 0, ops.zero, string, []⟩
  | true (string : Option Bytes) : Built ops ⟨.cJSON_True, none, 1, ops.zero, string, []⟩
  | number (value : D) (string : Option Bytes) :
    Built ops ⟨.cJSON_Number, none, ops.toInt value, value, string, []⟩
  | string {text : Bytes} (string : Option Bytes) : 0 ∉ text →
    Built ops ⟨.cJSON_String, some text, 0, ops.zero, string, []⟩
  | array {children : List (Item D)} (string : Option Bytes) : (∀ child ∈ children, Built ops child) →
    (∀ child ∈ children, child.string = none) →
    Built ops ⟨.cJSON_Array, none, 0, ops.zero, string, children⟩
  | object {children : List (Item D)} (string : Option Bytes) : (∀ child ∈ children, Built ops child) →
    (∀ child ∈ children, ∃ name, child.string = some name ∧ 0 ∉ name) →
    Built ops ⟨.cJSON_Object, none, 0, ops.zero, string, children⟩

mutual

/-- The numbers of a tree. -/
def numbers : Item D → List D
  | ⟨type, _, _, valuedouble, _, child⟩ =>
    (if type = .cJSON_Number then [valuedouble] else []) ++ numbersOf child

def numbersOf : List (Item D) → List D
  | [] => []
  | child :: rest => numbers child ++ numbersOf rest

end

theorem mem_numbersOf {children : List (Item D)} {child : Item D} (among : child ∈ children)
    {value : D} (held : value ∈ numbers child) : value ∈ numbersOf children := by
  induction children with
  | nil => cases among
  | cons first rest ih =>
    rw [numbersOf, List.mem_append]
    rcases List.mem_cons.mp among with rfl | later
    · exact .inl held
    · exact .inr (ih later)

/-- What the parser starts to fill: a new item, or one that has its name. -/
def blank (ops : DoubleOps D) (type : ItemType) (string : Option Bytes) : Item D :=
  ⟨type, none, 0, ops.zero, string, []⟩

end trees

section blanks

/-- The text ends, or a blank or punctuation comes next. -/
def Stops (rest : Bytes) : Prop := rest = [] ∨ Delimited rest

theorem delimiter_number : ∀ ch : Byte, ch.toNat ≤ 32 ∨ ch ∈ punctuation →
    isdigit ch = false ∧ ch ≠ chr '.' ∧ ch ≠ chr 'e' ∧ ch ≠ chr 'E' := by
  decide +kernel

theorem Stops.endsNumber {rest : Bytes} (h : Stops rest) : EndsNumber rest := by
  intro ch found
  rcases h with rfl | ⟨mark, head, delimits⟩
  · cases found
  · cases head.symm.trans found
    exact delimiter_number ch delimits

/-- Nothing but blanks. -/
def Blank (text : Bytes) : Prop := ∀ ch ∈ text, ch.toNat ≤ 32

theorem blank_nil : Blank [] := List.forall_mem_nil _

theorem Blank.append {front back : Bytes} (first : Blank front) (second : Blank back) :
    Blank (front ++ back) := List.forall_mem_append.mpr ⟨first, second⟩

theorem skip_blank {front : Bytes} (h : Blank front) (rest : Bytes) :
    skip (front ++ rest) = skip rest := by
  unfold skip
  rw [List.dropWhile_append_of_pos]
  intro ch among
  simpa using h ch among

theorem skip_skip (text : Bytes) : skip (skip text) = skip text := skip_of_solid (skip_solid text)

theorem blank_tabs (fmt : Bool) (depth : Nat) : Blank (tabs fmt depth) := by
  cases fmt with
  | false => exact blank_nil
  | true =>
    intro ch among
    rw [List.eq_of_mem_replicate among]
    decide

theorem blank_newline (fmt : Bool) : Blank (newline fmt) := by
  cases fmt with
  | false => exact blank_nil
  | true => exact List.forall_mem_singleton.mpr (by decide)

/-- A text begins with a character that is no blank and closes nothing. -/
def Opens (text : Bytes) : Prop :=
  ∃ ch behind, text = ch :: behind ∧ 32 < ch.toNat ∧ ch ≠ chr ']' ∧ ch ≠ chr '}'

theorem Opens.skip {text : Bytes} (h : Opens text) (rest : Bytes) :
    skip (text ++ rest) = text ++ rest := by
  obtain ⟨ch, behind, rfl, solid, -⟩ := h
  apply skip_of_solid
  rintro other found
  cases found
  exact solid

theorem delimited_blank {front : Bytes} (h : Blank front) {closing : Byte}
    (closes : closing ∈ punctuation) (rest : Bytes) : Delimited (front ++ closing :: rest) := by
  cases front with
  | nil => exact ⟨closing, rfl, .inr closes⟩
  | cons ch front => exact ⟨ch, rfl, .inl (h ch List.mem_cons_self)⟩

end blanks

section entries

variable {entry : Parser ParseStop Byte (Item D)}

/-- `entry` reads `child` from `text`, which does not look as if the list was at its end. -/
def ReadBack (entry : Parser ParseStop Byte (Item D)) (closing : Byte) (child : Item D)
    (text : Bytes) : Prop :=
  ∀ rest, (skip (text ++ rest)).head? ≠ some closing ∧
    (Delimited rest → entry (skip (text ++ rest)) = .ok (child, rest))

theorem padded_ok {value rest : Bytes} {child : Item D} (read : entry (skip value) = .ok (child, rest)) :
    padded entry value = .ok (child, skip rest) := by
  rw [padded, read]
  rfl

theorem readEntries_skip (trims : Trims entry) (closing : Byte) (value : Bytes) :
    readEntries closing entry (skip value) = readEntries closing entry value := by
  have padding : padded entry (skip value) = padded entry value := by
    rw [padded, padded, skip_skip]
  rw [readEntries_eq trims, andThen, andThen, padding]

/-- The loop over the entries reads what the printer has put between the brackets. -/
theorem readEntries_separated (trims : Trims entry) {closing : Byte}
    (closes : closing ∈ punctuation) (apart : closing ≠ chr ',') {gap tail : Bytes}
    (blankGap : Blank gap) (blankTail : Blank tail) {children : List (Item D)} {texts : List Bytes}
    (each : List.Forall₂ (ReadBack entry closing) children texts) (some : children ≠ []) {lead : Bytes} (blankLead : Blank lead) (rest : Bytes) :
    readEntries closing entry
      (lead ++ (separated (chr ',' :: gap) texts ++ (tail ++ closing :: rest))) =
        .ok (children, rest) := by
  induction each generalizing lead with
  | nil => exact absurd rfl some
  | @cons child text children texts first later ih =>
    have closed := skip_blank blankTail (closing :: rest)
    have solid : skip (closing :: rest) = closing :: rest := by
      apply skip_of_solid
      rintro ch found
      cases found
      exact (by decide : ∀ ch ∈ punctuation, 32 < ch.toNat) closing closes
    rw [readEntries_eq trims]
    cases later with
    | nil =>
      have read := (first (tail ++ closing :: rest)).2 (delimited_blank blankTail closes rest)
      rw [← skip_blank blankLead] at read
      rw [separated, andThen_eq (padded_ok read), closed, solid, afterEntry_closing apart]
    | @cons next text' children texts second later =>
      have more := ih (List.cons_ne_nil _ _) blankGap
      have read := (first (chr ',' :: (gap ++ (separated (chr ',' :: gap) (text' :: texts) ++
        (tail ++ closing :: rest))))).2 ⟨chr ',', rfl, .inr (by decide)⟩
      rw [← skip_blank blankLead] at read
      have laid : text ++ chr ',' :: gap ++ separated (chr ',' :: gap) (text' :: texts) ++
          (tail ++ closing :: rest) = text ++ chr ',' :: (gap ++
            (separated (chr ',' :: gap) (text' :: texts) ++ (tail ++ closing :: rest))) := by
        simp
      have comma : ∀ behind : Bytes, skip (chr ',' :: behind) = chr ',' :: behind := by
        intro behind
        apply skip_of_solid
        rintro ch found
        cases found
        decide
      rw [separated.eq_3 _ _ _ (by nofun), laid, andThen_eq (padded_ok read), comma,
        afterEntry_comma, more]
      rfl

end entries

section values

variable {ops : DoubleOps D} {texts : DoubleText D} {fmt : Bool}

/-- What holds of every child and its text holds along the loop of `print_array`. -/
theorem print_entries_each {depth : Nat} {children : List (Item D)} {entries : List Bytes}
    {P : Item D → Bytes → Prop} (each : ∀ child ∈ children, ∀ text,
      print_value texts fmt depth child = .ok text → P child text)
    (printed : print_entries texts fmt depth children = .ok entries) :
    List.Forall₂ P children entries := by
  induction children generalizing entries with
  | nil =>
    rw [print_entries] at printed
    cases printed
    exact .nil
  | cons child rest ih =>
    rw [print_entries] at printed
    obtain ⟨ret, first, printed⟩ := bind_ok printed
    obtain ⟨more, later, printed⟩ := bind_ok printed
    cases printed
    rw [List.forall_mem_cons] at each
    exact .cons (each.1 ret first) (ih each.2 later)

/-- The same along that of `print_object`. -/
theorem print_members_each {depth : Nat} {children : List (Item D)}
    {entries : List (Bytes × Bytes)} {P : Item D → Bytes × Bytes → Prop}
    (each : ∀ child ∈ children, ∀ name text, print_string_ptr child.string = .ok name →
      print_value texts fmt depth child = .ok text → P child (name, text))
    (printed : print_members texts fmt depth children = .ok entries) :
    List.Forall₂ P children entries := by
  induction children generalizing entries with
  | nil =>
    rw [print_members] at printed
    cases printed
    exact .nil
  | cons child rest ih =>
    rw [print_members] at printed
    obtain ⟨str, named, printed⟩ := bind_ok printed
    obtain ⟨ret, first, printed⟩ := bind_ok printed
    obtain ⟨more, later, printed⟩ := bind_ok printed
    cases printed
    rw [List.forall_mem_cons] at each
    exact .cons (each.1 str ret named first) (ih each.2 later)

theorem opens_literal (word : Literal) : Opens word.text := by
  cases word
  · exact ⟨chr 'n', _, rfl, by decide, by decide, by decide⟩
  · exact ⟨chr 'f', _, rfl, by decide, by decide, by decide⟩
  · exact ⟨chr 't', _, rfl, by decide, by decide, by decide⟩

theorem opens_number (i : CInt) : Opens (intToStr i) := by
  cases written : intToStr i with
  | nil => exact absurd written (intToStr_ne_nil i)
  | cons ch behind =>
    refine ⟨ch, behind, rfl, ?_⟩
    rcases mem_intToStr (written ▸ List.mem_cons_self) with rfl | digit
    · decide
    · exact (by decide +kernel : ∀ ch : Byte, isdigit ch = true →
        32 < ch.toNat ∧ ch ≠ chr ']' ∧ ch ≠ chr '}') ch digit

theorem opens_quoted (behind : Bytes) : Opens (quote :: behind) :=
  ⟨quote, behind, rfl, by decide, by decide, by decide⟩

theorem start_number (i : CInt) (rest : Bytes) : start .modified (intToStr i ++ rest) = .number := by
  cases written : intToStr i with
  | nil => exact absurd written (intToStr_ne_nil i)
  | cons ch behind =>
    have leading : ch = chr '-' ∨ isdigit ch = true := mem_intToStr (written ▸ List.mem_cons_self)
    have letters : ch ≠ chr 'n' ∧ ch ≠ chr 'f' ∧ ch ≠ chr 't' :=
      (by decide +kernel : ∀ ch : Byte, ch = chr '-' ∨ isdigit ch = true →
        ch ≠ chr 'n' ∧ ch ≠ chr 'f' ∧ ch ≠ chr 't') ch leading
    rw [List.cons_append, start]
    simp only [Literal.text, lit, List.map_cons, List.cons_prefix_cons]
    rw [if_neg (fun same => letters.1 same.1.symm), if_neg (fun same => letters.2.1 same.1.symm),
      if_neg (fun same => letters.2.2 same.1.symm), if_pos leading]

theorem start_text (word : Literal) (rest : Bytes) :
    start .modified (word.text ++ rest) = .literal word := by
  cases word <;> simp [start, Literal.text, lit, chr]

theorem readValue_literal (word : Literal) (item : Item D) (rest : Bytes) :
    readValue ops item (word.text ++ rest) = .ok (word.fill item, rest) := by
  rw [readValue_start, start_text, Start.run, List.drop_left]

theorem parse_bracketed_closed {type : ItemType} {opening closing : Byte}
    {entries : Parser ParseStop Byte (List (Item D))} {item : Item D} {lead rest : Bytes}
    (blankLead : Blank lead) (solid : 32 < closing.toNat) :
    parse_bracketed type opening closing entries item (opening :: (lead ++ closing :: rest)) =
      .ok ({ item with type := type }, rest) := by
  have unskipped : skip (lead ++ closing :: rest) = closing :: rest := by
    rw [skip_blank blankLead]
    apply skip_of_solid
    rintro ch found
    cases found
    exact solid
  simp [parse_bracketed, unskipped]

/-- What the printer writes for a tree is read back as that tree, and what stands behind it is
left. -/
def Restores (ops : DoubleOps D) (item : Item D) (text : Bytes) : Prop :=
  Opens text ∧ ∀ type rest, Stops rest →
    readValue ops (blank ops type item.string) (text ++ rest) = .ok (item, rest)

theorem separated_cons (separator first : Bytes) (later : List Bytes) :
    ∃ behind, separated separator (first :: later) = first ++ behind := by
  cases later with
  | nil => exact ⟨[], (List.append_nil first).symm⟩
  | cons next later =>
    refine ⟨separator ++ separated separator (next :: later), ?_⟩
    rw [separated.eq_3 _ _ _ (by nofun), List.append_assoc]

/-- What stands between the brackets is read as the children, blanks in front and behind. -/
theorem bracketed_restores {entry : Parser ParseStop Byte (Item D)} (trims : Trims entry)
    {type : ItemType} {opening closing : Byte} (closes : closing ∈ punctuation)
    (apart : closing ≠ chr ',') {gap lead tail : Bytes} (blankGap : Blank gap)
    (blankLead : Blank lead) (blankTail : Blank tail) {children : List (Item D)}
    {entries : List Bytes} (each : List.Forall₂ (ReadBack entry closing) children entries)
    (filled : children ≠ []) (item : Item D) (rest : Bytes) :
    parse_bracketed type opening closing (readEntries closing entry) item
      (opening :: (lead ++ (separated (chr ',' :: gap) entries ++ (tail ++ closing :: rest)))) =
        .ok ({ item with type := type, child := children }, rest) := by
  have read := readEntries_separated trims closes apart blankGap blankTail each filled blankLead rest
  cases each with
  | nil => exact absurd rfl filled
  | @cons child text children entries first later =>
    obtain ⟨behind, begins⟩ := separated_cons (chr ',' :: gap) text entries
    rw [parse_bracketed_open, readEntries_skip trims, read]
    · rfl
    · rw [skip_blank blankLead, begins, List.append_assoc]
      exact (first _).1

/-- A list of children and that of their texts are empty together. -/
theorem nil_of_each {α β : Type} {P : α → β → Prop} {l : List α} (each : List.Forall₂ P l []) :
    l = [] := by
  cases each
  rfl

theorem array_restores {depth : Nat} {children : List (Item D)} {string : Option Bytes}
    {text : Bytes} (unnamed : ∀ child ∈ children, child.string = none)
    (each : ∀ child ∈ children, ∀ text, print_value texts fmt (depth + 1) child = .ok text →
      Restores ops child text)
    (printed : print_value texts fmt depth
      ⟨.cJSON_Array, none, 0, ops.zero, string, children⟩ = .ok text) :
    Restores ops ⟨.cJSON_Array, none, 0, ops.zero, string, children⟩ text := by
  rw [print_value] at printed
  obtain ⟨entries, listed, composed⟩ := bind_ok printed
  have bracket : ∀ inner, Opens (chr '[' :: inner) := fun inner =>
    ⟨_, _, rfl, by decide, by decide, by decide⟩
  have reads : List.Forall₂ (ReadBack (readValue ops (cJSON_New_Item ops)) (chr ']'))
      children entries := by
    refine print_entries_each (fun child among text printed rest => ?_) listed
    obtain ⟨opens, restores⟩ := each child among text printed
    rw [opens.skip]
    constructor
    · obtain ⟨ch, behind, rfl, -, inside, -⟩ := opens
      exact fun same => inside (Option.some.inj same)
    · intro delimited
      have read := restores .cJSON_False rest (.inr delimited)
      rw [unnamed child among] at read
      exact read
  unfold composeArray at composed
  by_cases none : entries = []
  · subst none
    rw [if_pos rfl] at composed
    rw [inBlock_ok composed, nil_of_each reads]
    refine ⟨bracket _, fun type rest _ => ?_⟩
    rw [List.cons_append, readValue_array]
    exact parse_bracketed_closed blank_nil (by decide)
  · have filled : children ≠ [] := by
      rintro rfl
      exact none (nil_of_each reads.flip)
    obtain ⟨gap, blankGap, sep⟩ : ∃ gap, Blank gap ∧
        (if fmt = true then [chr ',', chr ' '] else [chr ',']) = chr ',' :: gap := by
      cases fmt with
      | false => exact ⟨[], blank_nil, rfl⟩
      | true => exact ⟨[chr ' '], List.forall_mem_singleton.mpr (by decide), rfl⟩
    rw [if_neg none, sep] at composed
    rw [measured_ok composed]
    refine ⟨bracket _, fun type rest _ => ?_⟩
    have laid : chr '[' :: (separated (chr ',' :: gap) entries ++ [chr ']']) ++ rest =
        chr '[' :: ([] ++ (separated (chr ',' :: gap) entries ++ ([] ++ chr ']' :: rest))) := by
      simp
    rw [laid, readValue_array]
    exact bracketed_restores (readValue_trims ops _) (by decide) (by decide) blankGap
      blank_nil blank_nil reads filled _ rest

theorem object_restores {depth : Nat} {children : List (Item D)} {string : Option Bytes}
    {text : Bytes} (named : ∀ child ∈ children, ∃ name, child.string = some name ∧ 0 ∉ name)
    (each : ∀ child ∈ children, ∀ text, print_value texts fmt (depth + 1) child = .ok text →
      Restores ops child text)
    (printed : print_value texts fmt depth
      ⟨.cJSON_Object, none, 0, ops.zero, string, children⟩ = .ok text) :
    Restores ops ⟨.cJSON_Object, none, 0, ops.zero, string, children⟩ text := by
  rw [print_value] at printed
  obtain ⟨entries, listed, composed⟩ := bind_ok printed
  have bracket : ∀ inner, Opens (chr '{' :: inner) := fun inner =>
    ⟨_, _, rfl, by decide, by decide, by decide⟩
  have reads : List.Forall₂ (fun child entry => ReadBack (readMember ops) (chr '}') child
      (composeMember fmt (depth + 1) entry)) children entries := by
    refine print_members_each (fun child among name text written printed rest => ?_) listed
    obtain ⟨str, isNamed, nulFree⟩ := named child among
    obtain ⟨opens, restores⟩ := each child among text printed
    rw [isNamed] at written
    obtain ⟨tab, blankTab, gap⟩ : ∃ tab, Blank tab ∧
        (if fmt = true then [chr '\t'] else []) = tab := by
      cases fmt with
      | false => exact ⟨[], blank_nil, rfl⟩
      | true => exact ⟨[chr '\t'], List.forall_mem_singleton.mpr (by decide), rfl⟩
    obtain ⟨behind, quoted, parsed⟩ := parse_string_printed nulFree written
      (cJSON_New_Item ops) (chr ':' :: (tab ++ (text ++ rest)))
    have laid : composeMember fmt (depth + 1) (name, text) ++ rest =
        tabs fmt (depth + 1) ++ (name ++ chr ':' :: (tab ++ (text ++ rest))) := by
      simp [composeMember, gap]
    have opened : Opens name := quoted ▸ opens_quoted behind
    rw [laid, skip_blank (blank_tabs fmt _), opened.skip]
    constructor
    · rw [quoted]
      exact fun same => absurd (Option.some.inj same) (by decide)
    · intro delimited
      have colon : skip (chr ':' :: (tab ++ (text ++ rest))) = chr ':' :: (tab ++ (text ++ rest)) := by
        apply skip_of_solid
        rintro ch found
        cases found
        decide
      have read := restores .cJSON_String rest (.inr delimited)
      rw [isNamed] at read
      rw [readMember_named parsed colon, skip_blank blankTab, opens.skip]
      exact read
  unfold composeObject at composed
  by_cases none : entries = []
  · subst none
    rw [if_pos rfl] at composed
    rw [inBlock_ok composed, nil_of_each reads]
    refine ⟨bracket _, fun type rest _ => ?_⟩
    have laid : chr '{' :: (newline fmt ++ tabs fmt (depth - 1) ++ [chr '}']) ++ rest =
        chr '{' :: (newline fmt ++ tabs fmt (depth - 1) ++ chr '}' :: rest) := by
      simp
    rw [laid, readValue_object]
    exact parse_bracketed_closed ((blank_newline fmt).append (blank_tabs fmt _)) (by decide)
  · have filled : children ≠ [] := by
      rintro rfl
      exact none (nil_of_each reads.flip)
    rw [if_neg none] at composed
    rw [measured_ok composed]
    refine ⟨bracket _, fun type rest _ => ?_⟩
    have laid : chr '{' :: (newline fmt ++ separated (chr ',' :: newline fmt)
          (entries.map (composeMember fmt (depth + 1))) ++ newline fmt ++ tabs fmt depth ++
          [chr '}']) ++ rest =
        chr '{' :: (newline fmt ++ (separated (chr ',' :: newline fmt)
          (entries.map (composeMember fmt (depth + 1))) ++
          ((newline fmt ++ tabs fmt depth) ++ chr '}' :: rest))) := by
      simp
    rw [laid, readValue_object]
    exact bracketed_restores (readMember_trims ops) (by decide) (by decide) (blank_newline fmt)
      (blank_newline fmt) ((blank_newline fmt).append (blank_tabs fmt _))
      (List.forall₂_map_right_iff.mpr reads) filled _ rest

/-- A tree of the parser's shape whose numbers are those of an `int` is read back. -/
theorem built_restores (exact : ExactInts ops texts) {item : Item D} (built : Built ops item)
    (whole : ∀ value ∈ numbers item, ∃ i, value = exact.ofInt i) {depth : Nat} {text : Bytes}
    (printed : print_value texts fmt depth item = .ok text) : Restores ops item text := by
  induction built generalizing depth text with
  | null string =>
    rw [print_value] at printed
    cases printed
    exact ⟨opens_literal .null, fun type rest _ => readValue_literal .null _ rest⟩
  | false string =>
    rw [print_value] at printed
    cases printed
    exact ⟨opens_literal .false, fun type rest _ => readValue_literal .false _ rest⟩
  | true string =>
    rw [print_value] at printed
    cases printed
    exact ⟨opens_literal .true, fun type rest _ => readValue_literal .true _ rest⟩
  | number value string =>
    obtain ⟨i, rfl⟩ := whole value (by simp [numbers])
    rw [print_value, exact.toInt, print_number] at printed
    dsimp only at printed
    rw [if_pos (exact.nearInt i)] at printed
    rw [inBlock_ok printed, exact.toInt]
    refine ⟨opens_number i, fun type rest stops => ?_⟩
    rw [readValue_start, start_number, Start.run, parse_number_printed exact i _ stops.endsNumber]
    rfl
  | string string nulFree =>
    rw [print_value] at printed
    obtain ⟨behind, quoted, -⟩ := parse_string_printed nulFree printed (cJSON_New_Item ops) []
    refine ⟨quoted ▸ opens_quoted behind, fun type rest _ => ?_⟩
    obtain ⟨-, -, parsed⟩ := parse_string_printed nulFree printed (blank ops type string) rest
    rw [quoted] at parsed ⊢
    rw [List.cons_append] at parsed ⊢
    rw [readValue_start, start_quoted, Start.run, parsed]
    rfl
  | array string _ unnamed ih =>
    refine array_restores unnamed (fun child among text printed => ?_) printed
    apply ih child among _ printed
    intro value held
    apply whole
    rw [numbers]
    exact List.mem_append_right _ (mem_numbersOf among held)
  | object string _ named ih =>
    refine object_restores named (fun child among text printed => ?_) printed
    apply ih child among _ printed
    intro value held
    apply whole
    rw [numbers]
    exact List.mem_append_right _ (mem_numbersOf among held)

/-! The printed text has no NUL, so that it is the whole of the C string. -/

theorem escaped_nulFree : ∀ token : Byte, token ≠ 0 → 0 ∉ escaped token := by
  decide +kernel

theorem print_string_ptr_nulFree {str : Option Bytes} {text : Bytes}
    (printed : print_string_ptr str = .ok text) : 0 ∉ text := by
  cases str with
  | none =>
    cases printed
    exact List.not_mem_nil
  | some str =>
    rw [measured_ok printed]
    simp only [List.mem_cons, List.mem_append, List.mem_flatMap, List.mem_nil_iff, or_false, not_or,
      not_exists, not_and]
    refine ⟨by decide, fun token among => escaped_nulFree token ?_, by decide⟩
    simpa using List.mem_takeWhile_imp among

theorem separated_nulFree {separator : Bytes} (clean : 0 ∉ separator) {entries : List Bytes}
    (each : ∀ entry ∈ entries, 0 ∉ entry) : 0 ∉ separated separator entries := by
  fun_induction separated separator entries with
  | case1 => exact List.not_mem_nil
  | case2 entry => exact each entry List.mem_cons_self
  | case3 entry entries more ih =>
    rw [List.forall_mem_cons] at each
    rw [List.mem_append, List.mem_append, not_or, not_or]
    exact ⟨⟨each.1, clean⟩, ih each.2⟩

theorem tabs_nulFree (fmt : Bool) (depth : Nat) : 0 ∉ tabs fmt depth := by
  cases fmt with
  | false => exact List.not_mem_nil
  | true => exact fun among => absurd (List.eq_of_mem_replicate among) (by decide)

theorem newline_nulFree (fmt : Bool) : 0 ∉ newline fmt := by
  cases fmt <;> decide

theorem composeMember_nulFree {depth : Nat} {entry : Bytes × Bytes} (name : 0 ∉ entry.1)
    (value : 0 ∉ entry.2) : 0 ∉ composeMember fmt depth entry := by
  unfold composeMember
  simp only [List.mem_append, not_or]
  refine ⟨⟨⟨⟨tabs_nulFree fmt depth, name⟩, by decide⟩, ?_⟩, value⟩
  cases fmt <;> decide

theorem composeArray_nulFree {entries : List Bytes} (each : ∀ entry ∈ entries, 0 ∉ entry)
    {text : Bytes} (composed : composeArray fmt entries = .ok text) : 0 ∉ text := by
  unfold composeArray at composed
  split at composed
  · rw [inBlock_ok composed]
    decide
  · rw [measured_ok composed]
    simp only [List.mem_cons, List.mem_append, List.mem_nil_iff, or_false, not_or]
    exact ⟨by decide, separated_nulFree (by cases fmt <;> decide) each, by decide⟩

theorem composeObject_nulFree {depth : Nat} {entries : List (Bytes × Bytes)}
    (each : ∀ entry ∈ entries, 0 ∉ entry.1 ∧ 0 ∉ entry.2) {text : Bytes}
    (composed : composeObject fmt depth entries = .ok text) : 0 ∉ text := by
  unfold composeObject at composed
  split at composed
  · rw [inBlock_ok composed]
    simp only [List.mem_cons, List.mem_append, List.mem_nil_iff, or_false, not_or]
    exact ⟨by decide, ⟨newline_nulFree fmt, tabs_nulFree fmt _⟩, by decide⟩
  · rw [measured_ok composed]
    simp only [List.mem_cons, List.mem_append, List.mem_nil_iff, or_false, not_or]
    refine ⟨by decide, ⟨⟨⟨newline_nulFree fmt, separated_nulFree ?_ ?_⟩, newline_nulFree fmt⟩,
      tabs_nulFree fmt _⟩, by decide⟩
    · rw [List.mem_cons, not_or]
      exact ⟨by decide, newline_nulFree fmt⟩
    · intro member among
      obtain ⟨entry, listed, rfl⟩ := List.mem_map.mp among
      exact composeMember_nulFree (each entry listed).1 (each entry listed).2

theorem each_right {α β : Type} {P : β → Prop} {l : List α} {m : List β}
    (each : List.Forall₂ (fun _ b => P b) l m) : ∀ b ∈ m, P b := by
  induction each with
  | nil => exact List.forall_mem_nil _
  | cons first _ ih => exact List.forall_mem_cons.mpr ⟨first, ih⟩

/-- Where the numbers are those of an `int`, no NUL is printed. -/
theorem print_value_nulFree (exact : ExactInts ops texts) {item : Item D} (built : Built ops item)
    (whole : ∀ value ∈ numbers item, ∃ i, value = exact.ofInt i) {depth : Nat} {text : Bytes}
    (printed : print_value texts fmt depth item = .ok text) : 0 ∉ text := by
  induction built generalizing depth text with
  | null | false | true =>
    rw [print_value] at printed
    cases printed
    decide
  | number value string =>
    obtain ⟨i, rfl⟩ := whole value (by simp [numbers])
    rw [print_value, exact.toInt, print_number] at printed
    dsimp only at printed
    rw [if_pos (exact.nearInt i)] at printed
    rw [inBlock_ok printed]
    exact fun among => (plain_of_mem among).2 rfl
  | string string _ =>
    rw [print_value] at printed
    exact print_string_ptr_nulFree printed
  | @array children string _ unnamed ih =>
    rw [print_value] at printed
    obtain ⟨entries, listed, composed⟩ := bind_ok printed
    refine composeArray_nulFree (each_right (l := children) ?_) composed
    refine print_entries_each (fun child among text printed => ?_) listed
    apply ih child among _ printed
    intro value held
    apply whole
    rw [numbers]
    exact List.mem_append_right _ (mem_numbersOf among held)
  | @object children string _ named ih =>
    rw [print_value] at printed
    obtain ⟨entries, listed, composed⟩ := bind_ok printed
    refine composeObject_nulFree (each_right (l := children) ?_) composed
    refine print_members_each (fun child among name text written printed => ?_) listed
    refine ⟨print_string_ptr_nulFree written, ih child among ?_ printed⟩
    intro value held
    apply whole
    rw [numbers]
    exact List.mem_append_right _ (mem_numbersOf among held)

end values

section parsing

variable {ops : DoubleOps D}

theorem lead_octet {uc mark : BitVec 32} (marked : mark[7] = true) :
    (uc ||| mark).setWidth 8 ≠ (0 : Byte) := by
  intro zero
  have bit := congrArg (fun octet : Byte => octet.getLsbD 7) zero
  simp [marked] at bit

theorem continuation_octet (uc : BitVec 32) : ((uc ||| 0x80) &&& 0xBF).setWidth 8 ≠ (0 : Byte) := by
  intro zero
  have bit := congrArg (fun octet : Byte => octet.getLsbD 7) zero
  simp at bit

theorem putUtf8_nulFree {mark : BitVec 32} (marked : mark[7] = true) (n : Nat)
    (uc : BitVec 32) {out : Bytes} (clean : 0 ∉ out) : 0 ∉ (putUtf8 mark n uc out).1 := by
  induction n generalizing uc out with
  | zero =>
    rw [putUtf8, List.mem_cons, not_or]
    exact ⟨(lead_octet marked).symm, clean⟩
  | succ n ih =>
    apply ih
    rw [List.mem_cons, not_or]
    exact ⟨(continuation_octet uc).symm, clean⟩

theorem utf8_nulFree {uc : BitVec 32} (given : uc ≠ 0) : 0 ∉ (utf8 uc).1 := by
  unfold utf8
  dsimp only
  split
  next small =>
    change (0 : Byte) ∉ [(uc ||| 0#32).setWidth 8]
    rw [List.mem_singleton, BitVec.or_zero]
    intro zero
    apply given
    apply BitVec.eq_of_toNat_eq
    have low := congrArg BitVec.toNat zero
    rw [BitVec.toNat_setWidth] at low
    rw [BitVec.lt_def] at small
    have bound : uc.toNat < 128 := small
    have value : uc.toNat % 2 ^ 8 = 0 := low.symm
    change uc.toNat = 0
    omega
  · repeat' split
    all_goals exact putUtf8_nulFree (by decide) _ _ List.not_mem_nil

/-- A surrogate pair is above `0xFFFF`. -/
theorem pair_ne_zero (uc uc2 : BitVec 32) :
    0x10000 + (((uc &&& 0x3FF) <<< 10) ||| (uc2 &&& 0x3FF)) ≠ 0 := by
  have high : (uc &&& 0x3FF).toNat ≤ 0x3FF := by
    rw [BitVec.toNat_and]
    exact Nat.and_le_right
  have low : (uc2 &&& 0x3FF).toNat ≤ 0x3FF := by
    rw [BitVec.toNat_and]
    exact Nat.and_le_right
  have shifted : ((uc &&& 0x3FF) <<< 10).toNat < 2 ^ 20 := by
    rw [BitVec.toNat_shiftLeft, Nat.shiftLeft_eq]
    omega
  have joined : (((uc &&& 0x3FF) <<< 10) ||| (uc2 &&& 0x3FF)).toNat < 2 ^ 20 := by
    rw [BitVec.toNat_or]
    exact Nat.or_lt_two_pow shifted (by omega)
  intro zero
  have base : ((0x10000 : Nat) : BitVec 32).toNat = 0x10000 := rfl
  have value : ((0x10000 : Nat) +
      (((uc &&& 0x3FF) <<< 10) ||| (uc2 &&& 0x3FF)) : BitVec 32).toNat = 0 :=
    congrArg BitVec.toNat zero
  rw [BitVec.toNat_add, base] at value
  omega

theorem transcode_nulFree {units units' : Units} {text written : Bytes} {moved : Nat}
    (h : transcode units text = .ok (written, units', moved)) : 0 ∉ written := by
  unfold transcode at h
  split at h
  · cases h
  next uc _ =>
    split at h
    · cases h
      exact List.not_mem_nil
    next valid =>
      rw [not_or] at valid
      split at h
      · split at h
        · split at h
          · cases h
          · split at h
            · cases h
              exact List.not_mem_nil
            next uc2 _ _ =>
              cases h
              exact utf8_nulFree (pair_ne_zero uc uc2)
        · cases h
          exact List.not_mem_nil
      · cases h
        exact utf8_nulFree valid.2

theorem unescape_ne : ∀ ch : Byte, ch ≠ 0 → unescape ch ≠ 0 := by
  decide +kernel

/-- The copying pass writes no NUL. -/
theorem copyString_nulFree {isplain : Bool} {ahead : Nat} {units : Units} {out text : Bytes}
    {copied : Bytes × Bytes} (h : copyString isplain ahead units out text = .ok copied)
    (clean : 0 ∉ out) (nulFree : 0 ∉ text) : 0 ∉ copied.1 := by
  fun_induction copyString isplain ahead units out text with
  | case1 units out =>
    cases h
    exact clean
  | case2 => cases h
  | case3 ahead units out ch text ih =>
    exact ih h clean fun among => nulFree (List.mem_cons_of_mem _ among)
  | case4 =>
    cases h
    exact clean
  | case5 => cases h
  | case6 => cases h
  | case7 units out text written units' moved transcoded inside ih =>
    apply ih h
    · rw [List.mem_append, not_or]
      exact ⟨clean, transcode_nulFree transcoded⟩
    · exact fun among => nulFree (List.mem_cons_of_mem _ (List.mem_cons_of_mem _ among))
  | case8 units out escape text single inside ih =>
    rw [List.mem_cons, List.mem_cons, not_or, not_or] at nulFree
    apply ih h
    · rw [List.mem_append, not_or, List.mem_singleton]
      exact ⟨clean, (unescape_ne escape (Ne.symm nulFree.2.1)).symm⟩
    · exact nulFree.2.2
  | case9 units out ch text inside plain ih =>
    rw [List.mem_cons, not_or] at nulFree
    apply ih h
    · rw [List.mem_append, not_or, List.mem_singleton]
      exact ⟨clean, nulFree.1⟩
    · exact nulFree.2

/-- `parse_string` fills the two fields of the item with a string that has no NUL. -/
theorem parse_string_filled {item filled : Item D} {str rest : Bytes} (nulFree : 0 ∉ str)
    (h : parse_string .modified item str = .ok (filled, rest)) :
    ∃ text, 0 ∉ text ∧ filled = { item with valuestring := some text, type := .cJSON_String } := by
  obtain ⟨isplain, body, inside, scanned⟩ : ∃ isplain body, 0 ∉ body ∧
      scanString isplain item body = .ok (filled, rest) := by
    by_cases quoted : str.head? = some quote
    · obtain ⟨text, rfl⟩ := List.head?_eq_some_iff.mp quoted
      rw [parse_string_quote] at h
      exact ⟨false, text, fun among => nulFree (List.mem_cons_of_mem _ among), h⟩
    · rw [parse_string_bare item quoted] at h
      exact ⟨true, str, nulFree, h⟩
  unfold scanString at scanned
  split at scanned
  · cases scanned
  next out ptr copied =>
    split at scanned
    · cases scanned
    · cases scanned
      exact ⟨out, copyString_nulFree copied List.not_mem_nil inside, rfl⟩

/-- What every entry yields, the loop over the entries yields of all of them. -/
theorem parse_entries_yield {entry : Parser ParseStop Byte (Item D)} {P : Item D → Prop}
    (trims : Trims entry)
    (each : ∀ value child rest, 0 ∉ value → entry value = .ok (child, rest) → P child)
    {closing : Byte} {fuel : Nat} {value rest : Bytes} {children : List (Item D)}
    (nulFree : 0 ∉ value) (h : parse_entries closing entry fuel value = .ok (children, rest)) :
    ∀ child ∈ children, P child := by
  induction fuel generalizing value children with
  | zero => cases h
  | succ fuel ih =>
    rw [parse_entries_succ] at h
    obtain ⟨child, behind, read, after⟩ := andThen_ok h
    have shorter := padded_trims trims read
    have first : P child := by
      obtain ⟨result, entered, returned⟩ := bind_ok read
      cases returned
      exact each _ _ _ (fun among => nulFree ((skip_suffix value).mem among)) entered
    unfold afterEntry at after
    split at after
    · obtain ⟨more, entered, returned⟩ := bind_ok after
      cases returned
      rw [List.forall_mem_cons]
      exact ⟨first, ih (fun among => nulFree (shorter.mem (List.mem_of_mem_tail among))) entered⟩
    · split at after
      · cases after
        exact List.forall_mem_singleton.mpr first
      · cases after

theorem parse_bracketed_yield {entries : Parser ParseStop Byte (List (Item D))}
    {P : List (Item D) → Prop} (none : P [])
    (each : ∀ value children rest, 0 ∉ value → entries value = .ok (children, rest) → P children)
    {type : ItemType} {opening closing : Byte} {item tree : Item D} {value rest : Bytes}
    (fresh : item.child = []) (nulFree : 0 ∉ value)
    (h : parse_bracketed type opening closing entries item value = .ok (tree, rest)) :
    ∃ children, P children ∧ tree = { item with type := type, child := children } := by
  have inside : 0 ∉ skip value.tail := fun among =>
    nulFree (List.mem_of_mem_tail ((skip_suffix _).mem among))
  unfold parse_bracketed at h
  split at h
  · cases h
  · dsimp only at h
    split at h
    · cases h
      refine ⟨[], none, ?_⟩
      rw [← fresh]
    · obtain ⟨read, entered, returned⟩ := bind_ok h
      cases returned
      exact ⟨read.1, each _ _ _ inside entered, rfl⟩

/-- The parser builds trees of its shape, with the name of the item it was given. -/
theorem parse_value_built (fuel : Nat) (type : ItemType) (string : Option Bytes)
    {value rest : Bytes} {tree : Item D} (nulFree : 0 ∉ value)
    (h : parse_value ops .modified fuel (blank ops type string) value = .ok (tree, rest)) :
    Built ops tree ∧ tree.string = string := by
  induction fuel generalizing type string value rest tree with
  | zero => cases h
  | succ fuel ih =>
    have trims := parse_value_trims ops .modified fuel
    rw [parse_value, parse_case_eq] at h
    cases begins : start .modified value with
    | literal word =>
      rw [begins] at h
      cases h
      cases word with
      | null => exact ⟨.null string, rfl⟩
      | false => exact ⟨.false string, rfl⟩
      | true => exact ⟨.true string, rfl⟩
    | number =>
      rw [begins] at h
      cases h
      exact ⟨.number _ string, rfl⟩
    | array =>
      rw [begins] at h
      obtain ⟨children, each, rfl⟩ := parse_bracketed_yield
        (P := fun children => ∀ child ∈ children, Built ops child ∧ child.string = none)
        (List.forall_mem_nil _) (fun value children rest nulFree read =>
          parse_entries_yield (trims _) (fun value child rest nulFree read => ih _ _ nulFree read)
            nulFree read) rfl nulFree h
      exact ⟨.array string (fun child among => (each child among).1)
        fun child among => (each child among).2, rfl⟩
    | object =>
      rw [begins] at h
      have member : ∀ value child rest, 0 ∉ value →
          parse_member ops .modified (parse_value ops .modified fuel) value = .ok (child, rest) →
            Built ops child ∧ ∃ name, child.string = some name ∧ 0 ∉ name := by
        intro value child rest nulFree read
        rw [parse_member_eq] at read
        obtain ⟨filled, middle, named, read⟩ := andThen_ok read
        obtain ⟨_, middle', skipped, read⟩ := andThen_ok read
        obtain ⟨_, middle'', colon, read⟩ := andThen_ok read
        obtain ⟨_, behind, skipped', read⟩ := andThen_ok read
        obtain ⟨name, clean, rfl⟩ := parse_string_filled nulFree named
        have suffix := (blanks_trims skipped').trans ((expect_trims _ colon).trans
          ((blanks_trims skipped).trans (parse_string_trims .modified _ named)))
        have result := ih .cJSON_String (some name) (fun among => nulFree (suffix.mem among)) read
        exact ⟨result.1, name, result.2, clean⟩
      obtain ⟨children, each, rfl⟩ := parse_bracketed_yield
        (P := fun children => ∀ child ∈ children, Built ops child ∧
          ∃ name, child.string = some name ∧ 0 ∉ name)
        (List.forall_mem_nil _) (fun value children rest nulFree read =>
          parse_entries_yield (parse_member_trims ops .modified trims) member nulFree read)
        rfl nulFree h
      exact ⟨.object string (fun child among => (each child among).1)
        fun child among => (each child among).2, rfl⟩
    | string =>
      rw [begins] at h
      obtain ⟨text, clean, rfl⟩ := parse_string_filled nulFree h
      exact ⟨.string string clean, rfl⟩
    | unknown =>
      rw [begins] at h
      cases h

end parsing

/-- A tree that the parser has built from a text and whose numbers are those of an `int` is
read back from what the printer writes for it, formatted or not. -/
theorem parsed_tree_restored (ops : DoubleOps D) (texts : DoubleText D)
    (exact : ExactInts ops texts) (value rest : Bytes) (tree : Item D) (nulFree : 0 ∉ value)
    (parsed : cJSON_Parse ops value = .ok (tree, rest))
    (whole : ∀ number ∈ numbers tree, ∃ i, number = exact.ofInt i) (fmt : Bool) (text : Bytes)
    (printed : print_value texts fmt 0 tree = .ok text) :
    0 ∉ text ∧ cJSON_Parse ops text = .ok (tree, []) := by
  have built : Built ops tree ∧ tree.string = none := by
    rw [cJSON_Parse, cJSON_ParseWithOpts_read] at parsed
    obtain ⟨read, parsed, returned⟩ := bind_ok parsed
    cases returned
    exact parse_value_built _ .cJSON_False none
      (fun among => nulFree ((skip_suffix value).mem among)) parsed
  obtain ⟨opens, restores⟩ := built_restores exact built.1 whole printed
  refine ⟨print_value_nulFree exact built.1 whole printed, ?_⟩
  have read := restores .cJSON_False [] (.inl rfl)
  have unskipped := opens.skip []
  rw [List.append_nil] at read unskipped
  rw [built.2] at read
  rw [cJSON_Parse, cJSON_ParseWithOpts_read, unskipped]
  change readValue ops (blank ops .cJSON_False none) text >>= _ = _
  rw [read]
  rfl

section sample

/-- The digits of a whole number, as `%.0f` writes them. -/
def wholeText (n : Int) : Bytes :=
  (if n < 0 then [chr '-'] else []) ++ (numeral 10 n.natAbs).map digitChar

/-- The texts of the whole numbers below `1e60`. -/
def wholeTexts : DoubleText Int where
  nearInt i n := i.toInt == n
  whole n := decide (n.natAbs < 10 ^ 60)
  extreme _ := true
  wholeText := wholeText
  scientificText _ := []
  fixedText _ := []
  whole_fits n small := by
    have digits := length_numeral_le (by decide) (of_decide_eq_true small) (by decide)
    rw [wholeText, List.length_append, List.length_map]
    split
    · rw [List.length_singleton]
      omega
    · rw [List.length_nil]
      omega
  scientific_fits _ := by decide
  fixed_fits _ _ _ := by decide

def wholeExact : ExactInts wholeNumbers wholeTexts where
  exactly n := n
  ofInt i := i.toInt
  zero := rfl
  digit n digit _ _ := by simp [wholeNumbers]
  scaled i := by
    have magnitude : (if i.toInt < 0 then -(i.toInt.natAbs : Int) else i.toInt.natAbs) = i.toInt := by
      split <;> omega
    simp only [wholeNumbers, decide_eq_true_eq, magnitude]
    exact Int.mul_one _
  toInt i := BitVec.ofInt_toInt
  nearInt i := beq_self_eq_true _

/-- What is printed for the tree of `{"a":[-12,true],"b":"\n"}`. -/
def sampleFormatted : Bytes :=
  lit ['{', '\n', '\t', '"', 'a', '"', ':', '\t', '[', '-', '1', '2', ',', ' ', 't', 'r', 'u', 'e',
    ']', ',', '\n', '\t', '"', 'b', '"', ':', '\t', '"', '\\', 'n', '"', '\n', '}']

theorem sample_printed : print_value wholeTexts true 0 sampleTree = .ok sampleFormatted := by
  decide +kernel

theorem sample_number {number : Int} (among : number ∈ numbers sampleTree) :
    number = wholeExact.ofInt (-12) := by
  have only : number = -12 := by simpa [numbers, numbersOf, sampleTree] using among
  rw [only]
  rfl

theorem parsed_tree_restored_sample :
    0 ∉ sampleFormatted ∧ cJSON_Parse wholeNumbers sampleFormatted = .ok (sampleTree, []) :=
  parsed_tree_restored wholeNumbers wholeTexts wholeExact sampleText [] sampleTree (by decide)
    (by rfl) (fun number among => ⟨-12, sample_number among⟩) true sampleFormatted sample_printed

end sample

end BlmLink.Guarantees.JsonRoundTrip
