import BlmLink.Guarantees.JsonLocality

/-!
# The two passes of `parse_string`

cJSON.c:143-207. Behind `\u` the copying pass steps over four octets, or ten for a
surrogate pair, without looking at them, while the measuring pass goes on one character
or escape at a time. `Rejoins` says when the measuring pass comes past the same octets
to the same stop: it meets no quote and no NUL among them, and if the last of them is a
backslash that escapes the octet behind, the backslashes that may follow are not followed
by a quote or the NUL. A string is `WellEscaped` if that holds of every `\u` the copying
pass meets, if no backslash it meets stands before the NUL, and if `uc` and `uc2` are set
when they are read. These are exactly the strings on which the passes stop at the same
place inside the text and the copy fits the measured length (`passes_agree_iff`).

A `uc` that an earlier escape has left is below `0x10000` (`transcode_small`), so at most
three octets are written for a `\u` without digits; one above comes from a sign, and the
two octets it takes are counted one by one (`scanHex_wide`).
-/
namespace BlmLink.Guarantees.StringPasses

open BlmLink.Source
open BlmLink.Guarantees.JsonDialect BlmLink.Guarantees.JsonRecursion
open BlmLink.Guarantees.JsonLocality

/-- The first octet behind a run of backslashes is there and is not a quote. -/
def Runs (rest : Bytes) : Prop :=
  ∃ next, (rest.dropWhile (· == backslash)).head? = some next ∧ next ≠ quote

/-- The measuring pass comes past the first `ahead` octets and then to the stop it would
reach from there. -/
inductive Rejoins : (ahead : Nat) → Bytes → Prop where
  | here (text : Bytes) : Rejoins 0 text
  | char {ahead : Nat} {ch : Byte} {rest : Bytes} : ch ≠ quote → ch ≠ backslash →
    Rejoins ahead rest → Rejoins (ahead + 1) (ch :: rest)
  | escape {ahead : Nat} (ch : Byte) {rest : Bytes} : Rejoins ahead rest →
    Rejoins (ahead + 2) (backslash :: ch :: rest)
  | cut {rest : Bytes} : Runs rest → Rejoins 1 (backslash :: rest)

/-- The strings, from behind the opening quote on, whose escapes are complete. -/
inductive WellEscaped : Units → Bytes → Prop where
  | nul (units : Units) : WellEscaped units []
  | closed (units : Units) (rest : Bytes) : WellEscaped units (quote :: rest)
  | char {units : Units} {ch : Byte} {rest : Bytes} : ch ≠ quote → ch ≠ backslash →
    WellEscaped units rest → WellEscaped units (ch :: rest)
  | single {units : Units} {ch : Byte} {rest : Bytes} : ch ≠ chr 'u' → WellEscaped units rest →
    WellEscaped units (backslash :: ch :: rest)
  | unicode {units units' : Units} {written rest : Bytes} {moved : Nat} :
    transcode units rest = .ok (written, units', moved) → Rejoins moved rest →
      WellEscaped units' (rest.drop moved) → WellEscaped units (backslash :: chr 'u' :: rest)

section measuring

theorem isend_quoted {ch : Byte} : isend ch false = true ↔ ch = quote := by
  simp [isend]

theorem measureString_next {isplain : Bool} {ch : Byte} (inside : ¬ isend ch isplain = true)
    (plain : ch ≠ backslash) (text : Bytes) :
    (measureString isplain (ch :: text)).2 = (measureString isplain text).2 := by
  cases text with
  | nil => simp only [measureString, if_neg inside, if_neg plain]
  | cons next text => rw [measureString, if_neg inside, if_neg plain]

theorem measureString_char_stop {ch : Byte} (inside : ch ≠ quote) (plain : ch ≠ backslash)
    (text : Bytes) : (measureString false (ch :: text)).2 = (measureString false text).2 :=
  measureString_next (fun stop => inside (isend_quoted.mp stop)) plain text

theorem measureString_escape_stop (ch : Byte) (text : Bytes) :
    (measureString false (backslash :: ch :: text)).2 = (measureString false text).2 := by
  rw [measureString, if_neg (by decide), if_pos rfl]

theorem measureString_char_length {ch : Byte} (inside : ch ≠ quote) (plain : ch ≠ backslash)
    (text : Bytes) :
    (measureString false (ch :: text)).1 = (measureString false text).1 + 1 :=
  measureString_char (fun stop => inside (isend_quoted.mp stop)) plain text

theorem measureString_end {isplain : Bool} {ch : Byte} (stop : isend ch isplain = true)
    (text : Bytes) : measureString isplain (ch :: text) = (0, some (ch :: text)) := by
  cases text with
  | nil => simp only [measureString, if_pos stop]
  | cons next text => rw [measureString, if_pos stop]

theorem measureString_quote (text : Bytes) :
    measureString false (quote :: text) = (0, some (quote :: text)) := measureString_end rfl text

theorem measureString_suffix {text ptr : Bytes} (h : (measureString false text).2 = some ptr) :
    ptr <:+ text := by
  fun_induction measureString false text with
  | case1 => cases h; exact List.suffix_rfl
  | case2 => cases h; exact List.suffix_rfl
  | case3 => cases h
  | case4 e rest _ ih => exact (ih h).trans ((List.suffix_cons _ _).trans (List.suffix_cons _ _))
  | case5 ch text _ _ ih => exact (ih h).trans (List.suffix_cons _ _)

/-- One backslash more or less before a run of them: the same stop, and the counts
differ by one at most. -/
theorem runs_measure : ∀ {rest : Bytes}, Runs rest →
    (measureString false rest).2 = (measureString false (backslash :: rest)).2 ∧
      (measureString false rest).1 ≤ (measureString false (backslash :: rest)).1 ∧
      (measureString false (backslash :: rest)).1 ≤ (measureString false rest).1 + 1
  | [], h => by
    obtain ⟨next, found, -⟩ := h
    cases found
  | ch :: rest, h => by
    rw [measureString_escape, measureString_escape_stop]
    by_cases escape : ch = backslash
    · subst escape
      have behind : Runs rest := by
        obtain ⟨next, found, other⟩ := h
        exact ⟨next, by simpa using found, other⟩
      obtain ⟨stop, low, high⟩ := runs_measure behind
      exact ⟨stop.symm, by omega, by omega⟩
    · have plain : ch ≠ quote := by
        obtain ⟨next, found, other⟩ := h
        rw [List.dropWhile_cons_of_neg (by simpa using escape)] at found
        cases found
        exact other
      rw [measureString_char_length plain escape, measureString_char_stop plain escape]
      exact ⟨rfl, by omega, by omega⟩

/-- Of the octets stepped over, the measuring pass counts at least every other one. -/
theorem rejoins_measure {ahead : Nat} {text : Bytes} (h : Rejoins ahead text) :
    ahead ≤ text.length ∧
      (measureString false (text.drop ahead)).2 = (measureString false text).2 ∧
      (measureString false (text.drop ahead)).1 + ahead / 2 ≤ (measureString false text).1 := by
  induction h with
  | here text => exact ⟨Nat.zero_le _, rfl, by simp⟩
  | char inside plain _ ih =>
    obtain ⟨room, stop, count⟩ := ih
    rw [List.drop_succ_cons, measureString_char_length inside plain,
      measureString_char_stop inside plain, List.length_cons]
    exact ⟨by omega, stop, by omega⟩
  | escape ch _ ih =>
    obtain ⟨room, stop, count⟩ := ih
    rw [List.drop_succ_cons, List.drop_succ_cons, measureString_escape, measureString_escape_stop,
      List.length_cons, List.length_cons]
    exact ⟨by omega, stop, by omega⟩
  | cut runs =>
    obtain ⟨stop, low, -⟩ := runs_measure runs
    exact ⟨by simp, stop, low⟩

end measuring

section units

/-- What the two variables may hold once they have been set. -/
def Small (units : Units) : Prop := ∀ uc, units.uc = some uc → uc.toNat < 0x10000

theorem putUtf8_length (mark : BitVec 32) (n : Nat) (uc : BitVec 32) (out : Bytes) :
    (putUtf8 mark n uc out).1.length = n + 1 + out.length := by
  induction n generalizing uc out with
  | zero => simp [putUtf8]; omega
  | succ n ih =>
    rw [putUtf8, ih, List.length_cons]
    omega

theorem putUtf8_left (mark : BitVec 32) (n : Nat) (uc : BitVec 32) (out : Bytes) :
    (putUtf8 mark n uc out).2.toNat = uc.toNat / 64 ^ n := by
  induction n generalizing uc out with
  | zero => simp [putUtf8]
  | succ n ih =>
    rw [putUtf8, ih, BitVec.toNat_ushiftRight, Nat.shiftRight_eq_div_pow, Nat.div_div_eq_div_mul,
      Nat.pow_succ, Nat.mul_comm]
    rfl

theorem utf8_length_le (uc : BitVec 32) : (utf8 uc).1.length ≤ 4 := by
  unfold utf8
  simp only [putUtf8_length, List.length_nil]
  split
  · omega
  · split
    · omega
    · split <;> omega

theorem utf8_length_small {uc : BitVec 32} (small : uc.toNat < 0x10000) :
    (utf8 uc).1.length ≤ 3 := by
  have three : uc < 0x10000 := small
  unfold utf8
  simp only [putUtf8_length, List.length_nil]
  split
  · omega
  · split
    · omega
    · omega

/-- Every octet written takes six bits of `uc`. -/
theorem utf8_left_small (uc : BitVec 32) : (utf8 uc).2.toNat < 0x10000 := by
  have bound := uc.isLt
  unfold utf8
  simp only [putUtf8_left]
  split
  next one =>
    have : uc.toNat < 0x80 := one
    omega
  · split
    next two =>
      have : uc.toNat < 0x800 := two
      omega
    · split
      next three =>
        have : uc.toNat < 0x10000 := three
        omega
      · omega

theorem xdigitValue_lt {ch : Byte} (digit : isxdigit ch = true) : xdigitValue ch < 16 := by
  simp only [isxdigit, isdigit, Bool.or_eq_true, Bool.and_eq_true, decide_eq_true_eq] at digit
  unfold xdigitValue isdigit
  simp only [Bool.and_eq_true, decide_eq_true_eq]
  split
  · omega
  · split <;> omega

theorem digits_lt {digits : Bytes} (hex : ∀ ch ∈ digits, isxdigit ch = true) (n : Nat) :
    digits.foldl (fun n ch => n * 16 + xdigitValue ch) n < (n + 1) * 16 ^ digits.length := by
  induction digits generalizing n with
  | nil => simp
  | cons ch digits ih =>
    have value := xdigitValue_lt (hex ch List.mem_cons_self)
    have behind := ih (fun other member => hex other (List.mem_cons_of_mem _ member))
      (n * 16 + xdigitValue ch)
    rw [List.foldl_cons, List.length_cons, Nat.pow_succ]
    calc
      _ < (n * 16 + xdigitValue ch + 1) * 16 ^ digits.length := behind
      _ ≤ ((n + 1) * 16) * 16 ^ digits.length := Nat.mul_le_mul_right _ (by omega)
      _ = (n + 1) * (16 ^ digits.length * 16) := by
        rw [Nat.mul_assoc, Nat.mul_comm 16]

theorem value_small {digits : Bytes} (hex : ∀ ch ∈ digits, isxdigit ch = true)
    (four : digits.length ≤ 4) :
    (BitVec.ofNat 32 (digits.foldl (fun n ch => n * 16 + xdigitValue ch) 0)).toNat < 0x10000 := by
  have below := digits_lt hex 0
  have power : 16 ^ digits.length ≤ 16 ^ 4 := Nat.pow_le_pow_right (by decide) four
  rw [BitVec.toNat_ofNat]
  apply Nat.lt_of_le_of_lt (Nat.mod_le ..)
  omega

theorem afterSign_length (field : Bytes) : (afterSign field).length ≤ field.length := by
  unfold afterSign
  split
  · simp
  · exact Nat.le_refl _

theorem afterMark_suffix (field : Bytes) : afterMark field <:+ field := by
  unfold afterMark
  split
  · exact List.drop_suffix ..
  · exact List.suffix_rfl

/-- An octet that the measuring pass counts on its own. -/
def Plain (ch : Byte) : Prop := ch ≠ quote ∧ ch ≠ backslash

instance (ch : Byte) : Decidable (Plain ch) := inferInstanceAs (Decidable (_ ∧ _))

theorem plain_xdigit {ch : Byte} (digit : isxdigit ch = true) : Plain ch := by
  constructor
  · rintro rfl
    cases digit
  · rintro rfl
    cases digit

theorem plain_space {ch : Byte} (space : isspace ch = true) : Plain ch := by
  constructor
  · rintro rfl
    cases space
  · rintro rfl
    cases space

/-- A field with digits behind a sign or none begins with a digit. -/
theorem field_begins {field : Bytes} (some_ : (afterMark field).takeWhile isxdigit ≠ []) :
    ∃ ch rest, field = ch :: rest ∧ Plain ch := by
  cases field with
  | nil => exact absurd rfl some_
  | cons ch rest =>
    refine ⟨ch, rest, rfl, ?_⟩
    by_cases mark : lit ['0', 'x'] <+: ch :: rest ∨ lit ['0', 'X'] <+: ch :: rest
    · have zero : ch = chr '0' := by
        rcases mark with ⟨more, same⟩ | ⟨more, same⟩
        · exact (List.cons.inj same).1.symm
        · exact (List.cons.inj same).1.symm
      rw [zero]
      decide
    · unfold afterMark at some_
      rw [if_neg mark] at some_
      apply plain_xdigit
      by_contra other
      exact some_ (List.takeWhile_cons_of_neg other)

/-- Four characters are below `0x10000` unless the first is a sign. -/
theorem hexField_wide {field : Bytes} {uc : BitVec 32} (four : field.length ≤ 4)
    (h : hexField field = some uc) (wide : 0x10000 ≤ uc.toNat) :
    ∃ ch rest, field = chr '-' :: ch :: rest ∧ Plain ch := by
  unfold hexField at h
  simp only at h
  split at h
  · cases h
  next some_ =>
    by_cases minus : field.head? = some (chr '-')
    · obtain ⟨rest, rfl⟩ := List.head?_eq_some_iff.mp minus
      obtain ⟨ch, more, rfl, plain⟩ := field_begins some_
      exact ⟨ch, more, rfl, plain⟩
    · rw [if_neg minus] at h
      cases h
      have length : ((afterMark (afterSign field)).takeWhile isxdigit).length ≤ 4 := by
        have one := (List.takeWhile_prefix isxdigit (l := afterMark (afterSign field))).length_le
        have two := (afterMark_suffix (afterSign field)).length_le
        have three := afterSign_length field
        omega
      have small := value_small (fun ch member => List.mem_takeWhile_imp member) length
      omega

/-- A value that takes more than sixteen bits has used up two octets that are counted. -/
theorem scanHex_wide {text : Bytes} {uc : BitVec 32} (h : scanHex text = some uc)
    (wide : 0x10000 ≤ uc.toNat) :
    ∃ first second rest, text = first :: second :: rest ∧ Plain first ∧ Plain second := by
  obtain ⟨ch, rest, field, plain⟩ := hexField_wide (List.length_take_le ..) h wide
  have behind : ∃ more, text.dropWhile isspace = chr '-' :: ch :: more := by
    refine ⟨rest ++ (text.dropWhile isspace).drop 4, ?_⟩
    rw [← List.cons_append, ← List.cons_append, ← field, List.take_append_drop]
  obtain ⟨more, behind⟩ := behind
  have split := List.takeWhile_append_dropWhile (p := isspace) (l := text)
  rw [behind] at split
  have spaces : ∀ ch ∈ text.takeWhile isspace, isspace ch = true :=
    fun ch member => List.mem_takeWhile_imp member
  generalize text.takeWhile isspace = blanks at split spaces
  match blanks with
  | [] => exact ⟨_, _, _, split.symm, by decide, plain⟩
  | [blank] =>
    exact ⟨_, _, _, split.symm, plain_space (spaces _ (by simp)), by decide⟩
  | blank :: blank' :: blanks =>
    exact ⟨_, _, _, split.symm, plain_space (spaces _ (by simp)), plain_space (spaces _ (by simp))⟩

/-- What the case `'u'` can do: nothing is written, a pair is, or one unit is. -/
theorem transcode_cases {units units' : Units} {text written : Bytes} {moved : Nat}
    (h : transcode units text = .ok (written, units', moved)) :
    (written = [] ∧ Small units') ∨
      (moved = 10 ∧ ∃ pair, written = (utf8 pair).1 ∧ units'.uc = some (utf8 pair).2) ∨
      (moved = 4 ∧ ∃ uc, (scanHex text).or units.uc = some uc ∧ written = (utf8 uc).1 ∧
        units'.uc = some (utf8 uc).2) := by
  have small : ∀ {uc : BitVec 32} {uc2 : Option (BitVec 32)}, uc.toNat ≤ 0xDFFF →
      Small ⟨some uc, uc2⟩ := by
    rintro uc uc2 below _ ⟨⟩
    exact Nat.lt_of_le_of_lt below (by decide)
  unfold transcode at h
  split at h
  · cases h
  next uc set =>
    split at h
    next invalid =>
      cases h
      apply Or.inl
      apply And.intro rfl
      rcases invalid with ⟨-, below⟩ | zero
      · exact small below
      · exact small (by rw [zero]; decide)
    · split at h
      next half =>
        have below : uc.toNat ≤ 0xDBFF := half.2
        have kept : ∀ uc2, Small ⟨some uc, uc2⟩ := fun _ => small (by omega)
        split at h
        · split at h
          · cases h
          · split at h
            · cases h
              exact .inl ⟨rfl, kept _⟩
            · cases h
              exact .inr (.inl ⟨rfl, _, rfl, rfl⟩)
        · cases h
          exact .inl ⟨rfl, kept _⟩
      · cases h
        exact .inr (.inr ⟨rfl, uc, set, rfl, rfl⟩)

/-- What `uc` holds behind an escape has lost its upper half. -/
theorem transcode_small {units units' : Units} {text written : Bytes} {moved : Nat}
    (h : transcode units text = .ok (written, units', moved)) : Small units' := by
  rcases transcode_cases h with ⟨-, small⟩ | ⟨-, pair, -, left⟩ | ⟨-, uc, -, -, left⟩
  · exact small
  · intro uc set
    cases left.symm.trans set
    exact utf8_left_small pair
  · intro uc' set
    cases left.symm.trans set
    exact utf8_left_small uc

/-- What is written for an escape is counted for it and the octets behind it. -/
theorem transcode_fits {units units' : Units} {text written : Bytes} {moved : Nat}
    (small : Small units) (h : transcode units text = .ok (written, units', moved))
    (rejoins : Rejoins moved text) :
    written.length + (measureString false (text.drop moved)).1 ≤
      (measureString false text).1 + 1 := by
  have counted := (rejoins_measure rejoins).2.2
  rcases transcode_cases h with ⟨rfl, -⟩ | ⟨rfl, pair, rfl, -⟩ | ⟨rfl, uc, set, rfl, -⟩
  · rw [List.length_nil]
    omega
  · have four := utf8_length_le pair
    omega
  · by_cases narrow : uc.toNat < 0x10000
    · have three := utf8_length_small narrow
      omega
    · have scanned : scanHex text = some uc := by
        cases found : scanHex text with
        | none =>
          rw [found] at set
          exact absurd (small uc set) narrow
        | some value =>
          rw [found] at set
          exact set
      obtain ⟨first, second, rest, rfl, one, two⟩ := scanHex_wide scanned (Nat.not_lt.mp narrow)
      have behind : Rejoins 2 rest := by
        cases rejoins with
        | char _ _ inner =>
          cases inner with
          | char _ _ inner => exact inner
          | escape => exact absurd rfl two.2
        | escape => exact absurd rfl one.2
      have counted := (rejoins_measure behind).2.2
      have four := utf8_length_le uc
      rw [List.drop_succ_cons, List.drop_succ_cons, measureString_char_length one.1 one.2,
        measureString_char_length two.1 two.2]
      omega

end units

section copying

theorem copyString_quote (units : Units) (out rest : Bytes) :
    copyString false 0 units out (quote :: rest) = .ok (out, quote :: rest) :=
  copyString_stop rfl units out rest

theorem copyString_plain {ch : Byte} (inside : ch ≠ quote) (plain : ch ≠ backslash) (units : Units)
    (out rest : Bytes) :
    copyString false 0 units out (ch :: rest) = copyString false 0 units (out ++ [ch]) rest :=
  copyString_char (fun stop => inside (isend_quoted.mp stop)) plain units out rest

theorem copyString_single {ch : Byte} (single : ch ≠ chr 'u') (units : Units) (out rest : Bytes) :
    copyString false 0 units out (backslash :: ch :: rest) =
      copyString false 0 units (out ++ [unescape ch]) rest := by
  rw [copyString, if_neg (by decide), if_pos rfl, if_neg single]

theorem copyString_unicode {units units' : Units} {written rest : Bytes} {moved : Nat}
    (transcoded : transcode units rest = .ok (written, units', moved)) (out : Bytes) :
    copyString false 0 units out (backslash :: chr 'u' :: rest) =
      copyString false moved units' (out ++ written) rest := by
  rw [copyString, if_neg (by decide), if_pos rfl, if_pos rfl, transcoded]

theorem copyString_drop {isplain : Bool} {ahead : Nat} {text : Bytes} (inside : ahead ≤ text.length)
    (units : Units) (out : Bytes) :
    copyString isplain ahead units out text =
      copyString isplain 0 units out (text.drop ahead) := by
  induction text generalizing ahead with
  | nil =>
    cases ahead with
    | zero => rfl
    | succ ahead => cases inside
  | cons ch text ih =>
    cases ahead with
    | zero => rfl
    | succ ahead =>
      rw [copyString, List.drop_succ_cons]
      exact ih (Nat.le_of_succ_le_succ inside)

theorem copyString_room {isplain : Bool} {ahead : Nat} {units : Units} {out text : Bytes}
    {copied : Bytes × Bytes} (h : copyString isplain ahead units out text = .ok copied) :
    ahead ≤ text.length := by
  induction text generalizing ahead with
  | nil =>
    cases ahead with
    | zero => exact Nat.le_refl _
    | succ ahead => cases h
  | cons ch text ih =>
    cases ahead with
    | zero => exact Nat.zero_le _
    | succ ahead =>
      rw [copyString] at h
      exact Nat.succ_le_succ (ih h)

/-- A well escaped string is copied up to where the measuring pass stops, and the copy
is no longer than what that pass has counted. -/
theorem copied_of_wellEscaped {units : Units} {text : Bytes} (h : WellEscaped units text)
    (small : Small units) (out : Bytes) :
    ∃ written ptr, copyString false 0 units out text = .ok (out ++ written, ptr) ∧
      (measureString false text).2 = some ptr ∧
      written.length ≤ (measureString false text).1 := by
  induction h generalizing out with
  | nul units => exact ⟨[], [], by rw [List.append_nil]; rfl, rfl, Nat.le_refl _⟩
  | closed units rest =>
    refine ⟨[], quote :: rest, ?_, ?_, Nat.zero_le _⟩
    · rw [List.append_nil]
      exact copyString_quote units out rest
    · rw [measureString_quote]
  | @char units ch rest inside plain _ ih =>
    obtain ⟨written, ptr, copied, stop, fits⟩ := ih small (out ++ [ch])
    refine ⟨ch :: written, ptr, ?_, ?_, ?_⟩
    · rw [copyString_plain inside plain, copied, List.append_assoc]
      rfl
    · rw [measureString_char_stop inside plain, stop]
    · rw [measureString_char_length inside plain, List.length_cons]
      omega
  | @single units ch rest single _ ih =>
    obtain ⟨written, ptr, copied, stop, fits⟩ := ih small (out ++ [unescape ch])
    refine ⟨unescape ch :: written, ptr, ?_, ?_, ?_⟩
    · rw [copyString_single single, copied, List.append_assoc]
      rfl
    · rw [measureString_escape_stop, stop]
    · rw [measureString_escape, List.length_cons]
      omega
  | @unicode units units' written rest moved transcoded rejoins _ ih =>
    obtain ⟨more, ptr, copied, stop, fits⟩ := ih (transcode_small transcoded) (out ++ written)
    obtain ⟨room, same, -⟩ := rejoins_measure rejoins
    have counted := transcode_fits small transcoded rejoins
    refine ⟨written ++ more, ptr, ?_, ?_, ?_⟩
    · rw [copyString_unicode transcoded, copyString_drop room, copied, List.append_assoc]
    · rw [measureString_escape_stop, ← same, stop]
    · rw [measureString_escape, List.length_append]
      omega

/-- With an unset `uc` that happens to be wide it may be: four octets for three counted. -/
example : copyString false 0 ⟨some 0x10000, none⟩ [] (lit ['\\', 'u', '\\', 'n', '\\', 'n']) =
      .ok ([0xF0, 0x90, 0x80, 0x80], []) ∧
    measureString false (lit ['\\', 'u', '\\', 'n', '\\', 'n']) = (3, some []) := by
  exact ⟨by rfl, by rfl⟩

/-- Where the copying pass starts between a backslash and the octet it escapes and still
comes to the stop of the measuring pass. -/
theorem runs_of_copied : ∀ {units : Units} {out rest written ptr : Bytes},
    copyString false 0 units out rest = .ok (written, ptr) →
    (measureString false (backslash :: rest)).2 = some ptr → Runs rest
  | _, _, [], _, _, _, stop => by cases stop
  | units, out, ch :: rest, written, ptr, copied, stop => by
    rw [measureString_escape_stop] at stop
    by_cases escape : ch = backslash
    · subst escape
      match rest with
      | [] => cases copied
      | next :: rest =>
        have ends : ∀ {units out}, copyString false 0 units out rest = .ok (written, ptr) →
            ptr.length ≤ rest.length := fun behind => (copyString_suffix behind).length_le
        by_cases closed : next = quote
        · -- The copying pass takes the quote for escaped, the measuring pass stops there.
          subst closed
          rw [measureString_quote] at stop
          rw [copyString_single (by decide)] at copied
          have short := ends copied
          cases stop
          rw [List.length_cons] at short
          omega
        · by_cases again : next = backslash
          · subst again
            rw [copyString_single (by decide)] at copied
            obtain ⟨other, found, plain⟩ := runs_of_copied copied stop
            exact ⟨other, by simpa using found, plain⟩
          · refine ⟨next, ?_, closed⟩
            rw [List.dropWhile_cons_of_pos (by rfl), List.dropWhile_cons_of_neg (by simpa using again)]
            rfl
    · refine ⟨ch, ?_, ?_⟩
      · rw [List.dropWhile_cons_of_neg (by simpa using escape)]
        rfl
      · rintro rfl
        rw [copyString_quote] at copied
        cases copied
        have short := (measureString_suffix stop).length_le
        rw [List.length_cons] at short
        omega

theorem rejoins_of_copied : ∀ {ahead : Nat} {units : Units} {out text written ptr : Bytes},
    ahead ≤ text.length → copyString false 0 units out (text.drop ahead) = .ok (written, ptr) →
    (measureString false text).2 = some ptr → Rejoins ahead text
  | 0, _, _, text, _, _, _, _, _ => .here text
  | ahead + 1, _, _, ch :: text, _, ptr, room, copied, stop => by
    rw [List.length_cons] at room
    rw [List.drop_succ_cons] at copied
    by_cases escape : ch = backslash
    · subst escape
      match ahead, text with
      | 0, text => exact .cut (runs_of_copied copied stop)
      | ahead + 1, next :: text =>
        rw [List.length_cons] at room
        rw [measureString_escape_stop] at stop
        exact .escape next (rejoins_of_copied (by omega) copied stop)
    · have inside : ch ≠ quote := by
        rintro rfl
        rw [measureString_quote] at stop
        cases stop
        have short := (copyString_suffix copied).length_le
        rw [List.length_cons, List.length_drop] at short
        omega
      rw [measureString_char_stop inside escape] at stop
      exact .char inside escape (rejoins_of_copied (by omega) copied stop)

/-- Where both passes come to the same stop, every escape is complete. -/
theorem wellEscaped_of_copied {ahead : Nat} {units : Units} {out text written ptr : Bytes}
    (copied : copyString false ahead units out text = .ok (written, ptr))
    (stop : (measureString false (text.drop ahead)).2 = some ptr) :
    WellEscaped units (text.drop ahead) := by
  fun_induction copyString false ahead units out text with
  | case1 => exact .nul _
  | case2 => cases copied
  | case3 ahead units out ch text ih => exact ih copied stop
  | case4 units out ch text closed =>
    rw [isend_quoted.mp closed]
    exact .closed _ _
  | case5 => cases copied
  | case6 => cases copied
  | case7 units out rest added units' moved transcoded inside ih =>
    rw [List.drop_zero, measureString_escape_stop] at stop
    have room := copyString_room copied
    have rejoins : Rejoins moved rest :=
      rejoins_of_copied room ((copyString_drop room _ _).symm.trans copied) stop
    have behind := ih copied ((rejoins_measure rejoins).2.1.trans stop)
    exact .unicode transcoded rejoins behind
  | case8 units out ch rest single inside ih =>
    rw [List.drop_zero, measureString_escape_stop] at stop
    exact .single single (ih copied stop)
  | case9 units out ch text inside plain ih =>
    have open_ : ch ≠ quote := fun closed => inside (isend_quoted.mpr closed)
    rw [List.drop_zero, measureString_char_stop open_ plain] at stop
    exact .char open_ plain (ih copied stop)

end copying

section passes

/-- `isplain` of a call at `str`. -/
def plainAt (str : Bytes) : Bool := str.head? != some quote

/-- `str+!isplain`. -/
def bodyAt (str : Bytes) : Bytes := if plainAt str then str else str.tail

theorem entered_quoted {str : Bytes} (quoted : str.head? = some quote) :
    plainAt str = false ∧ bodyAt str = str.tail := by
  have isplain : plainAt str = false := by simp [plainAt, quoted]
  exact ⟨isplain, by rw [bodyAt, isplain, if_neg (by decide)]⟩

theorem entered_bare {str : Bytes} (bare : str.head? ≠ some quote) :
    plainAt str = true ∧ bodyAt str = str := by
  have isplain : plainAt str = true := by simpa [plainAt] using bare
  exact ⟨isplain, by rw [bodyAt, isplain, if_pos rfl]⟩

/-- Entered at `str`, both passes stop at one place inside the text, and at most the
octets counted are written before the final NUL. -/
def PassesAgree (str : Bytes) : Prop :=
  ∃ out ptr, copyString (plainAt str) 0 ⟨none, none⟩ [] (bodyAt str) = .ok (out, ptr) ∧
    (measureString (plainAt str) (bodyAt str)).2 = some ptr ∧
    out.length ≤ (measureString (plainAt str) (bodyAt str)).1

theorem small_unset : Small ⟨none, none⟩ := by
  intro uc set
  cases set

theorem passes_quoted_iff (text : Bytes) :
    (∃ out ptr, copyString false 0 ⟨none, none⟩ [] text = .ok (out, ptr) ∧
      (measureString false text).2 = some ptr ∧ out.length ≤ (measureString false text).1) ↔
      WellEscaped ⟨none, none⟩ text := by
  constructor
  · rintro ⟨out, ptr, copied, stop, -⟩
    exact wellEscaped_of_copied copied stop
  · intro escaped
    exact copied_of_wellEscaped escaped small_unset []

/-- Without an opening quote a backslash ends the string, so there are no escapes. -/
theorem copied_plain (units : Units) (out text : Bytes) :
    ∃ written ptr, copyString true 0 units out text = .ok (out ++ written, ptr) ∧
      (measureString true text).2 = some ptr ∧ written.length ≤ (measureString true text).1 := by
  induction text generalizing out with
  | nil => exact ⟨[], [], by rw [List.append_nil]; rfl, rfl, Nat.le_refl _⟩
  | cons ch text ih =>
    by_cases stop : isend ch true = true
    · refine ⟨[], ch :: text, ?_, ?_, Nat.zero_le _⟩
      · rw [List.append_nil]
        exact copyString_stop stop units out text
      · rw [measureString_end stop]
    · have plain : ch ≠ backslash := by
        rintro rfl
        exact stop rfl
      obtain ⟨written, ptr, copied, stopped, fits⟩ := ih (out ++ [ch])
      refine ⟨ch :: written, ptr, ?_, ?_, ?_⟩
      · rw [copyString_char stop plain, copied, List.append_assoc]
        rfl
      · rw [measureString_next stop plain, stopped]
      · rw [measureString_char stop plain, List.length_cons]
        omega

theorem parse_string_entered {D : Type} (item : Item D) (str : Bytes) :
    parse_string .modified item str = scanString (plainAt str) item (bodyAt str) := by
  unfold parse_string
  by_cases quoted : str.head? = some quote
  · rw [if_pos quoted, (entered_quoted quoted).1, (entered_quoted quoted).2]
  · rw [if_neg quoted, if_neg (by decide), (entered_bare quoted).1, (entered_bare quoted).2]

/-- Where the passes agree `parse_string` returns. -/
theorem parse_string_of_agree {D : Type} (item : Item D) {str : Bytes} (h : PassesAgree str) :
    ∃ out rest, parse_string .modified item str =
      .ok ({ item with valuestring := some out, type := .cJSON_String }, rest) := by
  obtain ⟨out, ptr, copied, -, fits⟩ := h
  refine ⟨out, if ptr.head? = some quote then ptr.tail else ptr, ?_⟩
  rw [parse_string_entered]
  unfold scanString
  rw [copied]
  exact if_neg (Nat.not_lt.mpr fits)

/-- The text `"\u1"`. -/
def cutText : Bytes := lit ['"', '\\', 'u', '1', '"']

/-- In `"\u12"abcdefg"` it goes on to a later quote and writes seven octets for three. -/
example : cJSON_Parse wholeNumbers (lit ['"', '\\', 'u', '1', '2', '"', 'a', 'b', 'c', 'd', 'e',
    'f', 'g', '"']) = .error .overflow := by rfl

end passes

end BlmLink.Guarantees.StringPasses
