import BlmLink.Source.UtilStrings
import Mathlib

/-!
# The order of `strcmpNoCase` and `strcmpCase`

Both compare what they see of the characters, the terminator included, in the lexicographic
order (`strcmpBy_neg_iff`), whatever the sign of `char` and wherever `tolower` puts the
characters beyond ASCII: it keeps them apart, as `toLower` does (`tolower_eq_iff`).

`strToBool` compares the `bool` of `compareNoCase` with zero and so answers the opposite
(`strToBool_opposite`).
-/
namespace BlmLink.Guarantees.CaseCompare

open BlmLink.Source

section order

variable {value : Byte → Int}

/-- What a comparison sees of a string. -/
def seen (value : Byte → Int) (s : Bytes) : List Int := s.map value ++ [value 0]

theorem strcmpBy_swap (value : Byte → Int) (a b : Bytes) :
    strcmpBy value b a = -strcmpBy value a b := by
  induction a generalizing b with
  | nil =>
    cases b with
    | nil => simp [strcmpBy]
    | cons d b => simp [strcmpBy]
  | cons c a ih =>
    cases b with
    | nil => simp [strcmpBy]
    | cons d b =>
      have same : (d ≠ 0 ∧ c ≠ 0 ∧ value d - value c = 0) ↔
          (c ≠ 0 ∧ d ≠ 0 ∧ value c - value d = 0) := by
        constructor
        · rintro ⟨nonzero, nonzero', equal⟩
          exact ⟨nonzero', nonzero, by omega⟩
        · rintro ⟨nonzero, nonzero', equal⟩
          exact ⟨nonzero', nonzero, by omega⟩
      simp only [strcmpBy, same]
      split
      · exact ih b
      · omega

/-- The terminator looks like no other character. -/
def Terminates (value : Byte → Int) : Prop := ∀ c, value c = value 0 → c = 0

theorem strcmpBy_neg_iff (terminates : Terminates value) {a b : Bytes} (nulFree : 0 ∉ a)
    (nulFree' : 0 ∉ b) : strcmpBy value a b < 0 ↔ seen value a < seen value b := by
  induction a generalizing b with
  | nil =>
    cases b with
    | nil => simp [strcmpBy, seen]
    | cons d b =>
      rw [List.mem_cons, not_or] at nulFree'
      have differs : value 0 ≠ value d := fun same => nulFree'.1 (terminates d same.symm).symm
      simp only [strcmpBy, deref, seen, List.headD_nil, List.headD_cons, List.map_nil, List.map_cons,
        List.nil_append, List.cons_append, List.cons_lt_cons_iff]
      omega
  | cons c a ih =>
    rw [List.mem_cons, not_or] at nulFree
    cases b with
    | nil =>
      have differs : value c ≠ value 0 := fun same => nulFree.1 (terminates c same).symm
      simp only [strcmpBy, deref, seen, List.headD_nil, List.headD_cons, List.map_nil, List.map_cons,
        List.nil_append, List.cons_append, List.cons_lt_cons_iff]
      omega
    | cons d b =>
      rw [List.mem_cons, not_or] at nulFree'
      simp only [strcmpBy, seen, List.map_cons, List.cons_append, List.cons_lt_cons_iff]
      split
      next going =>
        have same : value c = value d := by omega
        rw [ih nulFree.2 nulFree'.2, same]
        simp [seen]
      next stopped =>
        have differs : value c ≠ value d := by
          intro same
          exact stopped ⟨Ne.symm nulFree.1, Ne.symm nulFree'.1, by omega⟩
        omega

theorem strcmpBy_nonpos_iff (terminates : Terminates value) {a b : Bytes} (nulFree : 0 ∉ a)
    (nulFree' : 0 ∉ b) : strcmpBy value a b ≤ 0 ↔ seen value a ≤ seen value b := by
  have above := strcmpBy_neg_iff terminates nulFree' nulFree
  rw [strcmpBy_swap value a b] at above
  rw [← not_lt (a := seen value b), ← above]
  omega

theorem strcmpBy_eq_zero_iff (terminates : Terminates value) {a b : Bytes} (nulFree : 0 ∉ a)
    (nulFree' : 0 ∉ b) : strcmpBy value a b = 0 ↔ a.map value = b.map value := by
  have below := strcmpBy_nonpos_iff terminates nulFree nulFree'
  have above := strcmpBy_nonpos_iff terminates nulFree' nulFree
  rw [strcmpBy_swap value a b] at above
  have both : seen value a = seen value b ↔ seen value a ≤ seen value b ∧ seen value b ≤ seen value a :=
    le_antisymm_iff
  rw [← List.append_left_inj [value 0], ← seen, ← seen, both, ← below, ← above]
  omega

/-- The comparison is zero for equal strings only, changes its sign with its arguments, and
orders the strings. -/
theorem strcmpBy_laws (terminates : Terminates value) {a b c : Bytes} (nulFree : 0 ∉ a)
    (nulFree' : 0 ∉ b) (nulFree'' : 0 ∉ c) :
    (strcmpBy value a b = 0 ↔ a.map value = b.map value) ∧
    (strcmpBy value b a).sign = -(strcmpBy value a b).sign ∧
    (strcmpBy value a b ≤ 0 → strcmpBy value b c ≤ 0 → strcmpBy value a c ≤ 0) := by
  refine ⟨strcmpBy_eq_zero_iff terminates nulFree nulFree', ?_, ?_⟩
  · rw [strcmpBy_swap value a b, Int.sign_neg]
  · rw [strcmpBy_nonpos_iff terminates nulFree nulFree',
      strcmpBy_nonpos_iff terminates nulFree' nulFree'',
      strcmpBy_nonpos_iff terminates nulFree nulFree'']
    exact le_trans

end order

section characters

theorem charToInt_injective (sign : CharSign) {c d : Byte} (same : charToInt sign c = charToInt sign d) :
    c = d := by
  cases sign with
  | signed => exact BitVec.toInt_inj.mp same
  | unsigned => exact BitVec.toNat_inj.mp (Int.ofNat.inj same)

/-- What `toLower` makes of a character. -/
def lowered (sign : CharSign) (c : Byte) : Byte :=
  if charToInt sign (chr 'A') ≤ charToInt sign c ∧ charToInt sign c ≤ charToInt sign (chr 'Z')
  then c ||| 32 else c

theorem toNat_lowered (sign : CharSign) (c : Byte) : (lowered sign c).toNat =
    if 65 ≤ c.toNat ∧ c.toNat ≤ 90 then c.toNat + 32 else c.toNat := by
  cases sign with
  | signed =>
    revert c
    decide +kernel
  | unsigned =>
    revert c
    decide +kernel

/-- The value of a `char` is its octet, or 256 less from 128 on. -/
theorem charToInt_cases (sign : CharSign) (c : Byte) :
    charToInt sign c = c.toNat ∨ (128 ≤ c.toNat ∧ charToInt sign c = c.toNat - 256) := by
  cases sign with
  | unsigned => exact .inl rfl
  | signed =>
    rw [charToInt, BitVec.toInt_eq_toNat_cond]
    split <;> omega

/-- `tolower` gives the octet that `toLower` gives, or 256 less from 128 on. -/
theorem tolower_cases (loc : CLocale) (c : Byte) :
    loc.tolower (charToInt loc.sign c) = (lowered loc.sign c).toNat ∨
      (128 ≤ c.toNat ∧ loc.tolower (charToInt loc.sign c) = c.toNat - 256) := by
  have octet := c.isLt
  rw [toNat_lowered]
  rcases charToInt_cases loc.sign c with plain | ⟨high, negative⟩
  · left
    rw [plain, loc.domain _ (by omega) (by omega)]
    split <;> split <;> omega
  · rw [negative]
    rcases loc.negative (c.toNat - 256) (by omega) (by omega) with kept | unsigned
    · exact .inr ⟨high, kept⟩
    · left
      rw [unsigned, if_neg (by omega)]
      omega

/-- Characters look alike to `tolower` if `toLower` makes them equal. -/
theorem tolower_eq_iff (loc : CLocale) (c d : Byte) :
    loc.tolower (charToInt loc.sign c) = loc.tolower (charToInt loc.sign d) ↔
      lowered loc.sign c = lowered loc.sign d := by
  rw [← BitVec.toNat_inj]
  have lowC := toNat_lowered loc.sign c
  have lowD := toNat_lowered loc.sign d
  have octetC := c.isLt
  have octetD := d.isLt
  constructor
  · intro same
    rcases tolower_cases loc c with valueC | ⟨highC, valueC⟩
    · rcases tolower_cases loc d with valueD | ⟨highD, valueD⟩
      · omega
      · split at lowC <;> omega
    · rcases tolower_cases loc d with valueD | ⟨highD, valueD⟩
      · split at lowD <;> omega
      · rw [if_neg (by omega)] at lowC lowD
        omega
  · intro same
    by_cases high : 128 ≤ c.toNat
    · have equal : c = d := by
        apply BitVec.toNat_inj.mp
        split at lowC <;> split at lowD <;> omega
      rw [equal]
    · have low : ¬ 128 ≤ d.toNat := by
        split at lowC <;> split at lowD <;> omega
      rcases tolower_cases loc c with valueC | ⟨highC, _⟩
      · rcases tolower_cases loc d with valueD | ⟨highD, _⟩
        · rw [valueC, valueD, same]
        · exact absurd highD low
      · exact absurd highC high

theorem terminates_charToInt (sign : CharSign) : Terminates (charToInt sign) :=
  fun _ same => charToInt_injective sign same

theorem terminates_tolower (loc : CLocale) :
    Terminates fun c => loc.tolower (charToInt loc.sign c) := by
  intro c same
  have lowC := toNat_lowered loc.sign c
  have low0 : (lowered loc.sign 0).toNat = 0 := toNat_lowered loc.sign 0
  rw [(tolower_eq_iff loc c 0).mp same, low0] at lowC
  apply BitVec.toNat_inj.mp
  show c.toNat = 0
  split at lowC <;> omega

theorem map_tolower_eq_iff (loc : CLocale) (a b : Bytes) :
    a.map (fun c => loc.tolower (charToInt loc.sign c)) =
        b.map (fun c => loc.tolower (charToInt loc.sign c)) ↔
      toLower loc.sign a = toLower loc.sign b := by
  show _ ↔ a.map (lowered loc.sign) = b.map (lowered loc.sign)
  induction a generalizing b with
  | nil => cases b <;> simp
  | cons c a ih =>
    cases b with
    | nil => simp
    | cons d b =>
      simp only [List.map_cons, List.cons.injEq, ih]
      rw [tolower_eq_iff]

end characters

section comparisons

/-- For all strings without a terminator inside: `strcmpNoCase` is zero exactly when `toLower`
makes the strings equal, `strcmpCase` when they are equal; both change their sign with their
arguments and order the strings. -/
theorem strcmp_laws (loc : CLocale) (a b c : Bytes) (nulFree : 0 ∉ a) (nulFree' : 0 ∉ b)
    (nulFree'' : 0 ∉ c) :
    ((strcmpNoCase loc a b = 0 ↔ toLower loc.sign a = toLower loc.sign b) ∧
      (strcmpNoCase loc b a).sign = -(strcmpNoCase loc a b).sign ∧
      (strcmpNoCase loc a b ≤ 0 → strcmpNoCase loc b c ≤ 0 → strcmpNoCase loc a c ≤ 0)) ∧
    ((strcmpCase loc.sign a b = 0 ↔ a = b) ∧
      (strcmpCase loc.sign b a).sign = -(strcmpCase loc.sign a b).sign ∧
      (strcmpCase loc.sign a b ≤ 0 → strcmpCase loc.sign b c ≤ 0 →
        strcmpCase loc.sign a c ≤ 0)) := by
  constructor
  · rw [← map_tolower_eq_iff]
    exact strcmpBy_laws (terminates_tolower loc) nulFree nulFree' nulFree''
  · have injective : Function.Injective (charToInt loc.sign) := fun _ _ => charToInt_injective _
    rw [← (List.map_injective_iff.mpr injective).eq_iff]
    exact strcmpBy_laws (terminates_charToInt loc.sign) nulFree nulFree' nulFree''

/-- The library of an x86 target that leaves negative characters alone. -/
def plainLocale : CLocale where
  sign := .signed
  tolower := fun v => if 65 ≤ v ∧ v ≤ 90 then v + 32 else v
  domain := fun _ _ _ => rfl
  negative := fun v _ below => .inl (if_neg (by omega))

/-- A character below the terminator, and a string that begins another. -/
theorem strcmp_laws_negative :
    strcmpNoCase plainLocale [0xe9] [] ≤ 0 ∧ strcmpNoCase plainLocale [] [0x41] ≤ 0 ∧
      strcmpNoCase plainLocale [0xe9] [0x41] ≤ 0 :=
  ⟨by decide, by decide, (strcmp_laws plainLocale [0xe9] [] [0x41] (by decide) (by decide)
    (by decide)).1.2.2 (by decide) (by decide)⟩

/-- `strToBool` is true for what is not `true`. -/
theorem strToBool_iff (loc : CLocale) {s : Bytes} (nulFree : 0 ∉ s) :
    strToBool loc s = true ↔ toLower loc.sign s ≠ trueText := by
  have lowercase : toLower loc.sign trueText = trueText := by
    cases loc.sign <;> decide
  have zero := strcmpBy_eq_zero_iff (terminates_tolower loc) nulFree (show 0 ∉ trueText by decide)
  rw [map_tolower_eq_iff, lowercase] at zero
  simp [strToBool, compareNoCase, cString_of_nulFree nulFree, strcmpNoCase, zero]

/-- On no string does `strToBool` answer whether it is `true` in any case. -/
theorem strToBool_opposite (loc : CLocale) (s : Bytes) (nulFree : 0 ∉ s) :
    ¬ (strToBool loc s = true ↔ toLower loc.sign s = trueText) := by
  rw [strToBool_iff loc nulFree]
  exact fun both => iff_not_self both.symm

theorem strToBool_opposite_mixed :
    (0 : Byte) ∉ ([0x54, 0x72] : Bytes) ∧
      ¬ (strToBool plainLocale [0x54, 0x72] = true ↔ toLower .signed [0x54, 0x72] = trueText) :=
  ⟨by decide, strToBool_opposite plainLocale [0x54, 0x72] (by decide)⟩

theorem true_is_false :
    strToBool plainLocale trueText = false ∧ toLower .signed trueText = trueText ∧
      ¬ (strToBool plainLocale trueText = true ↔ toLower .signed trueText = trueText) := by
  decide

end comparisons

end BlmLink.Guarantees.CaseCompare
