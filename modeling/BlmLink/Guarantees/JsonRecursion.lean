import BlmLink.Guarantees.JsonDialect

/-!
# The parser without a recursion bound

cJSON.c:282-296, 317-342 and 403-436. Every function of the parser leaves an end of the
text it was given, so a bound above the length of the text is never used up
(`parse_value_total`) and does not matter (`parse_value_fuel`). `readValue`,
`readEntries` and `readMember` are the three loops with such a bound; they satisfy the
recursion of the source (`readValue_eq`, `readEntries_eq`).
-/
namespace BlmLink.Guarantees.JsonRecursion

open BlmLink.Lib.Parsing BlmLink.Source
open BlmLink.Guarantees.JsonDialect

variable {D : Type}

theorem skip_suffix (text : Bytes) : skip text <:+ text := List.dropWhile_suffix _

theorem blanks_trims : Trims blanks := by
  intro text value rest h
  cases h
  exact skip_suffix text

theorem expect_trims (ch : Byte) : Trims (expect ch) := by
  intro text value rest h
  rw [expect_ok h]
  exact List.suffix_cons _ _

theorem expect_shorter {ch : Byte} {text rest : Bytes} (h : expect ch text = .ok ((), rest)) :
    rest.length < text.length := by
  rw [expect_ok h]
  exact Nat.lt_succ_self _

theorem copyString_suffix {isplain : Bool} {ahead : Nat} {units : Units} {out text : Bytes}
    {written ptr : Bytes} (h : copyString isplain ahead units out text = .ok (written, ptr)) :
    ptr <:+ text := by
  fun_induction copyString isplain ahead units out text with
  | case1 => cases h; exact List.suffix_rfl
  | case2 => cases h
  | case3 ahead units out ch text ih => exact (ih h).trans (List.suffix_cons _ _)
  | case4 => cases h; exact List.suffix_rfl
  | case5 => cases h
  | case6 => cases h
  | case7 units out rest written units' moved transcoded inside ih =>
    exact (ih h).trans ((List.suffix_cons _ _).trans (List.suffix_cons _ _))
  | case8 units out escape rest other inside ih =>
    exact (ih h).trans ((List.suffix_cons _ _).trans (List.suffix_cons _ _))
  | case9 units out ch text stop plain ih => exact (ih h).trans (List.suffix_cons _ _)

theorem scanString_trims (isplain : Bool) (item : Item D) : Trims (scanString isplain item) := by
  intro text value rest h
  unfold scanString at h
  split at h
  · cases h
  next out ptr copied =>
    split at h
    · cases h
    · cases h
      have left := copyString_suffix copied
      split
      · exact (List.tail_suffix ptr).trans left
      · exact left

theorem parse_string_trims (dialect : Dialect) (item : Item D) :
    Trims (parse_string dialect item) := by
  intro str value rest h
  unfold parse_string at h
  split at h
  · exact (scanString_trims _ _ h).trans (List.tail_suffix str)
  · split at h
    · cases h
    · exact scanString_trims _ _ h

/-- A function that always takes something off, as a parser. -/
def took {α : Type} (f : Bytes → α × Bytes) : Parser ParseStop Byte α := fun text => .ok (f text)

theorem took_trims {α : Type} {f : Bytes → α × Bytes} (h : ∀ text, (f text).2 <:+ text) :
    Trims (took f) := by
  intro text value rest taken
  have behind : (f text).2 = rest := congrArg Prod.snd (Except.ok.inj taken)
  rw [← behind]
  exact h text

theorem readDigits_suffix (ops : DoubleOps D) (n : D) (count : Nat) (num : Bytes) :
    (readDigits ops n count num).2 <:+ num := by
  induction num generalizing n count with
  | nil => exact List.suffix_rfl
  | cons ch num ih =>
    unfold readDigits
    split
    · exact (ih _ _).trans (List.suffix_cons _ _)
    · exact List.suffix_rfl

theorem readSubscale_suffix (subscale : CInt) (num : Bytes) :
    (readSubscale subscale num).2 <:+ num := by
  induction num generalizing subscale with
  | nil => exact List.suffix_rfl
  | cons ch num ih =>
    unfold readSubscale
    split
    · exact (ih _).trans (List.suffix_cons _ _)
    · exact List.suffix_rfl

theorem readSign_suffix (num : Bytes) : (readSign num).2 <:+ num := by
  unfold readSign
  dsimp only
  split <;> split
  · exact (List.tail_suffix _).trans (List.tail_suffix num)
  · exact List.tail_suffix num
  · exact List.tail_suffix num
  · exact List.suffix_rfl

theorem readInteger_suffix (ops : DoubleOps D) (num : Bytes) : (readInteger ops num).2 <:+ num := by
  unfold readInteger
  split
  · exact List.suffix_rfl
  · split
    · exact readDigits_suffix ..
    · exact List.suffix_rfl

theorem readFraction_suffix (ops : DoubleOps D) (n : D) (num : Bytes) :
    (readFraction ops n num).2 <:+ num := by
  unfold readFraction
  split
  · exact (readDigits_suffix ..).trans (List.tail_suffix num)
  · exact List.suffix_rfl

theorem readExponent_suffix (num : Bytes) : (readExponent num).2 <:+ num := by
  unfold readExponent
  dsimp only
  split
  · have behind := List.tail_suffix num
    split
    · exact ((readSubscale_suffix ..).trans (List.tail_suffix _)).trans behind
    · split
      · exact ((readSubscale_suffix ..).trans (List.tail_suffix _)).trans behind
      · exact (readSubscale_suffix ..).trans behind
  · exact List.suffix_rfl

/-- The item a number fills. -/
def numbered (ops : DoubleOps D) (item : Item D) (negative : Bool) (fraction : D × Nat)
    (subscale : CInt) : Item D :=
  let value := ops.scaled negative fraction.1 (-fraction.2) subscale
  { item with valuedouble := value, valueint := ops.toInt value, type := .cJSON_Number }

theorem parse_number_eq (ops : DoubleOps D) (item : Item D) :
    took (parse_number ops item) =
      andThen (took readSign) fun negative => andThen (took (readInteger ops)) fun n =>
        andThen (took (readFraction ops n)) fun fraction => andThen (took readExponent)
          fun subscale => done (numbered ops item negative fraction subscale) := rfl

theorem parse_number_trims (ops : DoubleOps D) (item : Item D) :
    Trims (took (parse_number ops item)) := by
  rw [parse_number_eq]
  apply (took_trims readSign_suffix).andThen
  intro negative
  apply (took_trims (readInteger_suffix ops)).andThen
  intro n
  apply (took_trims (readFraction_suffix ops n)).andThen
  intro fraction
  apply (took_trims readExponent_suffix).andThen
  intro subscale
  exact trims_done _

theorem padded_trims {entry : Parser ParseStop Byte (Item D)} (h : Trims entry) :
    Trims (padded entry) := by
  rw [padded_eq]
  apply blanks_trims.andThen
  intro _
  apply h.andThen
  intro child
  apply blanks_trims.andThen
  intro _
  exact trims_done child

theorem afterEntry_trims {entries : Parser ParseStop Byte (List (Item D))} (h : Trims entries)
    (closing : Byte) (child : Item D) : Trims (afterEntry closing entries child) := by
  intro value children rest read
  unfold afterEntry at read
  split at read
  · obtain ⟨more, entered, returned⟩ := bind_ok read
    cases returned
    exact (h entered).trans (List.tail_suffix value)
  · split at read
    · cases read
      exact List.tail_suffix value
    · cases read

theorem parse_entries_trims {entry : Parser ParseStop Byte (Item D)} (h : Trims entry)
    (closing : Byte) (fuel : Nat) : Trims (parse_entries closing entry fuel) := by
  induction fuel with
  | zero =>
    intro value children rest read
    cases read
  | succ fuel ih =>
    rw [parse_entries_succ]
    exact (padded_trims h).andThen (afterEntry_trims ih closing)

theorem parse_bracketed_trims {entries : Parser ParseStop Byte (List (Item D))} (h : Trims entries)
    (type : ItemType) (opening closing : Byte) (item : Item D) :
    Trims (parse_bracketed type opening closing entries item) := by
  rw [parse_bracketed_eq]
  apply (expect_trims opening).andThen
  intro _
  apply blanks_trims.andThen
  intro _ value tree rest read
  unfold afterBracket at read
  split at read
  · cases read
    exact List.tail_suffix value
  · obtain ⟨more, entered, returned⟩ := bind_ok read
    cases returned
    exact h entered

theorem parse_member_trims (ops : DoubleOps D) (dialect : Dialect)
    {parseValue : Item D → Parser ParseStop Byte (Item D)} (h : ∀ item, Trims (parseValue item)) :
    Trims (parse_member ops dialect parseValue) := by
  rw [parse_member_eq]
  apply (parse_string_trims dialect _).andThen
  intro child
  exact blanks_trims.andThen fun _ => (expect_trims _).andThen fun _ =>
    blanks_trims.andThen fun _ => h child.named

/-- The value of a member is no longer than the member. -/
theorem member_value_length {dialect : Dialect} {item child : Item D}
    {text middle middle' middle'' rest : Bytes}
    (named : parse_string dialect item text = .ok (child, middle))
    (skipped : blanks middle = .ok ((), middle'))
    (colon : expect (chr ':') middle' = .ok ((), middle''))
    (skipped' : blanks middle'' = .ok ((), rest)) : rest.length ≤ text.length := by
  have one := (parse_string_trims dialect _ named).length_le
  have two := (blanks_trims skipped).length_le
  have three := (expect_trims _ colon).length_le
  have four := (blanks_trims skipped').length_le
  omega

theorem parse_case_trims (ops : DoubleOps D) (dialect : Dialect)
    {array object : Item D → Parser ParseStop Byte (Item D)} (arrays : ∀ item, Trims (array item))
    (objects : ∀ item, Trims (object item)) (item : Item D) :
    Trims (parse_case ops dialect array object item) := by
  intro value tree rest read
  rw [parse_case_eq] at read
  generalize start dialect value = begins at read
  cases begins with
  | literal word =>
    cases read
    exact List.drop_suffix ..
  | number => exact parse_number_trims ops item read
  | array => exact arrays item read
  | object => exact objects item read
  | string => exact parse_string_trims dialect item read
  | unknown => cases read

theorem parse_value_trims (ops : DoubleOps D) (dialect : Dialect) (fuel : Nat) (item : Item D) :
    Trims (parse_value ops dialect fuel item) := by
  induction fuel generalizing item with
  | zero =>
    intro value tree rest read
    cases read
  | succ fuel ih =>
    apply parse_case_trims
    · exact parse_bracketed_trims (parse_entries_trims (ih _) _ _) _ _ _
    · exact parse_bracketed_trims (parse_entries_trims (parse_member_trims ops dialect ih) _ _) _ _ _

/-- Two parsers agree on the texts up to a length. -/
def AgreeTo {β : Type} (bound : Nat) (f g : Parser ParseStop Byte β) : Prop :=
  ∀ ⦃text⦄, text.length ≤ bound → f text = g text

theorem padded_agree {bound : Nat} {entry entry' : Parser ParseStop Byte (Item D)}
    (h : AgreeTo bound entry entry') : AgreeTo bound (padded entry) (padded entry') := by
  intro text short
  rw [padded_eq, padded_eq]
  apply andThen_congr rfl
  intro _ middle skipped
  cases skipped
  apply andThen_congr (h (Nat.le_trans (skip_suffix text).length_le short))
  intro _ _ _
  rfl

/-- Behind an entry, the entries are read from a shorter text only. -/
theorem afterEntry_congr {entries entries' : Parser ParseStop Byte (List (Item D))} {value : Bytes}
    (h : ∀ inner, inner.length < value.length → entries inner = entries' inner) (closing : Byte)
    (child : Item D) :
    afterEntry closing entries child value = afterEntry closing entries' child value := by
  unfold afterEntry
  by_cases comma : value.head? = some (chr ',')
  · obtain ⟨rest, rfl⟩ := List.head?_eq_some_iff.mp comma
    rw [if_pos comma, if_pos comma, List.tail_cons, h rest (by simp)]
  · rw [if_neg comma, if_neg comma]

theorem parse_entries_agree {bound : Nat} {entry entry' : Parser ParseStop Byte (Item D)}
    (trims : Trims entry') (h : AgreeTo bound entry entry') (closing : Byte) {fuel fuel' : Nat}
    {value : Bytes} (inside : value.length ≤ bound) (enough : value.length < fuel)
    (enough' : value.length < fuel') :
    parse_entries closing entry fuel value = parse_entries closing entry' fuel' value := by
  induction fuel generalizing fuel' value with
  | zero => omega
  | succ fuel ih =>
    obtain ⟨fuel', rfl⟩ : ∃ n, fuel' = n + 1 := ⟨fuel' - 1, by omega⟩
    rw [parse_entries_succ, parse_entries_succ]
    apply andThen_congr (padded_agree h inside)
    intro child behind read
    have shorter := (padded_trims trims read).length_le
    apply afterEntry_congr
    intro rest less
    exact ih (by omega) (by omega) (by omega)

theorem parse_bracketed_agree {entries entries' : Parser ParseStop Byte (List (Item D))}
    {value : Bytes} (h : ∀ inner, inner.length < value.length → entries inner = entries' inner)
    (type : ItemType) (opening closing : Byte) (item : Item D) :
    parse_bracketed type opening closing entries item value =
      parse_bracketed type opening closing entries' item value := by
  rw [parse_bracketed_eq, parse_bracketed_eq]
  apply andThen_congr rfl
  intro _ behind opened
  apply andThen_congr rfl
  intro _ inner skipped
  cases skipped
  have shorter : (skip behind).length < value.length :=
    Nat.lt_of_le_of_lt (skip_suffix behind).length_le (expect_shorter opened)
  unfold afterBracket
  rw [h _ shorter]

theorem parse_member_agree (ops : DoubleOps D) (dialect : Dialect) {bound : Nat}
    {parseValue parseValue' : Item D → Parser ParseStop Byte (Item D)}
    (h : ∀ item, AgreeTo bound (parseValue item) (parseValue' item)) :
    AgreeTo bound (parse_member ops dialect parseValue) (parse_member ops dialect parseValue') := by
  intro text short
  rw [parse_member_eq, parse_member_eq]
  apply andThen_congr rfl
  intro child middle named
  apply andThen_congr rfl
  intro _ middle' skipped
  apply andThen_congr rfl
  intro _ middle'' colon
  apply andThen_congr rfl
  intro _ rest skipped'
  exact h _ (Nat.le_trans (member_value_length named skipped colon skipped') short)

theorem parse_case_agree (ops : DoubleOps D) (dialect : Dialect)
    {array array' object object' : Item D → Parser ParseStop Byte (Item D)} {item : Item D}
    {value : Bytes} (arrays : array item value = array' item value)
    (objects : object item value = object' item value) :
    parse_case ops dialect array object item value =
      parse_case ops dialect array' object' item value := by
  rw [parse_case_eq, parse_case_eq]
  cases start dialect value with
  | array => exact arrays
  | object => exact objects
  | _ => rfl

/-- A recursion bound above the length of the text does not matter. -/
theorem parse_value_fuel (ops : DoubleOps D) (dialect : Dialect) (fuel fuel' : Nat) (item : Item D)
    {value : Bytes} (enough : value.length < fuel) (enough' : value.length < fuel') :
    parse_value ops dialect fuel item value = parse_value ops dialect fuel' item value := by
  induction fuel generalizing fuel' item value with
  | zero => omega
  | succ fuel ih =>
    obtain ⟨fuel', rfl⟩ : ∃ n, fuel' = n + 1 := ⟨fuel' - 1, by omega⟩
    have values : ∀ item : Item D, ∀ bound, bound < value.length →
        AgreeTo bound (parse_value ops dialect fuel item) (parse_value ops dialect fuel' item) := by
      intro item bound below text short
      exact ih fuel' item (by omega) (by omega)
    have trims := parse_value_trims ops dialect fuel'
    apply parse_case_agree
    · apply parse_bracketed_agree
      intro inner shorter
      exact parse_entries_agree (trims _) (values _ _ shorter) _ (Nat.le_refl _) (by omega)
        (by omega)
    · apply parse_bracketed_agree
      intro inner shorter
      exact parse_entries_agree (parse_member_trims ops dialect trims)
        (parse_member_agree ops dialect fun item => values item _ shorter) _ (Nat.le_refl _)
        (by omega) (by omega)

section total

theorem transcode_total (units : Units) (text : Bytes) :
    transcode units text ≠ .error .outOfFuel := by
  unfold transcode
  repeat' split
  all_goals nofun

theorem copyString_total (isplain : Bool) (ahead : Nat) (units : Units) (out text : Bytes) :
    copyString isplain ahead units out text ≠ .error .outOfFuel := by
  fun_induction copyString isplain ahead units out text with
  | case3 ahead units out ch text ih => exact ih
  | case6 units out text stop failed =>
    intro same
    cases same
    exact transcode_total units text failed
  | case7 units out text written units' moved transcoded inside ih => exact ih
  | case8 units out escape text single inside ih => exact ih
  | case9 units out ch text inside plain ih => exact ih
  | _ => nofun

theorem parse_string_total (dialect : Dialect) (item : Item D) (str : Bytes) :
    parse_string dialect item str ≠ .error .outOfFuel := by
  have scans : ∀ isplain text, scanString isplain item text ≠ .error .outOfFuel := by
    intro isplain text
    unfold scanString
    split
    next stop failed =>
      intro same
      cases same
      exact copyString_total _ _ _ _ _ failed
    · split
      · nofun
      · nofun
  unfold parse_string
  split
  · exact scans _ _
  · split
    · nofun
    · exact scans _ _

theorem expect_total (ch : Byte) (text : Bytes) : expect ch text ≠ .error .outOfFuel := by
  unfold expect
  split
  · nofun
  · nofun

theorem padded_total {bound : Nat} {entry : Parser ParseStop Byte (Item D)}
    (h : ∀ text : Bytes, text.length ≤ bound → entry text ≠ .error .outOfFuel) {value : Bytes}
    (inside : value.length ≤ bound) : padded entry value ≠ .error .outOfFuel := by
  rw [padded_eq]
  apply andThen_ne (by nofun)
  intro _ middle skipped
  cases skipped
  apply andThen_ne (h _ (Nat.le_trans (skip_suffix value).length_le inside))
  intro child rest _
  exact andThen_ne (by nofun) fun _ _ _ => by nofun

theorem parse_entries_total {bound : Nat} {entry : Parser ParseStop Byte (Item D)}
    (trims : Trims entry)
    (h : ∀ text : Bytes, text.length ≤ bound → entry text ≠ .error .outOfFuel) (closing : Byte)
    {fuel : Nat} {value : Bytes} (inside : value.length ≤ bound) (enough : value.length < fuel) :
    parse_entries closing entry fuel value ≠ .error .outOfFuel := by
  induction fuel generalizing value with
  | zero => omega
  | succ fuel ih =>
    rw [parse_entries_succ]
    apply andThen_ne (padded_total h inside)
    intro child behind read
    have shorter := (padded_trims trims read).length_le
    unfold afterEntry
    split
    next comma =>
      obtain ⟨rest, rfl⟩ := List.head?_eq_some_iff.mp comma
      rw [List.length_cons] at shorter
      have more : parse_entries closing entry fuel rest ≠ .error .outOfFuel :=
        ih (by omega) (by omega)
      change andThen (parse_entries closing entry fuel)
        (fun children => done (child :: children)) rest ≠ _
      exact andThen_ne more fun _ _ _ => by nofun
    · split
      · nofun
      · nofun

theorem parse_bracketed_total {entries : Parser ParseStop Byte (List (Item D))} {value : Bytes}
    (h : ∀ inner : Bytes, inner.length < value.length → entries inner ≠ .error .outOfFuel)
    (type : ItemType) (opening closing : Byte) (item : Item D) :
    parse_bracketed type opening closing entries item value ≠ .error .outOfFuel := by
  rw [parse_bracketed_eq]
  apply andThen_ne (expect_total opening value)
  intro _ behind opened
  apply andThen_ne (by nofun)
  intro _ inner skipped
  cases skipped
  have shorter : (skip behind).length < value.length :=
    Nat.lt_of_le_of_lt (skip_suffix behind).length_le (expect_shorter opened)
  unfold afterBracket
  split
  · nofun
  · change andThen entries
      (fun children => done { item with type := type, child := children }) (skip behind) ≠ _
    exact andThen_ne (h _ shorter) fun _ _ _ => by nofun

theorem parse_member_total (ops : DoubleOps D) (dialect : Dialect) {bound : Nat}
    {parseValue : Item D → Parser ParseStop Byte (Item D)}
    (h : ∀ item, ∀ text : Bytes, text.length ≤ bound → parseValue item text ≠ .error .outOfFuel)
    {value : Bytes} (inside : value.length ≤ bound) :
    parse_member ops dialect parseValue value ≠ .error .outOfFuel := by
  rw [parse_member_eq]
  apply andThen_ne (parse_string_total dialect _ value)
  intro child middle named
  apply andThen_ne (by nofun)
  intro _ middle' skipped
  apply andThen_ne (expect_total _ middle')
  intro _ middle'' colon
  apply andThen_ne (by nofun)
  intro _ rest skipped'
  exact h _ _ (Nat.le_trans (member_value_length named skipped colon skipped') inside)

/-- A recursion bound above the length of the text is not used up. -/
theorem parse_value_total (ops : DoubleOps D) (dialect : Dialect) {fuel : Nat} (item : Item D)
    {value : Bytes} (enough : value.length < fuel) :
    parse_value ops dialect fuel item value ≠ .error .outOfFuel := by
  induction fuel generalizing item value with
  | zero => omega
  | succ fuel ih =>
    have values : ∀ item : Item D, ∀ bound, bound < value.length → ∀ text : Bytes,
        text.length ≤ bound → parse_value ops dialect fuel item text ≠ .error .outOfFuel := by
      intro item bound below text short
      exact ih item (by omega)
    have trims := parse_value_trims ops dialect fuel
    unfold parse_value
    rw [parse_case_eq]
    cases start dialect value with
    | array =>
      apply parse_bracketed_total
      intro inner shorter
      exact parse_entries_total (trims _) (values _ _ shorter) _ (Nat.le_refl _) (by omega)
    | object =>
      apply parse_bracketed_total
      intro inner shorter
      apply parse_entries_total (parse_member_trims ops dialect trims) _ _ (Nat.le_refl _) (by omega)
      intro text short
      exact parse_member_total ops dialect (fun item => values item _ shorter) short
    | string => exact parse_string_total dialect item value
    | _ => nofun

/-- The parser answers every text. -/
theorem cJSON_ParseWithOpts_total (ops : DoubleOps D) (dialect : Dialect) (value : Bytes)
    (require_null_terminated : Bool) :
    cJSON_ParseWithOpts ops dialect value require_null_terminated ≠ .error .outOfFuel := by
  have shorter := (skip_suffix value).length_le
  have parsed : parse_value ops dialect (value.length + 1) (cJSON_New_Item ops) (skip value) ≠
      .error .outOfFuel := parse_value_total ops dialect _ (by omega)
  rw [cJSON_ParseWithOpts_eq]
  cases read : parse_value ops dialect (value.length + 1) (cJSON_New_Item ops) (skip value) with
  | error stop =>
    intro same
    cases same
    exact parsed read
  | ok result =>
    change (if _ then _ else _) ≠ _
    split
    · split
      · nofun
      · nofun
    · nofun

end total

/-- `parse_value`, the bound above the length of the text. -/
def readValue (ops : DoubleOps D) (item : Item D) : Parser ParseStop Byte (Item D) :=
  fun value => parse_value ops .modified (value.length + 1) item value

/-- The loop of `parse_array` and `parse_object`, the bound above the length of the text. -/
def readEntries (closing : Byte) (entry : Parser ParseStop Byte (Item D)) :
    Parser ParseStop Byte (List (Item D)) :=
  fun value => parse_entries closing entry (value.length + 1) value

def readMember (ops : DoubleOps D) : Parser ParseStop Byte (Item D) :=
  parse_member ops .modified (readValue ops)

theorem readValue_trims (ops : DoubleOps D) (item : Item D) : Trims (readValue ops item) := by
  intro value tree rest read
  exact parse_value_trims ops .modified _ item read

theorem readMember_trims (ops : DoubleOps D) : Trims (readMember ops) :=
  parse_member_trims ops .modified (readValue_trims ops)

theorem readValue_eq (ops : DoubleOps D) (item : Item D) :
    readValue ops item =
      parse_case ops .modified
        (parse_array (readEntries (chr ']') (readValue ops (cJSON_New_Item ops))))
        (parse_object (readEntries (chr '}') (readMember ops))) item := by
  funext value
  have values : ∀ item : Item D, ∀ bound, bound < value.length →
      AgreeTo bound (parse_value ops .modified value.length item) (readValue ops item) := by
    intro item bound below text short
    exact parse_value_fuel ops .modified _ _ item (by omega) (by omega)
  apply parse_case_agree
  · apply parse_bracketed_agree
    intro inner shorter
    exact parse_entries_agree (readValue_trims ops _) (values _ _ shorter) _ (Nat.le_refl _)
      (by omega) (by omega)
  · apply parse_bracketed_agree
    intro inner shorter
    exact parse_entries_agree (readMember_trims ops)
      (parse_member_agree ops .modified fun item => values item _ shorter) _ (Nat.le_refl _)
      (by omega) (by omega)

theorem readEntries_eq {entry : Parser ParseStop Byte (Item D)} (trims : Trims entry)
    (closing : Byte) :
    readEntries closing entry =
      andThen (padded entry) (afterEntry closing (readEntries closing entry)) := by
  funext value
  unfold readEntries
  rw [parse_entries_succ]
  apply andThen_congr rfl
  intro child behind read
  have shorter := (padded_trims trims read).length_le
  apply afterEntry_congr
  intro rest less
  exact parse_entries_agree trims (fun _ _ => rfl) closing (Nat.le_refl _) (by omega) (by omega)

/-- What the parser returns with any bound it returns with this one. -/
theorem readValue_of_parse (ops : DoubleOps D) (fuel : Nat) (item : Item D) :
    Extends (parse_value ops .modified fuel item) (readValue ops item) := by
  intro value result read
  unfold readValue
  rw [parse_value_fuel ops .modified _ (fuel + value.length + 1) item (by omega) (by omega)]
  exact parse_value_extends (fun h => h) ops (by omega) item read

/-- The parser's entry, without a bound. -/
theorem cJSON_ParseWithOpts_read (ops : DoubleOps D) (value : Bytes)
    (require_null_terminated : Bool) :
    cJSON_ParseWithOpts ops .modified value require_null_terminated =
      readValue ops (cJSON_New_Item ops) (skip value) >>= fun read =>
        if require_null_terminated then
          if skip read.2 = [] then .ok (read.1, []) else .error (.failed (skip read.2))
        else .ok read := by
  have shorter := (skip_suffix value).length_le
  rw [cJSON_ParseWithOpts_eq, readValue,
    parse_value_fuel ops .modified _ ((skip value).length + 1) _ (by omega) (by omega)]

end BlmLink.Guarantees.JsonRecursion
