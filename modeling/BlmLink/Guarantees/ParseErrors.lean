import BlmLink.Guarantees.StringPasses
import BlmLink.Source.CJsonErrors

/-!
# The error pointer after a parse

cJSON.c:259-296, 317-342 and 403-436, and blmutil.cpp:149-160. `ep` is set at five
places of the parser; at every other place that returns NULL it is left to the function
below to have set it. Each function is `Honest`: with NULL it has set `ep`, with a
position it has not, and the position is an end of the text it was given, so the
recursion bound is not used up and a cursor that leaves the text is the only fault
(`parse_value_sound`). Since `cJSON_ParseWithOpts` clears `ep` first, whatever an earlier
parse left there is gone (`parse_null_iff`).

Where `Source.CJson` gives the run a meaning, the two models answer alike: the failure
there carries what `ep` holds here (`parse_text_follows`).
-/
namespace BlmLink.Guarantees.ParseErrors

open BlmLink.Lib BlmLink.Lib.Marking BlmLink.Source BlmLink.Source.Ep
open BlmLink.Guarantees.JsonDialect BlmLink.Guarantees.JsonRecursion
open BlmLink.Guarantees.JsonLocality BlmLink.Guarantees.StringPasses

variable {D α : Type}

/-- A call at `text` sets `ep` exactly if it returns NULL, and leaves an end of `text`. -/
def Sound (f : Bytes → Call (α × Bytes)) (text : Bytes) : Prop :=
  Honest (· = .pastNul) (f text) fun read => read.2 <:+ text

section strings

/-- Both variables hold something. -/
def Filled (units : Units) : Prop := units.uc ≠ none ∧ units.uc2 ≠ none

theorem transcode_filled {units : Units} (filled : Filled units) (text : Bytes) :
    ∃ written units' moved, transcode units text = .ok (written, units', moved) ∧
      Filled units' := by
  have first : (scanHex text).or units.uc ≠ none := by
    intro unset
    exact filled.1 (Option.or_eq_none_iff.mp unset).2
  have second : (scanHex (text.drop 6)).or units.uc2 ≠ none := by
    intro unset
    exact filled.2 (Option.or_eq_none_iff.mp unset).2
  unfold transcode
  split
  next unset => exact absurd unset first
  next uc _ =>
    have kept : ∀ uc : BitVec 32, Filled ⟨some uc, units.uc2⟩ := fun uc => ⟨nofun, filled.2⟩
    split
    · exact ⟨_, _, _, rfl, kept uc⟩
    · split
      · split
        · split
          next unset => exact absurd unset second
          · split
            · exact ⟨_, _, _, rfl, nofun, nofun⟩
            · exact ⟨_, _, _, rfl, nofun, nofun⟩
        · exact ⟨_, _, _, rfl, kept uc⟩
      · exact ⟨_, _, _, rfl, kept _⟩

/-- With both variables filled the copying pass fails only past the NUL. -/
theorem copyString_filled {isplain : Bool} {ahead : Nat} {units : Units} {out text : Bytes}
    {stop : ParseStop} (filled : Filled units)
    (failed : copyString isplain ahead units out text = .error stop) : stop = .pastNul := by
  fun_induction copyString isplain ahead units out text with
  | case1 => cases failed
  | case2 => cases failed; rfl
  | case3 ahead units out ch text ih => exact ih filled failed
  | case4 => cases failed
  | case5 => cases failed; rfl
  | case6 units out text other untranscoded =>
    obtain ⟨_, _, _, transcoded, -⟩ := transcode_filled filled text
    cases untranscoded.symm.trans transcoded
  | case7 units out text written units' moved transcoded inside ih =>
    obtain ⟨_, _, _, again, filled'⟩ := transcode_filled filled text
    cases transcoded.symm.trans again
    exact ih filled' failed
  | case8 units out escape text single inside ih => exact ih filled failed
  | case9 units out ch text inside plain ih => exact ih filled failed

theorem parse_string_sound (stale : Stale) (item : Item D) (str : Bytes) :
    Sound (Ep.parse_string stale item) str := by
  have text : (if str.head? != some quote then str else str.tail) <:+ str := by
    split
    · exact List.suffix_rfl
    · exact List.tail_suffix str
  unfold Sound Ep.parse_string
  simp only
  split
  next stop failed =>
    apply honest_fault
    exact copyString_filled ⟨Option.some_ne_none _, Option.some_ne_none _⟩ failed
  next out ptr copied =>
    apply honest_ret
    have behind := (copyString_suffix copied).trans text
    split
    · exact (List.tail_suffix ptr).trans behind
    · exact behind

end strings

section calls

theorem padded_sound {entry : Bytes → Call (Item D × Bytes)} {value : Bytes}
    (h : Sound entry (skip value)) : Sound (Ep.padded entry) value := by
  apply h.bind
  rintro ⟨child, rest⟩ behind
  apply honest_ret
  exact (skip_suffix rest).trans (behind.trans (skip_suffix value))

theorem parse_entries_sound {entry : Bytes → Call (Item D × Bytes)} (closing : Byte) {fuel : Nat}
    {value : Bytes} (h : ∀ text : Bytes, text.length ≤ value.length → Sound entry text)
    (enough : value.length < fuel) : Sound (Ep.parse_entries closing entry fuel) value := by
  induction fuel generalizing value with
  | zero => omega
  | succ fuel ih =>
    apply (padded_sound (h _ (skip_suffix value).length_le)).bind
    rintro ⟨child, rest⟩ behind
    change rest <:+ value at behind
    apply honest_ite
    · intro comma
      obtain ⟨more, rfl⟩ := List.head?_eq_some_iff.mp comma
      have shorter := behind.length_le
      rw [List.length_cons] at shorter
      have entered : Sound (Ep.parse_entries closing entry fuel) more :=
        ih (fun text short => h text (by omega)) (by omega)
      apply entered.bind
      rintro ⟨children, left⟩ inner
      apply honest_ret
      exact (inner.trans (List.suffix_cons _ _)).trans behind
    · intro _
      apply honest_ite
      · intro _
        apply honest_ret
        exact (List.tail_suffix rest).trans behind
      · intro _
        exact honest_fail rest

theorem parse_bracketed_sound {entries : Bytes → Call (List (Item D) × Bytes)} {value : Bytes}
    (h : ∀ inner : Bytes, inner.length < value.length → Sound entries inner) (type : ItemType)
    (opening closing : Byte) (item : Item D) :
    Sound (Ep.parse_bracketed type opening closing entries item) value := by
  apply honest_ite
  · intro _
    exact honest_fail value
  · intro opened
    obtain ⟨behind, rfl⟩ := List.head?_eq_some_iff.mp (not_not.mp opened)
    have left : skip behind <:+ opening :: behind :=
      (skip_suffix behind).trans (List.suffix_cons _ _)
    apply honest_ite
    · intro _
      apply honest_ret
      exact (List.tail_suffix _).trans left
    · intro _
      have shorter : (skip behind).length < (opening :: behind).length :=
        Nat.lt_succ_of_le (skip_suffix behind).length_le
      apply (h _ shorter).bind
      rintro ⟨children, rest⟩ inner
      apply honest_ret
      exact inner.trans left

theorem parse_member_sound (ops : DoubleOps D) (stale : Stale)
    {parseValue : Item D → Bytes → Call (Item D × Bytes)} {value : Bytes}
    (h : ∀ item, ∀ text : Bytes, text.length ≤ value.length → Sound (parseValue item) text) :
    Sound (Ep.parse_member ops stale parseValue) value := by
  apply (parse_string_sound stale (cJSON_New_Item ops) value).bind
  rintro ⟨child, rest⟩ behind
  change rest <:+ value at behind
  have colon : skip (skip rest).tail <:+ value :=
    (skip_suffix _).trans ((List.tail_suffix _).trans ((skip_suffix rest).trans behind))
  apply honest_ite
  · intro _
    apply (h child.named _ colon.length_le).imp
    intro read inner
    exact inner.trans colon
  · intro _
    exact honest_fail _

theorem parse_case_sound (ops : DoubleOps D) (stale : Stale)
    {array object : Item D → Bytes → Call (Item D × Bytes)} {item : Item D} {value : Bytes}
    (arrays : Sound (array item) value) (objects : Sound (object item) value) :
    Sound (Ep.parse_case ops stale array object item) value := by
  have strings := parse_string_sound stale item value
  have literals : ∀ (tree : Item D) (n : Nat), Sound (fun text => ret (tree, text.drop n)) value :=
    fun tree n => honest_ret (List.drop_suffix n value)
  have numbers : Sound (fun text => ret (parse_number ops item text)) value :=
    honest_ret (parse_number_trims ops item rfl)
  apply honest_ite (fun _ => literals _ _)
  intro _
  apply honest_ite (fun _ => literals _ _)
  intro _
  apply honest_ite (fun _ => literals _ _)
  intro _
  cases value with
  | nil => exact honest_fail []
  | cons ch rest =>
    apply honest_ite (fun _ => numbers)
    intro _
    apply honest_ite (fun _ => arrays)
    intro _
    apply honest_ite (fun _ => objects)
    intro _
    apply honest_ite (fun _ => strings)
    intro _
    apply honest_ite (fun _ => strings)
    intro _
    exact honest_fail _

theorem parse_value_sound (ops : DoubleOps D) (stale : Stale) {fuel : Nat} (item : Item D)
    {value : Bytes} (enough : value.length < fuel) :
    Sound (Ep.parse_value ops stale fuel item) value := by
  induction fuel generalizing item value with
  | zero => omega
  | succ fuel ih =>
    apply parse_case_sound
    · apply parse_bracketed_sound
      intro inner shorter
      apply parse_entries_sound _ _ (by omega)
      intro text short
      exact ih _ (by omega)
    · apply parse_bracketed_sound
      intro inner shorter
      apply parse_entries_sound _ _ (by omega)
      intro text short
      apply parse_member_sound
      intro item inside short'
      exact ih item (by omega)

end calls

section texts

theorem parse_text_honest (ops : DoubleOps D) (stale : Stale) (value : Bytes)
    (require_null_terminated : Bool) :
    Honest (· = .pastNul) (Ep.parse_text ops stale value require_null_terminated)
      fun _ => True := by
  have enough : (skip value).length < value.length + 1 :=
    Nat.lt_succ_of_le (skip_suffix value).length_le
  apply (parse_value_sound ops stale (cJSON_New_Item ops) enough).bind
  rintro ⟨c, ending⟩ -
  apply honest_ite
  · intro _
    apply honest_ite
    · intro _
      exact honest_ret trivial
    · intro _
      exact honest_fail _
  · intro _
    exact honest_ret trivial

/-- The parser answers unless its cursor leaves the text, whatever `ep` was before. -/
theorem cJSON_ParseWithOpts_answers (ops : DoubleOps D) (stale : Stale) (value : Bytes)
    (require_null_terminated : Bool) {ep : Option Bytes}
    (inside : Ep.cJSON_ParseWithOpts ops stale value require_null_terminated ep ≠
      .error .pastNul) :
    ∃ result ep', Ep.cJSON_ParseWithOpts ops stale value require_null_terminated ep =
      .ok (result, ep') ∧ (result = none ↔ ep' ≠ none) := by
  have honest := parse_text_honest ops stale value require_null_terminated
  cases run : Ep.parse_text ops stale value require_null_terminated none with
  | error stop =>
    have here := honest none
    rw [run] at here
    cases here
    exact absurd run inside
  | ok answer => exact ⟨answer.1, answer.2, run, honest.none_iff run⟩

/-- `cJSON_Parse` returns NULL exactly if `ep` is not NULL afterwards, and `Json::parse`
finds its error text there. -/
theorem parse_null_iff (ops : DoubleOps D) (stale : Stale) (self : Json D) (text : Bytes)
    (ep : Option Bytes) (inside : Ep.cJSON_Parse ops stale text ep ≠ .error .pastNul) :
    ∃ result ep', Ep.cJSON_Parse ops stale text ep = .ok (result, ep') ∧
      (result = none ↔ ep' ≠ none) ∧
      ∃ self', self.parse ops stale text ep = .ok (result.isSome, self', ep') ∧
        (result = none → ep' = some self'.err) := by
  obtain ⟨result, ep', run, iff⟩ := cJSON_ParseWithOpts_answers ops stale text false inside
  refine ⟨result, ep', run, iff, ?_⟩
  have parsed : Ep.cJSON_Parse ops stale text ep = .ok (result, ep') := run
  unfold Json.parse
  rw [parsed]
  cases result with
  | some tree => exact ⟨_, rfl, nofun⟩
  | none =>
    obtain ⟨err, rfl⟩ := Option.ne_none_iff_exists'.mp (iff.mp rfl)
    exact ⟨_, rfl, fun _ => rfl⟩

/-- The texts `[1` and `[1]`, parsed with an old error in `ep`. -/
theorem parse_null_iff_array :
    (∃ self', (⟨none, false, []⟩ : Json Int).parse wholeNumbers (fun _ => (0, 0))
        (lit ['[', '1']) (some (lit ['x'])) = .ok (false, self', some [])) ∧
      ∃ self', (⟨none, false, []⟩ : Json Int).parse wholeNumbers (fun _ => (0, 0))
        (lit ['[', '1', ']']) (some (lit ['x'])) = .ok (true, self', none) := by
  constructor
  · obtain ⟨result, ep', run, -, self', parsed, -⟩ := parse_null_iff wholeNumbers
      (fun _ => (0, 0)) ⟨none, false, []⟩ (lit ['[', '1']) (some (lit ['x'])) nofun
    cases run
    exact ⟨self', parsed⟩
  · obtain ⟨result, ep', run, -, self', parsed, -⟩ := parse_null_iff wholeNumbers
      (fun _ => (0, 0)) ⟨none, false, []⟩ (lit ['[', '1', ']']) (some (lit ['x'])) nofun
    cases run
    exact ⟨self', parsed⟩

end texts

section failures

/-- What a stop of the model without `ep` says of a run with it. -/
def meaning : ParseStop → Option (Except ParseStop Bytes)
  | .failed ep => some (.ok ep)
  | .pastNul => some (.error .pastNul)
  | .outOfFuel => some (.error .outOfFuel)
  | .overflow => none
  | .uninitialised => none

/-- The second holds whatever the first one holds. -/
def Below (units units' : Units) : Prop :=
  (∀ uc, units.uc = some uc → units'.uc = some uc) ∧
    ∀ uc2, units.uc2 = some uc2 → units'.uc2 = some uc2

theorem or_below {found held held' : Option (BitVec 32)} {value : BitVec 32}
    (below : ∀ value, held = some value → held' = some value)
    (set : found.or held = some value) : found.or held' = some value := by
  cases found with
  | none => exact below value set
  | some other => exact set

theorem transcode_below {units units' : Units} (below : Below units units') (text : Bytes) :
    transcode units text = .error .uninitialised ∨
      ∃ written after after' moved, transcode units text = .ok (written, after, moved) ∧
        transcode units' text = .ok (written, after', moved) ∧ Below after after' := by
  unfold transcode
  cases first : (scanHex text).or units.uc with
  | none => exact .inl rfl
  | some uc =>
    rw [or_below below.1 first]
    have kept : ∀ uc, Below ⟨some uc, units.uc2⟩ ⟨some uc, units'.uc2⟩ :=
      fun uc => ⟨fun _ same => same, below.2⟩
    dsimp only
    split
    · exact .inr ⟨_, _, _, _, rfl, rfl, kept uc⟩
    · split
      · split
        · cases second : (scanHex (text.drop 6)).or units.uc2 with
          | none => exact .inl rfl
          | some uc2 =>
            rw [or_below below.2 second]
            dsimp only
            split
            · exact .inr ⟨_, _, _, _, rfl, rfl, fun _ same => same, fun _ same => same⟩
            · exact .inr ⟨_, _, _, _, rfl, rfl, fun _ same => same, fun _ same => same⟩
        · exact .inr ⟨_, _, _, _, rfl, rfl, kept uc⟩
      · exact .inr ⟨_, _, _, _, rfl, rfl, kept _⟩

/-- A copying pass that never reads an unset variable does not depend on what it held. -/
theorem copyString_below {isplain : Bool} {ahead : Nat} {units units' : Units} {out text : Bytes}
    (below : Below units units') :
    copyString isplain ahead units out text = .error .uninitialised ∨
      copyString isplain ahead units' out text = copyString isplain ahead units out text := by
  fun_induction copyString isplain ahead units out text generalizing units' with
  | case1 => exact .inr rfl
  | case2 => exact .inr rfl
  | case3 ahead units out ch text ih => exact ih below
  | case4 units out ch text stop => exact .inr (copyString_stop stop _ _ _)
  | case5 units out inside => exact .inr (by rw [copyString, if_neg inside, if_pos rfl])
  | case6 units out text stop failed inside =>
    rcases transcode_below below text with unset | ⟨_, _, _, _, transcoded, -, -⟩
    · cases failed.symm.trans unset
      exact .inl rfl
    · cases failed.symm.trans transcoded
  | case7 units out text written after moved transcoded inside ih =>
    rcases transcode_below below text with unset | ⟨_, _, after', _, again, same, below'⟩
    · cases unset.symm.trans transcoded
    · cases again.symm.trans transcoded
      rw [copyString, if_neg inside, if_pos rfl, if_pos rfl, same]
      exact ih below'
  | case8 units out escape text single inside ih =>
    rw [copyString, if_neg inside, if_pos rfl, if_neg single]
    exact ih below
  | case9 units out ch text inside plain ih =>
    rw [copyString_char inside plain]
    exact ih below

theorem parse_string_copied (stale : Stale) (item : Item D) (str : Bytes) :
    Ep.parse_string stale item str =
      match copyString (plainAt str) 0 ⟨some (stale str).1, some (stale str).2⟩ [] (bodyAt str) with
      | .error stop => fault stop
      | .ok (out, ptr) => ret ({ item with valuestring := some out, type := .cJSON_String },
          if ptr.head? = some quote then ptr.tail else ptr) :=
  rfl

theorem parse_string_follows (stale : Stale) (item : Item D) (str : Bytes) :
    Follows meaning (Ep.parse_string stale item str)
      (Source.parse_string .modified item str) := by
  have below : Below ⟨none, none⟩ ⟨some (stale str).1, some (stale str).2⟩ := ⟨nofun, nofun⟩
  rw [parse_string_entered, parse_string_copied]
  unfold scanString
  rcases copyString_below below with unset | same
  · rw [unset]
    exact follows_silent rfl
  · rw [← same]
    cases copied : copyString (plainAt str) 0 ⟨some (stale str).1, some (stale str).2⟩ []
        (bodyAt str) with
    | error stop =>
      cases copyString_filled ⟨Option.some_ne_none _, Option.some_ne_none _⟩ copied
      exact follows_fault rfl
    | ok answer =>
      dsimp only
      by_cases long : (measureString (plainAt str) (bodyAt str)).1 < answer.1.length
      · rw [if_pos long]
        exact follows_silent rfl
      · rw [if_neg long]
        exact follows_ret _

theorem padded_follows {entry : Bytes → Call (Item D × Bytes)}
    {entry' : Bytes → Except ParseStop (Item D × Bytes)}
    (h : ∀ text, Follows meaning (entry text) (entry' text)) (value : Bytes) :
    Follows meaning (Ep.padded entry value) (Source.padded entry' value) :=
  (h (skip value)).bind fun read => follows_ret (read.1, skip read.2)

theorem parse_entries_follows {entry : Bytes → Call (Item D × Bytes)}
    {entry' : Bytes → Except ParseStop (Item D × Bytes)}
    (h : ∀ text, Follows meaning (entry text) (entry' text)) (closing : Byte) (fuel : Nat)
    (value : Bytes) :
    Follows meaning (Ep.parse_entries closing entry fuel value)
      (Source.parse_entries closing entry' fuel value) := by
  induction fuel generalizing value with
  | zero => exact follows_fault rfl
  | succ fuel ih =>
    apply (padded_follows h value).bind
    rintro ⟨child, rest⟩
    apply follows_ite
    · exact (ih rest.tail).bind fun read => follows_ret (child :: read.1, read.2)
    · apply follows_ite
      · exact follows_ret _
      · exact follows_fail rfl

theorem parse_bracketed_follows {entries : Bytes → Call (List (Item D) × Bytes)}
    {entries' : Bytes → Except ParseStop (List (Item D) × Bytes)}
    (h : ∀ text, Follows meaning (entries text) (entries' text)) (type : ItemType)
    (opening closing : Byte) (item : Item D) (value : Bytes) :
    Follows meaning (Ep.parse_bracketed type opening closing entries item value)
      (Source.parse_bracketed type opening closing entries' item value) := by
  apply follows_ite
  · exact follows_fail rfl
  · apply follows_ite
    · exact follows_ret _
    · exact (h _).bind fun read => follows_ret ({ item with type := type, child := read.1 }, read.2)

theorem parse_member_follows (ops : DoubleOps D) (stale : Stale)
    {parseValue : Item D → Bytes → Call (Item D × Bytes)}
    {parseValue' : Item D → Bytes → Except ParseStop (Item D × Bytes)}
    (h : ∀ item text, Follows meaning (parseValue item text) (parseValue' item text))
    (value : Bytes) :
    Follows meaning (Ep.parse_member ops stale parseValue value)
      (Source.parse_member ops .modified parseValue' value) := by
  apply (parse_string_follows stale (cJSON_New_Item ops) value).bind
  rintro ⟨child, rest⟩
  apply follows_ite
  · exact h _ _
  · exact follows_fail rfl

theorem parse_case_follows (ops : DoubleOps D) (stale : Stale)
    {array object : Item D → Bytes → Call (Item D × Bytes)}
    {array' object' : Item D → Bytes → Except ParseStop (Item D × Bytes)}
    (arrays : ∀ item text, Follows meaning (array item text) (array' item text))
    (objects : ∀ item text, Follows meaning (object item text) (object' item text))
    (item : Item D) (value : Bytes) :
    Follows meaning (Ep.parse_case ops stale array object item value)
      (Source.parse_case ops .modified array' object' item value) := by
  apply follows_ite (follows_ret _)
  apply follows_ite (follows_ret _)
  apply follows_ite (follows_ret _)
  cases value with
  | nil => exact follows_fail rfl
  | cons ch rest =>
    apply follows_ite (follows_ret _)
    apply follows_ite (arrays _ _)
    apply follows_ite (objects _ _)
    apply follows_ite (parse_string_follows stale item _)
    simp only [true_and]
    exact follows_ite (parse_string_follows stale item _) (follows_fail rfl)

theorem parse_value_follows (ops : DoubleOps D) (stale : Stale) (fuel : Nat) (item : Item D)
    (value : Bytes) :
    Follows meaning (Ep.parse_value ops stale fuel item value)
      (Source.parse_value ops .modified fuel item value) := by
  induction fuel generalizing item value with
  | zero => exact follows_fault rfl
  | succ fuel ih =>
    apply parse_case_follows
    · exact parse_bracketed_follows (parse_entries_follows (ih _) _ _) _ _ _
    · exact parse_bracketed_follows
        (parse_entries_follows (parse_member_follows ops stale ih) _ _) _ _ _

/-- The failure of the model without `ep` carries what `ep` holds in the other. -/
theorem parse_text_follows (ops : DoubleOps D) (stale : Stale) (value : Bytes)
    (require_null_terminated : Bool) :
    Follows meaning (Ep.parse_text ops stale value require_null_terminated)
      (Source.cJSON_ParseWithOpts ops .modified value require_null_terminated) := by
  apply (parse_value_follows ops stale _ _ _).bind
  rintro ⟨c, ending⟩
  apply follows_ite
  · apply follows_ite
    · exact follows_ret _
    · exact follows_fail rfl
  · exact follows_ret _

end failures

end BlmLink.Guarantees.ParseErrors
