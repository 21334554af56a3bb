import Mathlib
import BlmLink.Source.CJsonPrint
import BlmLink.Guarantees.IntLists

/-!
# The blocks of the JSON printer

cJSON.c:117-138, 209-248, 344-401 and 438-508. What a function of the printer writes fits in
the block it has measured, with one exception: `print_object` on an object without members
takes `depth + 3` octets for a text that is formatted, and writes four at depth 0
(`block_overflow_iff`). Below the root the depth is not 0, and a text that is not formatted
has no line feed.
-/
namespace BlmLink.Guarantees.JsonPrinter

open BlmLink.Source BlmLink.Guarantees.IntLists

variable {D : Type}

/-- An induction over a tree: a property of the children is a property of the item. -/
theorem item_induction {motive : Item D → Prop}
    (step : ∀ item : Item D, (∀ child ∈ item.child, motive child) → motive item)
    (item : Item D) : motive item := by
  refine @Item.rec D motive (fun children => ∀ child ∈ children, motive child) ?_ ?_ ?_ item
  · intro type valuestring valueint valuedouble string child ih
    exact step _ ih
  · exact List.forall_mem_nil _
  · intro child children first rest
    exact List.forall_mem_cons.mpr ⟨first, rest⟩

section blocks

theorem inBlock_fits {size : Nat} {text : Bytes} (fits : text.length + 1 ≤ size) :
    inBlock size text = .ok text := if_neg (Nat.not_lt.mpr fits)

theorem inBlock_ok {size : Nat} {text written : Bytes} (h : inBlock size text = .ok written) :
    written = text := by
  unfold inBlock at h
  split at h
  · cases h
  · exact (Except.ok.inj h).symm

theorem measured_ok {len : Nat} {text written : Bytes} (h : measured len text = .ok written) :
    written = text := by
  unfold measured at h
  split at h
  · cases h
  · exact inBlock_ok h

theorem measured_fits {len : Nat} {text : Bytes} (fits : text.length + 1 ≤ len) :
    measured len text ≠ .error .overflow := by
  unfold measured
  split
  · nofun
  · rw [inBlock_fits fits]
    nofun

/-- A step that does not overflow, and a continuation that does not, do not overflow. -/
theorem bind_no_overflow {α β : Type} {step : Except PrintStop α} {next : α → Except PrintStop β}
    (first : step ≠ .error .overflow)
    (rest : ∀ value, step = .ok value → next value ≠ .error .overflow) :
    step >>= next ≠ .error .overflow := by
  cases taken : step with
  | error stop =>
    intro same
    cases same
    exact first taken
  | ok value => exact rest value taken

end blocks

section strings

theorem length_escaped : ∀ token : Byte, (escaped token).length = printedLength token := by
  decide +kernel

theorem length_escapes (str : Bytes) :
    (str.flatMap escaped).length = (str.map printedLength).sum := by
  rw [List.length_flatMap]
  exact congrArg List.sum (List.map_congr_left fun token _ => length_escaped token)

theorem print_string_ptr_fits (str : Option Bytes) : print_string_ptr str ≠ .error .overflow := by
  cases str with
  | none => nofun
  | some str =>
    apply measured_fits
    rw [List.length_cons, List.length_append, length_escapes, List.length_singleton]

end strings

section numbers

theorem print_number_fits (texts : DoubleText D) (item : Item D) :
    print_number texts item ≠ .error .overflow := by
  unfold print_number
  dsimp only
  split
  · have short := length_intToStr_le item.valueint
    rw [inBlock_fits (by omega)]
    nofun
  · rw [inBlock_fits]
    · nofun
    · split
      next whole => exact texts.whole_fits _ whole
      next fractional =>
        split
        next => exact texts.scientific_fits _
        next moderate =>
          exact texts.fixed_fits _ (Bool.eq_false_iff.mpr fractional)
            (Bool.eq_false_iff.mpr moderate)

end numbers

section composites

/-- The separator is written once less than the entries are. -/
theorem length_separated (separator : Bytes) {entries : List Bytes} (some : entries ≠ []) :
    (separated separator entries).length + separator.length =
      (entries.map fun entry => entry.length + separator.length).sum := by
  fun_induction separated separator entries with
  | case1 => exact absurd rfl some
  | case2 entry => rfl
  | case3 entry entries more ih =>
    have rest := ih more
    rw [List.map_cons, List.sum_cons, ← rest, List.length_append, List.length_append]
    omega

theorem composeArray_fits (fmt : Bool) (entries : List Bytes) :
    composeArray fmt entries ≠ .error .overflow := by
  unfold composeArray
  split
  · nofun
  next some =>
    apply measured_fits
    have whole := length_separated (if fmt then [chr ',', chr ' '] else [chr ',']) some
    have each : (entries.map fun entry => entry.length +
          (if fmt then [chr ',', chr ' '] else [chr ',']).length).sum ≤
        (entries.map fun ret => ret.length + 2 + if fmt then 1 else 0).sum := by
      apply List.sum_le_sum
      intro entry _
      cases fmt
      · exact Nat.le_succ _
      · exact Nat.le_succ _
    rw [List.length_cons, List.length_append, List.length_singleton]
    omega

theorem length_tabs (fmt : Bool) (depth : Nat) :
    (tabs fmt depth).length = if fmt then depth else 0 := by
  cases fmt
  · rfl
  · exact List.length_replicate

theorem length_newline (fmt : Bool) : (newline fmt).length = if fmt then 1 else 0 := by
  cases fmt <;> rfl

theorem length_composeMember (fmt : Bool) (depth : Nat) (entry : Bytes × Bytes) :
    (composeMember fmt depth entry).length =
      entry.2.length + entry.1.length + 1 + if fmt then 1 + depth else 0 := by
  rw [composeMember, List.length_append, List.length_append, List.length_append,
    List.length_append, length_tabs]
  cases fmt
  · simp
    omega
  · simp
    omega

/-- What the loop of `print_object` counts is what it writes. -/
theorem length_members (fmt : Bool) (depth : Nat) {entries : List (Bytes × Bytes)}
    (some : entries ≠ []) :
    (separated (chr ',' :: newline fmt) (entries.map (composeMember fmt depth))).length +
        (1 + if fmt then 1 else 0) =
      (entries.map fun entry =>
        entry.2.length + entry.1.length + 2 + if fmt then 2 + depth else 0).sum := by
  have whole := length_separated (chr ',' :: newline fmt)
    (by simpa using some : entries.map (composeMember fmt depth) ≠ [])
  rw [List.length_cons, length_newline, Nat.add_comm _ 1] at whole
  rw [whole, List.map_map]
  apply congrArg List.sum
  apply List.map_congr_left
  intro entry _
  rw [Function.comp_apply, length_composeMember]
  cases fmt
  · simp
  · simp
    omega

/-- An object without members, formatted and at the root, is written behind its block. -/
theorem composeObject_overflow_iff (fmt : Bool) (depth : Nat) (entries : List (Bytes × Bytes)) :
    composeObject fmt depth entries = .error .overflow ↔
      fmt = true ∧ depth = 0 ∧ entries = [] := by
  unfold composeObject
  by_cases none : entries = []
  · rw [if_pos none, inBlock]
    have size : (chr '{' :: (newline fmt ++ tabs fmt (depth - 1) ++ [chr '}'])).length =
        2 + if fmt then 1 + (depth - 1) else 0 := by
      rw [List.length_cons, List.length_append, List.length_append, length_newline, length_tabs]
      cases fmt
      · rfl
      · simp
        omega
    rw [size]
    cases fmt
    · simp
    · simp only [if_true, none, and_true, true_and, ite_eq_left_iff]
      constructor
      · intro h
        by_contra below
        exact absurd (h (by omega)) (by simp)
      · rintro rfl
        exact fun fits => absurd (by decide : 3 < 2 + (1 + (0 - 1)) + 1) fits
  · rw [if_neg none]
    constructor
    · intro h
      refine absurd h (measured_fits ?_)
      have counted := length_members fmt (depth + 1) none
      rw [List.length_cons, List.length_append, List.length_append, List.length_append,
        List.length_append, length_newline, length_tabs, List.length_singleton]
      cases fmt
      · simp only [Bool.false_eq_true, if_false] at counted ⊢
        omega
      · simp only [if_true] at counted ⊢
        omega
    · rintro ⟨-, -, empty⟩
      exact absurd empty none

end composites

section values

variable (texts : DoubleText D) (fmt : Bool)

theorem print_entries_fits (depth : Nat) {children : List (Item D)}
    (each : ∀ child ∈ children, print_value texts fmt depth child ≠ .error .overflow) :
    print_entries texts fmt depth children ≠ .error .overflow := by
  induction children with
  | nil =>
    rw [print_entries]
    nofun
  | cons child rest ih =>
    rw [List.forall_mem_cons] at each
    rw [print_entries]
    refine bind_no_overflow each.1 fun ret _ => ?_
    refine bind_no_overflow (ih each.2) fun entries _ => ?_
    nofun

theorem print_members_fits (depth : Nat) {children : List (Item D)}
    (each : ∀ child ∈ children, print_value texts fmt depth child ≠ .error .overflow) :
    print_members texts fmt depth children ≠ .error .overflow := by
  induction children with
  | nil =>
    rw [print_members]
    nofun
  | cons child rest ih =>
    rw [List.forall_mem_cons] at each
    rw [print_members]
    refine bind_no_overflow (print_string_ptr_fits _) fun str _ => ?_
    refine bind_no_overflow each.1 fun ret _ => ?_
    refine bind_no_overflow (ih each.2) fun entries _ => ?_
    nofun

/-- The names and the entries that an object is composed of are as many as its children. -/
theorem print_members_nil {depth : Nat} {children : List (Item D)}
    (h : print_members texts fmt depth children = .ok []) : children = [] := by
  cases children with
  | nil => rfl
  | cons child rest =>
    rw [print_members] at h
    obtain ⟨str, -, h⟩ := bind_ok h
    obtain ⟨ret, -, h⟩ := bind_ok h
    obtain ⟨entries, -, h⟩ := bind_ok h
    cases h

theorem print_value_fits (depth : Nat) (item : Item D)
    (inside : ¬ (fmt = true ∧ depth = 0 ∧ item.type = .cJSON_Object ∧ item.child = [])) :
    print_value texts fmt depth item ≠ .error .overflow := by
  induction item using item_induction generalizing depth with
  | step item ih =>
    have below : ∀ child ∈ item.child,
        print_value texts fmt (depth + 1) child ≠ .error .overflow := by
      intro child among
      apply ih child among
      rintro ⟨-, root, -⟩
      exact absurd root (Nat.succ_ne_zero depth)
    obtain ⟨type, valuestring, valueint, valuedouble, string, child⟩ := item
    cases type with
    | cJSON_NULL => rw [print_value]; nofun
    | cJSON_False => rw [print_value]; nofun
    | cJSON_True => rw [print_value]; nofun
    | cJSON_Number =>
      rw [print_value]
      exact print_number_fits texts _
    | cJSON_String =>
      rw [print_value]
      exact print_string_ptr_fits _
    | cJSON_Array =>
      rw [print_value]
      exact bind_no_overflow (print_entries_fits texts fmt _ below) fun entries _ =>
        composeArray_fits fmt entries
    | cJSON_Object =>
      rw [print_value]
      refine bind_no_overflow (print_members_fits texts fmt _ below) fun entries printed => ?_
      rw [Ne, composeObject_overflow_iff]
      rintro ⟨formatted, root, rfl⟩
      exact inside ⟨formatted, root, rfl, print_members_nil texts fmt printed⟩

end values

/-- A formatted text is written behind its block exactly if it is that of an object without
members that stands alone; a text that is not formatted never is. -/
theorem block_overflow_iff (texts : DoubleText D) (item : Item D) :
    (cJSON_Print texts item = .error .overflow ↔
      item.type = .cJSON_Object ∧ item.child = []) ∧
    cJSON_PrintUnformatted texts item ≠ .error .overflow := by
  constructor
  · constructor
    · intro h
      by_contra filled
      exact print_value_fits texts true 0 item (fun inside => filled inside.2.2) h
    · obtain ⟨type, valuestring, valueint, valuedouble, string, child⟩ := item
      rintro ⟨object, none⟩
      cases object
      cases none
      rfl
  · apply print_value_fits
    rintro ⟨formatted, -⟩
    cases formatted

end BlmLink.Guarantees.JsonPrinter
