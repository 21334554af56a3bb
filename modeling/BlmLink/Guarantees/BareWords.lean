import Mathlib
import BlmLink.Guarantees.JsonLocality

/-!
# Words without quotes

cJSON.c:143-207, 282-296 and 403-436. `NameAt` and `ValueAt` are the places at which a
run reads the name of a member and a value inside an array or an object. A run is the
call there, followed by a continuation that returns only if a blank or punctuation is
next; what comes before does not depend on the text from there on (`name_site`,
`value_site`). So the quotes may go from any set of names that are words
(`names_unquoted`), and from a value that is a word exactly if the word does not begin
with `null`, `true` or `false`, which `parse_value` tests by prefix before it tries a
word (`bare_value_iff`).
-/
namespace BlmLink.Guarantees.BareWords

open BlmLink.Lib.Parsing BlmLink.Source
open BlmLink.Guarantees.JsonDialect BlmLink.Guarantees.JsonRecursion
open BlmLink.Guarantees.JsonLocality

variable {D : Type}

/-- The loop over the entries from `value` on calls `entry` at `site`. -/
inductive EntrySite (entry : Parser ParseStop Byte (Item D)) : Bytes → Bytes → Prop where
  | first (value : Bytes) : EntrySite entry value (skip value)
  | later {value next site : Bytes} {child : Item D} :
    padded entry value = .ok (child, chr ',' :: next) → EntrySite entry next site →
      EntrySite entry value site

/-- The names of the members of the object at `text`. -/
def MemberAt (ops : DoubleOps D) (text name : Bytes) : Prop :=
  ∃ inner, text = chr '{' :: inner ∧ (skip inner).head? ≠ some (chr '}') ∧
    EntrySite (readMember ops) (skip inner) name

/-- One call of `parse_value` makes another: for an element, or for the value of a member. -/
inductive Nested (ops : DoubleOps D) : Item D × Bytes → Item D × Bytes → Prop where
  | element {item : Item D} {inner site : Bytes} : (skip inner).head? ≠ some (chr ']') →
    EntrySite (readValue ops (cJSON_New_Item ops)) (skip inner) site →
      Nested ops (item, chr '[' :: inner) (cJSON_New_Item ops, site)
  | member {item child : Item D} {text name rest value : Bytes} : MemberAt ops text name →
    parse_string .modified (cJSON_New_Item ops) name = .ok (child, rest) →
      skip rest = chr ':' :: value → Nested ops (item, text) (child.named, skip value)

/-- The calls of `parse_value` in a run on `text`. -/
def Reached (ops : DoubleOps D) (text : Bytes) : Item D × Bytes → Prop :=
  Relation.ReflTransGen (Nested ops) (cJSON_New_Item ops, skip text)

/-- The name of a member is read at `name`. -/
def NameAt (ops : DoubleOps D) (text name : Bytes) : Prop :=
  ∃ call, Reached ops text call ∧ MemberAt ops call.2 name

/-- An element or the value of a member is read at `site`, into `item`. -/
def ValueAt (ops : DoubleOps D) (text : Bytes) (item : Item D) (site : Bytes) : Prop :=
  ∃ call, Reached ops text call ∧ Nested ops call (item, site)

/-- What may stand in place of a site: no blank, no bracket or comma unless one was
there, and no less room. -/
structure Swap (site other : Bytes) : Prop where
  solid : Solid other
  apart : ∀ ch ∈ punctuation, other.head? = some ch → site.head? = some ch
  room : Roomier site other

theorem Swap.near {site other : Bytes} (h : Swap site other) {front : Bytes} (some : front ≠ []) :
    near.like (front ++ site) (front ++ other) := by
  cases front with
  | nil => exact absurd rfl some
  | cons ch front => exact ⟨rfl, h.room.prepend _⟩

theorem Swap.prepend {site other : Bytes} (h : Swap site other) {front : Bytes}
    (solid : Solid (front ++ site)) : Swap (front ++ site) (front ++ other) := by
  cases front with
  | nil => exact h
  | cons ch front => exact ⟨solid, fun _ _ found => found, h.room.prepend _⟩

theorem Swap.head_ne {site other : Bytes} (h : Swap site other) {front : Bytes} {closing : Byte}
    (listed : closing ∈ punctuation) (open_ : (front ++ site).head? ≠ some closing) :
    (front ++ other).head? ≠ some closing := by
  cases front with
  | nil => exact fun found => open_ (h.apart closing listed found)
  | cons ch front => exact open_

theorem Swap.solid_append {site other : Bytes} (h : Swap site other) {front : Bytes}
    (solid : Solid (front ++ site)) : Solid (front ++ other) := (h.prepend solid).solid

section entries

variable {entry : Parser ParseStop Byte (Item D)} {closing : Byte}

theorem entrySite_solid {value site : Bytes} (h : EntrySite entry value site) : Solid site := by
  induction h with
  | first value => exact skip_solid value
  | later _ _ ih => exact ih

/-- The loop as a call of `entry` at the site and a continuation. -/
theorem entrySite_calls (frames : Frames near Delimited entry) (trims : Trims entry)
    (listed : closing ∈ punctuation) {value site : Bytes} (h : EntrySite entry value site) :
    ∃ front, value = front ++ site ∧
      (∃ next, Ends Delimited next ∧ Calls Swap (readEntries closing entry) front entry site next) ∧
      ∀ other, Swap site other → EntrySite entry (front ++ other) other := by
  induction h with
  | first value =>
    obtain ⟨front, split, skips⟩ := skip_front value
    apply Exists.intro front
    apply And.intro split
    constructor
    · apply Exists.intro fun read : Item D × Bytes =>
        afterEntry closing (readEntries closing entry) read.1 (skip read.2)
      constructor
      · intro child rest result returned
        exact delimited_of_skip (afterEntry_punctuated listed returned)
      · intro other swap
        rw [congrFun (readEntries_eq trims closing) (front ++ other)]
        unfold andThen padded
        rw [skips other swap.solid]
        cases entry other <;> rfl
    · intro other swap
      have site : EntrySite entry (front ++ other) (skip (front ++ other)) := .first _
      rwa [skips other swap.solid] at site
  | @later value behind site child read inner ih =>
    obtain ⟨front, rfl, ⟨next, ended, calls⟩, again⟩ := ih
    obtain ⟨before, split, reads⟩ := padded_frames frames read ⟨chr ',', by decide, rfl⟩
    have comma : ∀ other, Swap site other →
        near.like (chr ',' :: front ++ site) (chr ',' :: front ++ other) :=
      fun other swap => swap.near (List.cons_ne_nil _ _)
    apply Exists.intro (before ++ chr ',' :: front)
    apply And.intro (by rw [split, List.append_assoc]; rfl)
    constructor
    · apply Exists.intro fun read => next read >>= fun rest => .ok (child :: rest.1, rest.2)
      apply And.intro (ended.bind _)
      rw [readEntries_eq trims]
      apply Calls.andThen reads _ comma
      intro other swap
      rw [List.cons_append, afterEntry_comma, calls other swap]
      exact bind_assoc ..
    · intro other swap
      rw [List.append_assoc]
      exact .later (reads _ (comma other swap)) (again other swap)

end entries

section calls

theorem readValue_array (ops : DoubleOps D) (item : Item D) (inner : Bytes) :
    readValue ops item (chr '[' :: inner) =
      parse_array (readEntries (chr ']') (readValue ops (cJSON_New_Item ops))) item
        (chr '[' :: inner) := by
  have begins : start .modified (chr '[' :: inner) = .array := by
    simp [start, Literal.text, lit, chr, isdigit]
  rw [readValue_eq, parse_case_eq, begins]
  rfl

theorem readValue_object (ops : DoubleOps D) (item : Item D) (inner : Bytes) :
    readValue ops item (chr '{' :: inner) =
      parse_object (readEntries (chr '}') (readMember ops)) item (chr '{' :: inner) := by
  have begins : start .modified (chr '{' :: inner) = .object := by
    simp [start, Literal.text, lit, chr, isdigit]
  rw [readValue_eq, parse_case_eq, begins]
  rfl

theorem parse_bracketed_open {type : ItemType} {opening closing : Byte}
    {entries : Parser ParseStop Byte (List (Item D))} {item : Item D} {inner : Bytes}
    (filled : (skip inner).head? ≠ some closing) :
    parse_bracketed type opening closing entries item (opening :: inner) =
      entries (skip inner) >>= fun rest =>
        .ok ({ item with type := type, child := rest.1 }, rest.2) := by
  rw [parse_bracketed_eq, andThen_eq (if_pos rfl), andThen_eq rfl]
  exact if_neg filled

/-- A site of the entries between two brackets, from the opening one on. -/
theorem bracketed_calls {entry : Parser ParseStop Byte (Item D)}
    (frames : Frames near Delimited entry) (trims : Trims entry) {type : ItemType}
    {opening closing : Byte} (listed : closing ∈ punctuation) (item : Item D) {inner site : Bytes}
    (filled : (skip inner).head? ≠ some closing) (h : EntrySite entry (skip inner) site) :
    ∃ front, inner = front ++ site ∧
      (∃ next, Ends Delimited next ∧
        Calls Swap (parse_bracketed type opening closing (readEntries closing entry) item)
          (opening :: front) entry site next) ∧
      ∀ other, Swap site other → (skip (front ++ other)).head? ≠ some closing ∧
        EntrySite entry (skip (front ++ other)) other := by
  obtain ⟨front, split, ⟨next, ended, calls⟩, again⟩ := entrySite_calls frames trims listed h
  obtain ⟨before, before_eq, skips⟩ := skip_front inner
  have solid : Solid (front ++ site) := by
    rw [← split]
    exact skip_solid inner
  rw [split] at filled before_eq
  have skipped : ∀ other, Swap site other → skip (before ++ front ++ other) = front ++ other := by
    intro other swap
    rw [List.append_assoc]
    exact skips _ (swap.solid_append solid)
  apply Exists.intro (before ++ front)
  apply And.intro (by rw [List.append_assoc]; exact before_eq)
  constructor
  · apply Exists.intro fun read => next read >>= fun rest =>
      .ok ({ item with type := type, child := rest.1 }, rest.2)
    apply And.intro (ended.bind _)
    intro other swap
    rw [List.cons_append, parse_bracketed_open, skipped other swap, calls other swap]
    · exact bind_assoc ..
    · rw [skipped other swap]
      exact swap.head_ne listed filled
  · intro other swap
    rw [skipped other swap]
    exact ⟨swap.head_ne listed filled, again other swap⟩

theorem memberAt_calls {ops : DoubleOps D} (item : Item D) {text name : Bytes}
    (h : MemberAt ops text name) :
    ∃ front, text = front ++ name ∧
      (∃ next, Ends Delimited next ∧
        Calls Swap (readValue ops item) front (readMember ops) name next) ∧
      ∀ other, Swap name other → MemberAt ops (front ++ other) other := by
  obtain ⟨inner, rfl, filled, site⟩ := h
  obtain ⟨front, rfl, ⟨next, ended, calls⟩, again⟩ := bracketed_calls (readMember_frames ops)
    (readMember_trims ops) (by decide) item filled site
  apply Exists.intro (chr '{' :: front)
  apply And.intro rfl
  constructor
  · refine ⟨next, ended, ?_⟩
    intro other swap
    rw [List.cons_append, readValue_object]
    exact calls other swap
  · intro other swap
    exact ⟨front ++ other, rfl, again other swap⟩

theorem memberAt_solid {ops : DoubleOps D} {text name : Bytes} (h : MemberAt ops text name) :
    Solid name := by
  obtain ⟨inner, -, -, site⟩ := h
  exact entrySite_solid site

theorem nested_solid {ops : DoubleOps D} {call inner : Item D × Bytes} (h : Nested ops call inner) :
    Solid inner.2 := by
  cases h with
  | element _ site => exact entrySite_solid site
  | member _ _ _ => exact skip_solid _

theorem readMember_named {ops : DoubleOps D} {child : Item D} {name rest value : Bytes}
    (named : parse_string .modified (cJSON_New_Item ops) name = .ok (child, rest))
    (colon : skip rest = chr ':' :: value) :
    readMember ops name = readValue ops child.named (skip value) := by
  have skipped : blanks rest = .ok ((), chr ':' :: value) := by rw [blanks, colon]
  unfold readMember
  rw [parse_member_eq, andThen_eq named, andThen_eq skipped, andThen_eq (if_pos rfl)]
  rfl

/-- Up to the value of a member, its name and the colon are read as before. -/
theorem member_content {ops : DoubleOps D} {child : Item D} {name rest value : Bytes}
    (named : parse_string .modified (cJSON_New_Item ops) name = .ok (child, rest))
    (colon : skip rest = chr ':' :: value) :
    ∃ front, name = front ++ skip value ∧ ∀ other, Swap (skip value) other →
      ∃ rest' value', parse_string .modified (cJSON_New_Item ops) (front ++ other) =
          .ok (child, rest') ∧ skip rest' = chr ':' :: value' ∧ skip value' = other := by
  have delimited : Delimited rest := by
    apply delimited_of_skip
    rw [colon]
    exact ⟨chr ':', by decide, rfl⟩
  obtain ⟨front, rfl, again⟩ := parse_string_frames _ named delimited
  obtain ⟨blank, split, skips⟩ := skip_front rest
  obtain ⟨blank', split', skips'⟩ := skip_front value
  have shape : rest = blank ++ chr ':' :: blank' ++ skip value := by
    rw [List.append_assoc, List.cons_append, ← split', ← colon]
    exact split
  apply Exists.intro (front ++ (blank ++ chr ':' :: blank'))
  apply And.intro
  · rw [List.append_assoc, ← shape]
  · intro other swap
    refine ⟨blank ++ chr ':' :: blank' ++ other, blank' ++ other, ?_, ?_, skips' other swap.solid⟩
    · rw [List.append_assoc]
      apply again
      rw [shape]
      exact swap.near (by simp)
    · rw [List.append_assoc, List.cons_append]
      apply skips
      intro ch found
      cases found
      decide

theorem nested_calls {ops : DoubleOps D} {item item' : Item D} {text site : Bytes}
    (h : Nested ops (item, text) (item', site)) :
    ∃ front, text = front ++ site ∧
      (∃ next, Ends Delimited next ∧
        Calls Swap (readValue ops item) front (readValue ops item') site next) ∧
      ∀ other, Swap site other → Nested ops (item, front ++ other) (item', other) := by
  cases h with
  | element filled found =>
    obtain ⟨front, rfl, ⟨next, ended, calls⟩, again⟩ := bracketed_calls (readValue_frames ops _)
      (readValue_trims ops _) (by decide) item filled found
    apply Exists.intro (chr '[' :: front)
    apply And.intro rfl
    constructor
    · refine ⟨next, ended, ?_⟩
      intro other swap
      rw [List.cons_append, readValue_array]
      exact calls other swap
    · intro other swap
      exact .element (again other swap).1 (again other swap).2
  | member found named colon =>
    have solid := memberAt_solid found
    obtain ⟨front, rfl, ⟨next, ended, calls⟩, again⟩ := memberAt_calls item found
    obtain ⟨more, rfl, content⟩ := member_content named colon
    apply Exists.intro (front ++ more)
    apply And.intro (List.append_assoc ..).symm
    constructor
    · refine ⟨next, ended, ?_⟩
      intro other swap
      obtain ⟨rest', value', named', colon', here⟩ := content other swap
      rw [List.append_assoc, calls _ (swap.prepend solid), readMember_named named' colon', here]
    · intro other swap
      obtain ⟨rest', value', named', colon', here⟩ := content other swap
      have step : Nested ops (item, front ++ (more ++ other)) (_, skip value') :=
        .member (again _ (swap.prepend solid)) named' colon'
      rwa [here, ← List.append_assoc] at step

/-- A call of `parse_value` inside a run on `text`. -/
theorem reached_calls {ops : DoubleOps D} {call inner : Item D × Bytes}
    (h : Relation.ReflTransGen (Nested ops) call inner) :
    ∃ front, call.2 = front ++ inner.2 ∧
      (∃ next, Calls Swap (readValue ops call.1) front (readValue ops inner.1) inner.2 next) ∧
      ∀ other, Swap inner.2 other →
        Relation.ReflTransGen (Nested ops) (call.1, front ++ other) (inner.1, other) := by
  induction h using Relation.ReflTransGen.head_induction_on with
  | refl =>
    refine ⟨[], rfl, ⟨.ok, ?_⟩, fun _ _ => .refl⟩
    intro other _
    rw [List.nil_append]
    exact (bind_pure _).symm
  | @head call middle step _ ih =>
    obtain ⟨more, split, ⟨next, calls⟩, again⟩ := ih
    obtain ⟨front, outer, ⟨next', -, calls'⟩, again'⟩ := nested_calls step
    have solid := nested_solid step
    rw [split] at outer calls' again' solid
    apply Exists.intro (front ++ more)
    apply And.intro (by rw [List.append_assoc]; exact outer)
    constructor
    · exact ⟨_, calls'.trans calls fun other swap => swap.prepend solid⟩
    · intro other swap
      rw [List.append_assoc]
      exact .head (again' _ (swap.prepend solid)) (again other swap)

end calls

section sites

variable {ops : DoubleOps D}

theorem reached_solid {text : Bytes} {call : Item D × Bytes} (h : Reached ops text call) :
    Solid call.2 := by
  cases h with
  | refl => exact skip_solid text
  | tail _ last => exact nested_solid last

/-- What `cJSON_ParseWithOpts` does behind the value. -/
def finish (require_null_terminated : Bool) (read : Item D × Bytes) :
    Except ParseStop (Item D × Bytes) :=
  if require_null_terminated then
    if skip read.2 = [] then .ok (read.1, []) else .error (.failed (skip read.2))
  else .ok read

/-- A call inside the value of the whole text, blanks before it included. -/
theorem root_calls {γ : Type} {g : Parser ParseStop Byte γ} {text front site : Bytes}
    {next : γ × Bytes → Except ParseStop (Item D × Bytes)} (split : skip text = front ++ site)
    (calls : Calls Swap (readValue ops (cJSON_New_Item ops)) front g site next) :
    ∃ before, text = before ++ front ++ site ∧ ∀ other, Swap site other →
      skip (before ++ front ++ other) = front ++ other ∧
      ∀ require_null_terminated,
        cJSON_ParseWithOpts ops .modified (before ++ front ++ other) require_null_terminated =
          g other >>= fun read => next read >>= finish require_null_terminated := by
  obtain ⟨before, whole, skips⟩ := skip_front text
  have solid := skip_solid text
  rw [split] at whole solid
  apply Exists.intro before
  apply And.intro (by rw [List.append_assoc]; exact whole)
  intro other swap
  have skipped : skip (before ++ front ++ other) = front ++ other := by
    rw [List.append_assoc]
    exact skips _ (swap.solid_append solid)
  apply And.intro skipped
  intro require_null_terminated
  rw [cJSON_ParseWithOpts_read, skipped, calls other swap]
  exact bind_assoc ..

/-- A run that reads a value at `site`. -/
theorem value_site {text site : Bytes} {item : Item D} (h : ValueAt ops text item site)
    (require_null_terminated : Bool) :
    ∃ front, text = front ++ site ∧ ∃ next, Ends Delimited next ∧ ∀ other, Swap site other →
      cJSON_ParseWithOpts ops .modified (front ++ other) require_null_terminated =
        readValue ops item other >>= next := by
  obtain ⟨call, reached, nested⟩ := h
  have solid := reached_solid reached
  obtain ⟨front, outer, ⟨next, calls⟩, -⟩ := reached_calls reached
  obtain ⟨more, inner, ⟨next', ended, calls'⟩, -⟩ := nested_calls nested
  rw [inner] at outer calls solid
  have whole := calls.trans calls' fun other swap => swap.prepend solid
  obtain ⟨before, text_eq, runs⟩ := root_calls (by rw [List.append_assoc]; exact outer) whole
  exact ⟨_, text_eq, _, (ended.bind next).bind (finish require_null_terminated),
    fun other swap => (runs other swap).2 require_null_terminated⟩

/-- A member is its name and a continuation that needs a colon. -/
theorem readMember_calls (ops : DoubleOps D) :
    ∃ next, Ends Delimited next ∧ ∀ other,
      readMember ops other = parse_string .modified (cJSON_New_Item ops) other >>= next := by
  refine ⟨fun read => andThen blanks (fun _ => andThen (expect (chr ':')) fun _ =>
    andThen blanks fun _ => readValue ops read.1.named) read.2, ?_, ?_⟩
  · intro child rest result returned
    obtain ⟨_, middle, skipped, found⟩ := andThen_ok returned
    cases skipped
    obtain ⟨_, _, colon, -⟩ := andThen_ok found
    exact delimited_of_skip ⟨chr ':', by decide, by rw [expect_ok colon]; rfl⟩
  · intro other
    unfold readMember
    rw [parse_member_eq]
    rfl

/-- A run that reads the name of a member at `name`. -/
theorem name_site {text name : Bytes} (h : NameAt ops text name) (require_null_terminated : Bool) :
    ∃ front, text = front ++ name ∧
      (∃ next, Ends Delimited next ∧ ∀ other, Swap name other →
        cJSON_ParseWithOpts ops .modified (front ++ other) require_null_terminated =
          parse_string .modified (cJSON_New_Item ops) other >>= next) ∧
      ∀ other, Swap name other → NameAt ops (front ++ other) other := by
  obtain ⟨call, reached, member⟩ := h
  have solid := reached_solid reached
  obtain ⟨front, outer, ⟨next, calls⟩, again⟩ := reached_calls reached
  obtain ⟨more, inner, ⟨next', -, calls'⟩, again'⟩ := memberAt_calls call.1 member
  rw [inner] at outer calls again solid
  have whole := calls.trans calls' fun other swap => swap.prepend solid
  obtain ⟨before, text_eq, runs⟩ := root_calls (by rw [List.append_assoc]; exact outer) whole
  obtain ⟨naming, ended, named⟩ := readMember_calls ops
  apply Exists.intro (before ++ (front ++ more))
  apply And.intro text_eq
  constructor
  · refine ⟨_, ended.bind fun read => (next' read >>= next) >>= finish require_null_terminated, ?_⟩
    intro other swap
    rw [(runs other swap).2, named]
    exact bind_assoc ..
  · intro other swap
    apply Exists.intro (call.1, more ++ other)
    apply And.intro _ (again' other swap)
    unfold Reached
    rw [(runs other swap).1, List.append_assoc]
    exact again _ (swap.prepend solid)

end sites

section words

/-- A word in quotes. -/
def quoted (word : Bytes) : Bytes := quote :: (word ++ [quote])

theorem quoted_append (word rest : Bytes) : quoted word ++ rest = quote :: (word ++ quote :: rest) := by
  simp [quoted]

/-- Without the quotes the measuring pass does not stop earlier. -/
theorem roomier_unquoted {word rest : Bytes} (some_ : word ≠ [])
    (letters : ∀ ch ∈ word, isWord ch = true) (delimited : Delimited rest) :
    Roomier (quoted word ++ rest) (word ++ rest)
  | [] => by
    rw [List.nil_append, quoted_append, measureString_stop rfl]
    exact Nat.zero_le _
  | [ch] => by
    rw [quoted_append, List.singleton_append, List.singleton_append]
    by_cases escape : ch = backslash
    · -- An escaped opening quote: the pass stops at the closing one.
      obtain ⟨first, word, rfl⟩ := List.exists_cons_of_ne_nil some_
      have counted := delimited.measured
      rw [escape, List.cons_append, measureString_escape, ← List.cons_append,
        measureString_word false letters, measureString_stop rfl, List.cons_append,
        measureString_escape, measureString_word false fun ch member =>
          letters ch (List.mem_cons_of_mem _ member), List.length_cons]
      omega
    · by_cases stop : isend ch false = true
      · rw [measureString_stop stop]
        exact Nat.zero_le _
      · rw [measureString_char stop escape, measureString_char stop escape, measureString_stop rfl]
        omega
  | ch :: e :: front => by
    have behind := roomier_unquoted some_ letters delimited (e :: front)
    have behind' := roomier_unquoted some_ letters delimited front
    simp only [List.cons_append] at behind ⊢
    by_cases escape : ch = backslash
    · rw [escape, measureString_escape, measureString_escape]
      omega
    · by_cases stop : isend ch false = true
      · rw [measureString_stop stop]
        exact Nat.zero_le _
      · rw [measureString_char stop escape, measureString_char stop escape]
        omega

theorem parse_string_quoted (item : Item D) {word : Bytes}
    (letters : ∀ ch ∈ word, isWord ch = true) (rest : Bytes) :
    parse_string .modified item (quoted word ++ rest) =
      .ok ({ item with valuestring := some word, type := .cJSON_String }, rest) := by
  rw [quoted_append, parse_string_quote]
  exact scanString_quoted item letters rest

theorem word_head {word : Bytes} (some_ : word ≠ []) (letters : ∀ ch ∈ word, isWord ch = true)
    {rest : Bytes} {ch : Byte} (found : (word ++ rest).head? = some ch) : isWord ch = true := by
  cases word with
  | nil => exact absurd rfl some_
  | cons first word =>
    cases found
    exact letters _ List.mem_cons_self

theorem parse_string_unquoted (item : Item D) {word rest : Bytes} (some_ : word ≠ [])
    (letters : ∀ ch ∈ word, isWord ch = true) (delimited : Delimited rest) :
    parse_string .modified item (word ++ rest) =
      .ok ({ item with valuestring := some word, type := .cJSON_String }, rest) := by
  have bare : (word ++ rest).head? ≠ some quote := by
    intro found
    cases word_head some_ letters found
  rw [parse_string_bare item bare, scanString_plain item letters delimited.word,
    if_neg delimited.not_quote]

theorem word_solid {ch : Byte} (word : isWord ch = true) :
    32 < ch.toNat ∧ ch ∉ punctuation := by
  constructor
  · by_contra blank
    have none := (delimiter_word (.inl (Nat.not_lt.mp blank))).1
    rw [word] at none
    cases none
  · intro listed
    have none := (delimiter_word (.inr listed)).1
    rw [word] at none
    cases none

theorem swap_unquoted {word rest : Bytes} (some_ : word ≠ [])
    (letters : ∀ ch ∈ word, isWord ch = true) (delimited : Delimited rest) :
    Swap (quoted word ++ rest) (word ++ rest) where
  solid _ found := (word_solid (word_head some_ letters found)).1
  apart _ listed found := absurd listed (word_solid (word_head some_ letters found)).2
  room := roomier_unquoted some_ letters delimited

theorem swap_quoted (word : Bytes) {rest other : Bytes} (room : Roomier rest other) :
    Swap (quoted word ++ rest) (quoted word ++ other) where
  solid _ found := by cases found; decide
  apart _ _ found := found
  room := room.prepend _

end words

section names

variable {ops : DoubleOps D}

/-- `edited` is the end `rest` of `text` with the quotes taken from some of the names
in it that are words. -/
inductive Unquoted (ops : DoubleOps D) (text : Bytes) : Bytes → Bytes → Prop where
  | nil : Unquoted ops text [] []
  | keep (ch : Byte) {rest edited : Bytes} :
    Unquoted ops text rest edited → Unquoted ops text (ch :: rest) (ch :: edited)
  | unquote {word rest edited : Bytes} : NameAt ops text (quoted word ++ rest) → word ≠ [] →
    (∀ ch ∈ word, isWord ch = true) → Unquoted ops text rest edited →
      Unquoted ops text (quoted word ++ rest) (word ++ edited)

/-- One name that is a word, in an accepted text. -/
theorem name_unquoted {front word rest : Bytes} {require_null_terminated : Bool}
    (named : NameAt ops (front ++ (quoted word ++ rest)) (quoted word ++ rest)) (some_ : word ≠ [])
    (letters : ∀ ch ∈ word, isWord ch = true) {result : Item D × Bytes}
    (accepted : cJSON_ParseWithOpts ops .modified (front ++ (quoted word ++ rest))
      require_null_terminated = .ok result) :
    Delimited rest ∧
      cJSON_ParseWithOpts ops .modified (front ++ (word ++ rest)) require_null_terminated =
        .ok result := by
  obtain ⟨before, split, ⟨next, ended, run⟩, -⟩ := name_site named require_null_terminated
  cases List.append_cancel_right split
  rw [run _ (swap_quoted word (Roomier.refl rest)), parse_string_quoted _ letters] at accepted
  have delimited : Delimited rest := ended accepted
  apply And.intro delimited
  rw [run _ (swap_unquoted some_ letters delimited),
    parse_string_unquoted _ some_ letters delimited]
  exact accepted

/-- From the end of the text backwards: no edit so far changes the result, or stops the
measuring pass earlier. -/
theorem unquoted_step {text rest edited : Bytes} (h : Unquoted ops text rest edited)
    {require_null_terminated : Bool} {result : Item D × Bytes}
    (accepted : cJSON_ParseWithOpts ops .modified text require_null_terminated = .ok result)
    (front : Bytes) (split : text = front ++ rest) :
    Roomier rest edited ∧
      cJSON_ParseWithOpts ops .modified (front ++ edited) require_null_terminated = .ok result := by
  induction h generalizing front with
  | nil => exact ⟨Roomier.refl [], split ▸ accepted⟩
  | keep ch inner ih =>
    obtain ⟨room, same⟩ := ih (front ++ [ch]) (by rw [split]; simp)
    exact ⟨room.prepend [ch], by simpa using same⟩
  | @unquote word rest edited named some_ letters inner ih =>
    obtain ⟨room, same⟩ := ih (front ++ quoted word) (by rw [split, List.append_assoc])
    rw [List.append_assoc] at same
    obtain ⟨before, split', -, again⟩ := name_site named require_null_terminated
    cases List.append_cancel_right (split.symm.trans split')
    have named' := again _ (swap_quoted word room)
    obtain ⟨delimited, shorter⟩ := name_unquoted named' some_ letters same
    exact ⟨(room.prepend _).trans (roomier_unquoted some_ letters delimited), shorter⟩

theorem names_unquoted (ops : DoubleOps D) (text edited : Bytes) (require_null_terminated : Bool)
    (tree : Item D) (ending : Bytes)
    (accepted : cJSON_ParseWithOpts ops .modified text require_null_terminated = .ok (tree, ending))
    (unquoted : Unquoted ops text text edited) :
    cJSON_ParseWithOpts ops .modified edited require_null_terminated = .ok (tree, ending) :=
  (unquoted_step unquoted accepted [] rfl).2

/-- The text `{"a":{"b_":1}}`. -/
def nestedText : Bytes :=
  lit ['{', '"', 'a', '"', ':', '{', '"', 'b', '_', '"', ':', '1', '}', '}']

def nestedTree : Item Int :=
  ⟨.cJSON_Object, none, 0, 0, none,
    [⟨.cJSON_Object, none, 0, 0, some (lit ['a']),
      [⟨.cJSON_Number, none, 1, 1, some (lit ['b', '_']), []⟩]⟩]⟩

theorem names_unquoted_nested :
    cJSON_ParseWithOpts wholeNumbers .modified
      (lit ['{', 'a', ':', '{', 'b', '_', ':', '1', '}', '}']) true = .ok (nestedTree, []) := by
  have outer : MemberAt wholeNumbers nestedText (quoted (lit ['a']) ++ nestedText.drop 4) :=
    ⟨nestedText.drop 1, rfl, by decide, .first _⟩
  have reached : Reached wholeNumbers nestedText
      (⟨.cJSON_String, none, 0, 0, some (lit ['a']), []⟩, nestedText.drop 5) :=
    .tail .refl (.member outer (by rfl) (by rfl))
  have inner : MemberAt wholeNumbers (nestedText.drop 5)
      (quoted (lit ['b', '_']) ++ nestedText.drop 10) :=
    ⟨nestedText.drop 6, rfl, by decide, .first _⟩
  have behind : Unquoted wholeNumbers nestedText (quoted (lit ['b', '_']) ++ nestedText.drop 10)
      (lit ['b', '_'] ++ nestedText.drop 10) :=
    .unquote ⟨_, reached, inner⟩ (by decide) (by decide)
      (.keep _ (.keep _ (.keep _ (.keep _ .nil))))
  have edited : Unquoted wholeNumbers nestedText (quoted (lit ['a']) ++ nestedText.drop 4)
      (lit ['a'] ++ chr ':' :: chr '{' :: (lit ['b', '_'] ++ nestedText.drop 10)) :=
    .unquote ⟨_, .refl, outer⟩ (by decide) (by decide) (.keep _ (.keep _ behind))
  exact names_unquoted wholeNumbers nestedText _ true nestedTree [] (by rfl) (.keep (chr '{') edited)

end names

section values

theorem start_quoted (dialect : Dialect) (text : Bytes) : start dialect (quote :: text) = .string := by
  simp [start, Literal.text, lit, chr, isdigit, quote]

theorem start_literal {dialect : Dialect} {text : Bytes} (h : ∃ word : Literal, word.text <+: text) :
    ∃ word : Literal, start dialect text = .literal word := by
  unfold start
  split
  · exact ⟨_, rfl⟩
  next no_null =>
    split
    · exact ⟨_, rfl⟩
    next no_false =>
      obtain ⟨word, begins⟩ := h
      cases word with
      | null => exact absurd begins no_null
      | false => exact absurd begins no_false
      | true =>
        rw [if_pos begins]
        exact ⟨_, rfl⟩

theorem start_word {ch : Byte} {text : Bytes} (letter : isalpha ch = true)
    (other : ∀ word : Literal, ¬ word.text <+: ch :: text) :
    start .modified (ch :: text) = .string := by
  have apart : ∀ mark : Byte, isalpha mark = false → ch ≠ mark := by
    intro mark none same
    rw [same, none] at letter
    cases letter
  have digit : isdigit ch = false := by
    simp only [isalpha, isdigit, Bool.or_eq_true, Bool.and_eq_true, decide_eq_true_eq,
      Bool.and_eq_false_iff, decide_eq_false_iff_not] at letter ⊢
    omega
  unfold start
  rw [if_neg (other .null), if_neg (other .false), if_neg (other .true)]
  dsimp only
  rw [if_neg (by simp [digit, apart (chr '-') rfl]), if_neg (apart (chr '[') rfl),
    if_neg (apart (chr '{') rfl), if_neg (apart quote rfl), if_pos ⟨rfl, letter⟩]

theorem readValue_start (ops : DoubleOps D) (item : Item D) (value : Bytes) :
    readValue ops item value =
      (start .modified value).run ops .modified
        (parse_array (readEntries (chr ']') (readValue ops (cJSON_New_Item ops))))
        (parse_object (readEntries (chr '}') (readMember ops))) item value := by
  rw [readValue_eq, parse_case_eq]

/-- A word that begins with a literal but is longer is read up to the literal's end,
where the run stops. -/
theorem bare_literal_stops {ops : DoubleOps D} {item : Item D} {word rest : Bytes}
    {next : Item D × Bytes → Except ParseStop (Item D × Bytes)} (ended : Ends Delimited next)
    (letters : ∀ ch ∈ word, isWord ch = true) (longer : ∀ literal : Literal, word ≠ literal.text)
    (delimited : Delimited rest) (begins : ∃ literal : Literal, literal.text <+: word)
    (result : Item D × Bytes) : readValue ops item (word ++ rest) >>= next ≠ .ok result := by
  obtain ⟨literal, found⟩ : ∃ literal, start .modified (word ++ rest) = .literal literal := by
    obtain ⟨literal, begins⟩ := begins
    exact start_literal ⟨literal, begins.trans (List.prefix_append ..)⟩
  obtain ⟨more, rfl⟩ := (literal_front literal delimited).mp (literal_of_start found)
  rw [readValue_start, found, Start.run, List.append_assoc, List.drop_left]
  intro returned
  have stops : Delimited (more ++ rest) := ended returned
  have not_word := stops.word
  have some_ : more ≠ [] := by
    intro none
    apply longer literal
    rw [none, List.append_nil]
  obtain ⟨ch, head, -⟩ := stops
  have letter : isWord ch = true :=
    word_head some_ (fun ch member => letters ch (List.mem_append_right _ member)) head
  rw [not_word ch head] at letter
  cases letter

theorem bare_value_iff (ops : DoubleOps D) (front word rest : Bytes) (item : Item D)
    (require_null_terminated : Bool) (tree : Item D) (ending : Bytes)
    (letters : ∀ ch ∈ word, isWord ch = true) (letter : ∃ ch, word.head? = some ch ∧ isalpha ch = true)
    (longer : ∀ literal : Literal, word ≠ literal.text)
    (value : ValueAt ops (front ++ (quoted word ++ rest)) item (quoted word ++ rest))
    (accepted : cJSON_ParseWithOpts ops .modified (front ++ (quoted word ++ rest))
      require_null_terminated = .ok (tree, ending)) :
    (cJSON_ParseWithOpts ops .modified (front ++ (word ++ rest)) require_null_terminated).map
        Prod.fst = .ok tree ↔
      ∀ literal : Literal, ¬ literal.text <+: word := by
  have some_ : word ≠ [] := by
    intro none
    obtain ⟨ch, head, -⟩ := letter
    rw [none] at head
    cases head
  obtain ⟨before, split, next, ended, run⟩ := value_site value require_null_terminated
  cases List.append_cancel_right split
  rw [run _ (swap_quoted word (Roomier.refl rest)), readValue_start, quoted_append, start_quoted,
    Start.run, ← quoted_append, parse_string_quoted _ letters] at accepted
  have delimited : Delimited rest := ended accepted
  rw [run _ (swap_unquoted some_ letters delimited)]
  constructor
  · intro same literal begins
    cases returned : readValue ops item (word ++ rest) >>= next with
    | error stop =>
      rw [returned] at same
      cases same
    | ok result =>
      exact bare_literal_stops ended letters longer delimited ⟨literal, begins⟩ result returned
  · intro other
    have bare : start .modified (word ++ rest) = .string := by
      obtain ⟨ch, head, alpha⟩ := letter
      obtain ⟨behind, rfl⟩ := List.head?_eq_some_iff.mp head
      apply start_word alpha
      intro literal begins
      exact other literal ((literal_front literal delimited).mp begins)
    rw [readValue_start, bare, Start.run, parse_string_unquoted _ some_ letters delimited]
    exact congrArg (Except.map Prod.fst) accepted

/-- An array with one string. -/
def singleton (word : Bytes) : Item Int :=
  ⟨.cJSON_Array, none, 0, 0, none, [⟨.cJSON_String, some word, 0, 0, none, []⟩]⟩

/-- The text `["ok"]`. -/
theorem bare_value_ok :
    (cJSON_ParseWithOpts wholeNumbers .modified (lit ['[', 'o', 'k', ']']) true).map Prod.fst =
      .ok (singleton (lit ['o', 'k'])) := by
  have element : ValueAt wholeNumbers (lit ['[', '"', 'o', 'k', '"', ']'])
      (cJSON_New_Item wholeNumbers) (quoted (lit ['o', 'k']) ++ lit [']']) :=
    ⟨_, .refl, .element (by decide) (.first _)⟩
  apply (bare_value_iff wholeNumbers (lit ['[']) (lit ['o', 'k']) (lit [']']) _ true _ []
    (by decide) ⟨_, rfl, by decide⟩ _ element (by rfl)).mpr
  · intro literal
    cases literal <;> decide
  · intro literal
    cases literal <;> decide

/-- The text `["nullable"]`: without quotes the word is read as `null` and the array fails. -/
theorem bare_nullable_rejected :
    ¬ ∀ (ops : DoubleOps Int) (front word rest : Bytes) (item : Item Int)
      (require_null_terminated : Bool) (tree : Item Int) (ending : Bytes),
      (∀ ch ∈ word, isWord ch = true) → (∃ ch, word.head? = some ch ∧ isalpha ch = true) →
      (∀ literal : Literal, word ≠ literal.text) →
      ValueAt ops (front ++ (quoted word ++ rest)) item (quoted word ++ rest) →
      cJSON_ParseWithOpts ops .modified (front ++ (quoted word ++ rest)) require_null_terminated =
        .ok (tree, ending) →
      (cJSON_ParseWithOpts ops .modified (front ++ (word ++ rest)) require_null_terminated).map
        Prod.fst = .ok tree := by
  intro claim
  have element : ValueAt wholeNumbers
      (lit ['['] ++ (quoted (lit ['n', 'u', 'l', 'l', 'a', 'b', 'l', 'e']) ++ lit [']']))
      (cJSON_New_Item wholeNumbers)
      (quoted (lit ['n', 'u', 'l', 'l', 'a', 'b', 'l', 'e']) ++ lit [']']) :=
    ⟨_, .refl, .element (by decide) (.first _)⟩
  have same := claim wholeNumbers (lit ['['])
    (lit ['n', 'u', 'l', 'l', 'a', 'b', 'l', 'e']) (lit [']']) _ true
    (singleton (lit ['n', 'u', 'l', 'l', 'a', 'b', 'l', 'e'])) [] (by decide)
    ⟨_, rfl, by decide⟩ (by intro literal; cases literal <;> decide) element (by rfl)
  cases same

end values

end BlmLink.Guarantees.BareWords
