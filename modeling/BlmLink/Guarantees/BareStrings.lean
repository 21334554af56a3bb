import BlmLink.Guarantees.BareWords

/-!
# Names and values without an opening quote

cJSON.c:143-207, 282-296 and 403-436. Without an opening quote `parse_string` copies
the letters and underscores at its position and then takes the step that drops a closing
quote, which was written for the other form. `parse_value` comes here only at a letter;
`parse_object` comes at whatever follows the brace or the comma, so the name may be
empty. What is read is the run itself, and parsing resumes behind it, exactly if the run
has a first character and no quote follows it (`bare_exact_iff`).
-/
namespace BlmLink.Guarantees.BareStrings

open BlmLink.Source
open BlmLink.Guarantees.JsonDialect BlmLink.Guarantees.JsonRecursion
open BlmLink.Guarantees.JsonLocality BlmLink.Guarantees.BareWords

variable {D : Type}

/-- In the run on `text` a string without an opening quote is read into `item` at `site`
and accepted: a name by the colon behind it, a value by being one. -/
inductive BareAt (ops : DoubleOps D) (text : Bytes) : Item D → Bytes → Prop where
  | name {site rest value : Bytes} {child : Item D} : NameAt ops text site →
    site.head? ≠ some quote →
      parse_string .modified (cJSON_New_Item ops) site = .ok (child, rest) →
        skip rest = chr ':' :: value → BareAt ops text (cJSON_New_Item ops) site
  | value {item : Item D} {site : Bytes} : Reached ops text (item, site) →
    site.head? ≠ some quote → start .modified site = .string → BareAt ops text item site

/-- A nonempty run of letters and underscores is read and stored, and nothing behind it. -/
def ReadsRun (item : Item D) (site : Bytes) : Prop :=
  ∃ run rest, site = run ++ rest ∧ run ≠ [] ∧ (∀ ch ∈ run, isWord ch = true) ∧
    (∀ ch, rest.head? = some ch → isWord ch = false) ∧
    parse_string .modified item site =
      .ok ({ item with valuestring := some run, type := .cJSON_String }, rest)

theorem BareAt.unquoted {ops : DoubleOps D} {text site : Bytes} {item : Item D}
    (h : BareAt ops text item site) : site.head? ≠ some quote := by
  cases h with
  | name _ bare _ _ => exact bare
  | value _ bare _ => exact bare

theorem dropWhile_head {p : Byte → Bool} {text : Bytes} {ch : Byte}
    (found : (text.dropWhile p).head? = some ch) : p ch = false := by
  have kept := List.head?_dropWhile_not p text
  rw [found] at kept
  simpa using kept

/-- What `parse_string` makes of any text that does not begin with a quote. -/
theorem parse_string_run (item : Item D) {site : Bytes} (bare : site.head? ≠ some quote) :
    parse_string .modified item site =
      .ok ({ item with valuestring := some (site.takeWhile isWord), type := .cJSON_String },
        if (site.dropWhile isWord).head? = some quote then (site.dropWhile isWord).tail
        else site.dropWhile isWord) := by
  have letters : ∀ ch ∈ site.takeWhile isWord, isWord ch = true :=
    fun ch member => List.mem_takeWhile_imp member
  have stop : ∀ ch, (site.dropWhile isWord).head? = some ch → isWord ch = false :=
    fun ch found => dropWhile_head found
  have read := scanString_plain item letters stop
  rw [List.takeWhile_append_dropWhile] at read
  rw [parse_string_bare item bare]
  exact read

/-- The run at the front of a text is the one that `dropWhile` leaves out. -/
theorem dropWhile_run {run rest : Bytes} (letters : ∀ ch ∈ run, isWord ch = true)
    (stop : ∀ ch, rest.head? = some ch → isWord ch = false) :
    (run ++ rest).dropWhile isWord = rest := by
  rw [List.dropWhile_append_of_pos letters]
  cases rest with
  | nil => rfl
  | cons ch rest => exact List.dropWhile_cons_of_neg (by simp [stop ch rfl])

/-- One string without an opening quote. -/
theorem readsRun_iff (item : Item D) {site : Bytes} (bare : site.head? ≠ some quote) :
    ReadsRun item site ↔
      site.head?.any isWord = true ∧ (site.dropWhile isWord).head? ≠ some quote := by
  constructor
  · rintro ⟨run, rest, rfl, some_, letters, stop, read⟩
    constructor
    · cases run with
      | nil => exact absurd rfl some_
      | cons ch run => exact letters ch List.mem_cons_self
    · rw [parse_string_run item bare, dropWhile_run letters stop] at read
      intro quoted
      rw [dropWhile_run letters stop] at quoted
      rw [if_pos quoted] at read
      -- A dropped quote leaves less than the rest.
      obtain ⟨behind, rfl⟩ := List.head?_eq_some_iff.mp quoted
      have short : behind = quote :: behind := congrArg Prod.snd (Except.ok.inj read)
      exact List.cons_ne_self _ _ short.symm
  · rintro ⟨begins, unquoted⟩
    refine ⟨site.takeWhile isWord, site.dropWhile isWord,
      List.takeWhile_append_dropWhile.symm, ?_, fun ch member => List.mem_takeWhile_imp member,
      fun ch found => dropWhile_head found, ?_⟩
    · cases site with
      | nil => cases begins
      | cons ch site => simpa [List.takeWhile_cons] using begins
    · rw [parse_string_run item bare, if_neg unquoted]

/-- The strings without an opening quote are read as their runs exactly if each of them
begins with a letter or an underscore and its run is not followed by a quote. -/
theorem bare_exact_iff (ops : DoubleOps D) (text : Bytes) :
    (∀ item site, BareAt ops text item site → ReadsRun item site) ↔
      ∀ item site, BareAt ops text item site →
        site.head?.any isWord = true ∧ (site.dropWhile isWord).head? ≠ some quote := by
  constructor
  · intro exact_ item site at_
    exact (readsRun_iff item at_.unquoted).mp (exact_ item site at_)
  · intro runs item site at_
    exact (readsRun_iff item at_.unquoted).mpr (runs item site at_)

/-- The text `{:1,a":2}`. -/
def looseText : Bytes := lit ['{', ':', '1', ',', 'a', '"', ':', '2', '}']

/-- An empty name is accepted, and a quote behind a name is dropped. -/
theorem bare_loose :
    cJSON_Parse wholeNumbers looseText =
        .ok (⟨.cJSON_Object, none, 0, 0, none,
          [⟨.cJSON_Number, none, 1, 1, some [], []⟩,
            ⟨.cJSON_Number, none, 2, 2, some (lit ['a']), []⟩]⟩, []) ∧
      ¬ ∀ item site, BareAt wholeNumbers looseText item site → ReadsRun item site := by
  apply And.intro (by rfl)
  intro exact_
  have member : MemberAt wholeNumbers looseText (looseText.drop 1) :=
    ⟨looseText.drop 1, rfl, by decide, .first _⟩
  have named : BareAt wholeNumbers looseText (cJSON_New_Item wholeNumbers) (looseText.drop 1) :=
    .name ⟨_, .refl, member⟩ (by decide) (by rfl) (by rfl)
  have begins := ((readsRun_iff _ named.unquoted).mp (exact_ _ _ named)).1
  cases begins

end BlmLink.Guarantees.BareStrings
