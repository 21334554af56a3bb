import Mathlib
import BlmLink.Guarantees.JsonRecursion

/-!
# What the parser reads does not depend on what follows

cJSON.c:95-207, 282-296, 317-342 and 403-436. A value or a member that ends before a
blank or one of `,`, `:`, `]` and `}` is read in the same way whatever comes behind
that character, with one exception: the measuring pass of `parse_string` can run past
the quote at which the copying pass stops, so the length of its block depends on the
rest of the text. A rest in which the pass counts no less is as good (`Roomier`,
`readValue_frames`). `sscanf` reads past the four characters that `ptr` moves, but never
past a quote (`scanHex_front`).
-/
namespace BlmLink.Guarantees.JsonLocality

open BlmLink.Lib.Parsing BlmLink.Source
open BlmLink.Guarantees.JsonDialect BlmLink.Guarantees.JsonRecursion

variable {D : Type}

/-- From wherever the measuring pass starts, it counts no less before `other`. -/
def Roomier (rest other : Bytes) : Prop :=
  ∀ front, (measureString false (front ++ rest)).1 ≤ (measureString false (front ++ other)).1

theorem Roomier.refl (rest : Bytes) : Roomier rest rest := fun _ => Nat.le_refl _

theorem Roomier.trans {rest other third : Bytes} (h : Roomier rest other)
    (h' : Roomier other third) : Roomier rest third :=
  fun front => Nat.le_trans (h front) (h' front)

theorem Roomier.prepend {rest other : Bytes} (h : Roomier rest other) (front : Bytes) :
    Roomier (front ++ rest) (front ++ other) := by
  intro before
  rw [← List.append_assoc, ← List.append_assoc]
  exact h (before ++ front)

theorem head_append {rest other : Bytes} (h : rest.head? = other.head?) (front : Bytes) :
    (front ++ rest).head? = (front ++ other).head? := by
  cases front with
  | nil => exact h
  | cons ch front => rfl

/-- The same next character, and no less room. -/
def near : Likeness Byte where
  like rest other := rest.head? = other.head? ∧ Roomier rest other
  prepend front _ _ h := ⟨head_append h.1 front, h.2.prepend front⟩

def punctuation : Bytes := lit [',', ':', ']', '}']

def Punctuated (rest : Bytes) : Prop := ∃ ch ∈ punctuation, rest.head? = some ch

/-- A blank or punctuation comes next. -/
def Delimited (rest : Bytes) : Prop :=
  ∃ ch, rest.head? = some ch ∧ (ch.toNat ≤ 32 ∨ ch ∈ punctuation)

/-- No blank comes next. -/
def Solid (text : Bytes) : Prop := ∀ ch, text.head? = some ch → 32 < ch.toNat

section blanks

theorem skip_solid (text : Bytes) : Solid (skip text) := by
  intro ch found
  unfold skip at found
  have kept := List.head?_dropWhile_not (fun ch : Byte => decide (ch.toNat ≤ 32)) text
  rw [found] at kept
  simpa using kept

theorem skip_of_solid {text : Bytes} (solid : Solid text) : skip text = text := by
  cases text with
  | nil => rfl
  | cons ch text =>
    have above := solid ch rfl
    unfold skip
    rw [List.dropWhile_cons_of_neg]
    simpa using above

/-- The blanks at the front are skipped before any text that does not begin with one. -/
theorem skip_front (text : Bytes) :
    ∃ front, text = front ++ skip text ∧ ∀ other, Solid other → skip (front ++ other) = other := by
  apply Exists.intro (text.takeWhile fun ch => ch.toNat ≤ 32)
  apply And.intro List.takeWhile_append_dropWhile.symm
  intro other solid
  unfold skip
  rw [List.dropWhile_append_of_pos]
  · exact skip_of_solid solid
  · intro ch member
    have blank := List.mem_takeWhile_imp member
    simpa using blank

theorem blanks_frames : Frames near (fun _ => True) blanks := by
  intro text value rest h _
  cases h
  obtain ⟨front, split, skips⟩ := skip_front text
  apply Exists.intro front
  apply And.intro split
  intro other like
  have solid : Solid other := by
    intro ch found
    exact skip_solid text ch (like.1.trans found)
  exact congrArg (fun rest => Except.ok ((), rest)) (skips other solid)

theorem delimited_of_skip {rest : Bytes} (h : Punctuated (skip rest)) : Delimited rest := by
  cases rest with
  | nil =>
    obtain ⟨ch, -, found⟩ := h
    cases found
  | cons ch rest =>
    apply Exists.intro ch
    apply And.intro rfl
    by_cases blank : ch.toNat ≤ 32
    · exact .inl blank
    · obtain ⟨mark, listed, found⟩ := h
      rw [skip_of_solid (by intro other head; cases head; omega)] at found
      cases found
      exact .inr listed

end blanks

section escapes

/-- A word without the next character of the rest begins a text only inside its front. -/
theorem prefix_front {word front rest : Bytes} (apart : ∀ ch ∈ word, rest.head? ≠ some ch) :
    word <+: front ++ rest ↔ word <+: front := by
  constructor
  · intro begins
    by_cases fits : word.length ≤ front.length
    · exact List.prefix_of_prefix_length_le begins (List.prefix_append ..) fits
    · obtain ⟨excess, rfl⟩ : front <+: word :=
        List.prefix_of_prefix_length_le (List.prefix_append ..) begins (by omega)
      have behind : excess <+: rest := (List.prefix_append_right_inj front).mp begins
      cases excess with
      | nil => simp at fits
      | cons ch excess =>
        obtain ⟨more, rfl⟩ := behind
        exact absurd rfl (apart ch (by simp))
  · intro begins
    exact begins.trans (List.prefix_append ..)

theorem takeWhile_front {p : Byte → Bool} {front rest : Bytes}
    (stop : ∀ ch, rest.head? = some ch → p ch = false) :
    (front ++ rest).takeWhile p = front.takeWhile p := by
  have none : rest.takeWhile p = [] := by
    cases rest with
    | nil => rfl
    | cons ch rest => exact List.takeWhile_cons_of_neg (by simp [stop ch rfl])
  rw [List.takeWhile_append, none, List.append_nil]
  split
  next whole => exact ((List.takeWhile_prefix p).eq_of_length whole).symm
  · rfl

theorem head_front {ch : Byte} (apart : ch ≠ quote) (front rest : Bytes) :
    (front ++ quote :: rest).head? = some ch ↔ front.head? = some ch := by
  cases front with
  | nil => simp [apart.symm]
  | cons first front => rfl

theorem prefix_quote {word : Bytes} (apart : quote ∉ word) (front rest : Bytes) :
    word <+: front ++ quote :: rest ↔ word <+: front := by
  apply prefix_front
  intro ch member same
  cases same
  exact apart member

theorem afterSign_front (field rest : Bytes) :
    afterSign (field ++ quote :: rest) = afterSign field ++ quote :: rest := by
  have minus := head_front (by decide : chr '-' ≠ quote) field rest
  have plus := head_front (by decide : chr '+' ≠ quote) field rest
  unfold afterSign
  simp only [minus, plus]
  split
  next sign =>
    cases field with
    | nil => simp at sign
    | cons ch field => rfl
  · rfl

theorem afterMark_front (field rest : Bytes) :
    afterMark (field ++ quote :: rest) = afterMark field ++ quote :: rest := by
  have lower := prefix_quote (by decide : quote ∉ lit ['0', 'x']) field rest
  have upper := prefix_quote (by decide : quote ∉ lit ['0', 'X']) field rest
  unfold afterMark
  simp only [lower, upper]
  split
  next mark =>
    have two : 2 ≤ field.length := by
      rcases mark with mark | mark
      · exact mark.length_le
      · exact mark.length_le
    exact List.drop_append_of_le_length two
  · rfl

theorem hexField_front (field rest : Bytes) : hexField (field ++ quote :: rest) = hexField field := by
  have digits : (afterMark (afterSign (field ++ quote :: rest))).takeWhile isxdigit =
      (afterMark (afterSign field)).takeWhile isxdigit := by
    rw [afterSign_front, afterMark_front]
    apply takeWhile_front
    intro ch found
    cases found
    rfl
  unfold hexField
  simp only [digits, head_front (by decide : chr '-' ≠ quote) field rest]

/-- `sscanf` does not read past a quote. -/
theorem scanHex_front (front rest : Bytes) : scanHex (front ++ quote :: rest) = scanHex front := by
  have blanks : (front ++ quote :: rest).dropWhile isspace =
      front.dropWhile isspace ++ quote :: rest := by
    rw [List.dropWhile_append]
    split
    next none =>
      rw [List.isEmpty_iff.mp none]
      exact List.dropWhile_cons_of_neg (by decide)
    · rfl
  unfold scanHex
  rw [blanks, List.take_append]
  cases room : 4 - (front.dropWhile isspace).length with
  | zero => rw [List.take_zero, List.append_nil]
  | succ room => rw [List.take_succ_cons, hexField_front]

theorem transcode_front (units : Units) {front : Bytes} (four : 4 ≤ front.length) (rest : Bytes) :
    transcode units (front ++ quote :: rest) = transcode units front := by
  have marked : lit ['\\', 'u'] <+: (front ++ quote :: rest).drop 4 ↔
      lit ['\\', 'u'] <+: front.drop 4 := by
    rw [List.drop_append_of_le_length four]
    exact prefix_quote (by decide) ..
  unfold transcode
  rw [scanHex_front]
  simp only [marked]
  by_cases six : 6 ≤ front.length
  · rw [List.drop_append_of_le_length six, scanHex_front]
  · have unmarked : ¬ lit ['\\', 'u'] <+: front.drop 4 := by
      intro begins
      have long := begins.length_le
      rw [List.length_drop] at long
      change 2 ≤ _ at long
      omega
    simp only [unmarked, if_false]

theorem transcode_moved {units units' : Units} {text written : Bytes} {moved : Nat}
    (h : transcode units text = .ok (written, units', moved)) : 4 ≤ moved := by
  unfold transcode at h
  repeat' split at h
  all_goals cases h
  all_goals decide

theorem copyString_stop {isplain : Bool} {ch : Byte} (stop : isend ch isplain = true)
    (units : Units) (out text : Bytes) :
    copyString isplain 0 units out (ch :: text) = .ok (out, ch :: text) := by
  cases text with
  | nil => rw [copyString, if_pos stop]
  | cons next text => rw [copyString, if_pos stop]

theorem copyString_char {isplain : Bool} {ch : Byte} (inside : ¬ isend ch isplain = true)
    (plain : ch ≠ backslash) (units : Units) (out text : Bytes) :
    copyString isplain 0 units out (ch :: text) =
      copyString isplain 0 units (out ++ [ch]) text := by
  cases text with
  | nil => simp only [copyString, if_neg inside, if_neg plain]
  | cons next text => rw [copyString, if_neg inside, if_neg plain]

/-- The copying pass of a quoted string up to its closing quote. -/
theorem copyString_front {ahead : Nat} {units : Units} {out text written rest : Bytes}
    (h : copyString false ahead units out text = .ok (written, quote :: rest)) :
    ∃ front, text = front ++ quote :: rest ∧ ahead ≤ front.length ∧
      ∀ other, copyString false ahead units out (front ++ quote :: other) =
        .ok (written, quote :: other) := by
  fun_induction copyString false ahead units out text with
  | case1 => cases h
  | case2 => cases h
  | case3 ahead units out ch text ih =>
    obtain ⟨front, rfl, long, copied⟩ := ih h
    exact ⟨ch :: front, rfl, Nat.succ_le_succ long, fun other => copied other⟩
  | case4 units out ch text stop =>
    cases h
    apply Exists.intro []
    apply And.intro rfl
    apply And.intro (Nat.le_refl _)
    intro other
    exact copyString_stop stop _ _ other
  | case5 => cases h
  | case6 => cases h
  | case7 units out text added units' moved transcoded inside ih =>
    obtain ⟨front, rfl, long, copied⟩ := ih h
    have four : 4 ≤ front.length := Nat.le_trans (transcode_moved transcoded) long
    rw [transcode_front units four] at transcoded
    apply Exists.intro (backslash :: chr 'u' :: front)
    apply And.intro rfl
    apply And.intro (Nat.zero_le _)
    intro other
    rw [List.cons_append, List.cons_append, copyString, if_neg inside, if_pos rfl, if_pos rfl,
      transcode_front units four, transcoded]
    exact copied other
  | case8 units out escape text single inside ih =>
    obtain ⟨front, rfl, long, copied⟩ := ih h
    apply Exists.intro (backslash :: escape :: front)
    apply And.intro rfl
    apply And.intro (Nat.zero_le _)
    intro other
    rw [List.cons_append, List.cons_append, copyString, if_neg inside, if_pos rfl, if_neg single]
    exact copied other
  | case9 units out ch text inside plain ih =>
    obtain ⟨front, rfl, long, copied⟩ := ih h
    apply Exists.intro (ch :: front)
    apply And.intro rfl
    apply And.intro (Nat.zero_le _)
    intro other
    rw [List.cons_append, copyString_char inside plain]
    exact copied other

end escapes

section strings

/-- The characters of a bare word. -/
def isWord (ch : Byte) : Bool := isalpha ch || ch == chr '_'

theorem isend_plain (ch : Byte) : isend ch true = !isWord ch := by
  by_cases quoted : ch = quote
  · rw [quoted]
    rfl
  · simp [isend, isWord, quoted, bne]

theorem isWord_isend {ch : Byte} (word : isWord ch = true) (isplain : Bool) :
    ¬ isend ch isplain = true := by
  cases isplain with
  | true => simp [isend_plain, word]
  | false =>
    intro stop
    have quoted : ch = quote := by simpa [isend] using stop
    rw [quoted] at word
    cases word

theorem isWord_plain {ch : Byte} (word : isWord ch = true) : ch ≠ backslash := by
  intro same
  rw [same] at word
  cases word

/-- Both passes step over the characters of a word one at a time. -/
theorem copyString_word (isplain : Bool) (units : Units) (out : Bytes) {word : Bytes}
    (letters : ∀ ch ∈ word, isWord ch = true) (rest : Bytes) :
    copyString isplain 0 units out (word ++ rest) =
      copyString isplain 0 units (out ++ word) rest := by
  induction word generalizing out with
  | nil => rw [List.nil_append, List.append_nil]
  | cons ch word ih =>
    have letter := letters ch List.mem_cons_self
    rw [List.cons_append, copyString_char (isWord_isend letter isplain) (isWord_plain letter),
      ih _ (fun other member => letters other (List.mem_cons_of_mem _ member)), List.append_assoc]
    rfl

theorem measureString_char {isplain : Bool} {ch : Byte} (inside : ¬ isend ch isplain = true)
    (plain : ch ≠ backslash) (text : Bytes) :
    (measureString isplain (ch :: text)).1 = (measureString isplain text).1 + 1 := by
  cases text with
  | nil => simp only [measureString, if_neg inside, if_neg plain]
  | cons next text => rw [measureString, if_neg inside, if_neg plain]

theorem measureString_stop {isplain : Bool} {ch : Byte} (stop : isend ch isplain = true)
    (text : Bytes) : (measureString isplain (ch :: text)).1 = 0 := by
  cases text with
  | nil => simp only [measureString, if_pos stop]
  | cons next text => rw [measureString, if_pos stop]

theorem measureString_escape (ch : Byte) (text : Bytes) :
    (measureString false (backslash :: ch :: text)).1 = (measureString false text).1 + 1 := by
  rw [measureString, if_neg (by decide), if_pos rfl]

theorem measureString_word (isplain : Bool) {word : Bytes}
    (letters : ∀ ch ∈ word, isWord ch = true) (rest : Bytes) :
    (measureString isplain (word ++ rest)).1 = word.length + (measureString isplain rest).1 := by
  induction word with
  | nil => simp
  | cons ch word ih =>
    have letter := letters ch List.mem_cons_self
    rw [List.cons_append, measureString_char (isWord_isend letter isplain) (isWord_plain letter),
      ih (fun other member => letters other (List.mem_cons_of_mem _ member)), List.length_cons]
    omega

theorem stopped_plain {rest : Bytes} (stop : ∀ ch, rest.head? = some ch → isWord ch = false)
    (units : Units) (out : Bytes) : copyString true 0 units out rest = .ok (out, rest) := by
  cases rest with
  | nil => rfl
  | cons ch rest => exact copyString_stop (by rw [isend_plain, stop ch rfl]; rfl) units out rest

/-- A string without quotes is the word at the front; a quote behind it is dropped. -/
theorem scanString_plain (item : Item D) {word rest : Bytes}
    (letters : ∀ ch ∈ word, isWord ch = true)
    (stop : ∀ ch, rest.head? = some ch → isWord ch = false) :
    scanString true item (word ++ rest) =
      .ok ({ item with valuestring := some word, type := .cJSON_String },
        if rest.head? = some quote then rest.tail else rest) := by
  unfold scanString
  rw [copyString_word true _ _ letters, stopped_plain stop, List.nil_append]
  dsimp only
  rw [if_neg]
  rw [measureString_word true letters]
  omega

/-- A quoted word. -/
theorem scanString_quoted (item : Item D) {word : Bytes} (letters : ∀ ch ∈ word, isWord ch = true)
    (rest : Bytes) :
    scanString false item (word ++ quote :: rest) =
      .ok ({ item with valuestring := some word, type := .cJSON_String }, rest) := by
  unfold scanString
  rw [copyString_word false _ _ letters, copyString_stop rfl, List.nil_append]
  dsimp only
  rw [if_neg]
  · rfl
  · rw [measureString_word false letters]
    omega

/-- Where the copying pass of a quoted string stops. -/
theorem copyString_stopped {ahead : Nat} {units : Units} {out text written ptr : Bytes}
    (h : copyString false ahead units out text = .ok (written, ptr)) :
    ptr = [] ∨ ∃ rest, ptr = quote :: rest := by
  fun_induction copyString false ahead units out text with
  | case1 => cases h; exact .inl rfl
  | case2 => cases h
  | case3 ahead units out ch text ih => exact ih h
  | case4 units out ch text stop =>
    cases h
    have quoted : ch = quote := by simpa [isend] using stop
    exact .inr ⟨text, by rw [quoted]⟩
  | case5 => cases h
  | case6 => cases h
  | case7 units out text added units' moved transcoded inside ih => exact ih h
  | case8 units out escape text single inside ih => exact ih h
  | case9 units out ch text inside plain ih => exact ih h

theorem scanString_quoted_frames (item : Item D) : Frames near Delimited (scanString false item) := by
  intro text value rest read delimited
  unfold scanString at read
  split at read
  · cases read
  next out ptr copied =>
    split at read
    · cases read
    next fits =>
      cases copyString_stopped copied with
      | inl ended =>
        rw [ended] at read
        cases read
        obtain ⟨ch, found, -⟩ := delimited
        cases found
      | inr stopped =>
        obtain ⟨behind, rfl⟩ := stopped
        cases read
        obtain ⟨front, rfl, -, again⟩ := copyString_front copied
        apply Exists.intro (front ++ [quote])
        apply And.intro (List.append_cons ..)
        intro other like
        have room := like.2.prepend [quote] front
        rw [List.append_assoc, List.singleton_append]
        unfold scanString
        rw [again other]
        dsimp only
        rw [if_neg]
        · rfl
        · exact fun excess => fits (Nat.lt_of_le_of_lt room excess)

theorem scanString_plain_frames (item : Item D) :
    Frames near (fun _ => True) (scanString true item) := by
  intro text value rest read _
  have letters : ∀ ch ∈ text.takeWhile isWord, isWord ch = true :=
    fun ch member => List.mem_takeWhile_imp member
  have stop : ∀ ch, (text.dropWhile isWord).head? = some ch → isWord ch = false := by
    intro ch found
    have kept := List.head?_dropWhile_not isWord text
    rw [found] at kept
    simpa using kept
  have split : text = text.takeWhile isWord ++ text.dropWhile isWord :=
    List.takeWhile_append_dropWhile.symm
  rw [split, scanString_plain item letters stop] at read
  rw [split]
  by_cases quoted : (text.dropWhile isWord).head? = some quote
  · obtain ⟨behind, shape⟩ := List.head?_eq_some_iff.mp quoted
    rw [if_pos quoted, shape] at read
    cases read
    apply Exists.intro (text.takeWhile isWord ++ [quote])
    apply And.intro (by rw [shape, ← List.append_cons]; rfl)
    intro other like
    rw [List.append_assoc, List.singleton_append]
    apply scanString_plain item letters
    intro ch found
    cases found
    rfl
  · rw [if_neg quoted] at read
    cases read
    apply Exists.intro (text.takeWhile isWord)
    apply And.intro rfl
    intro other like
    rw [scanString_plain item letters (fun ch found => stop ch (like.1.trans found)),
      if_neg (fun found => quoted (like.1.trans found))]

theorem parse_string_quote (dialect : Dialect) (item : Item D) (text : Bytes) :
    parse_string dialect item (quote :: text) = scanString false item text := if_pos rfl

theorem parse_string_bare (item : Item D) {str : Bytes} (bare : str.head? ≠ some quote) :
    parse_string .modified item str = scanString true item str := by
  rw [parse_string, if_neg bare, if_neg (by decide)]

theorem parse_string_frames (item : Item D) :
    Frames near Delimited (parse_string .modified item) := by
  intro text value rest read delimited
  by_cases quoted : text.head? = some quote
  · obtain ⟨behind, rfl⟩ := List.head?_eq_some_iff.mp quoted
    rw [parse_string_quote] at read
    obtain ⟨front, rfl, again⟩ := scanString_quoted_frames item read delimited
    apply Exists.intro (quote :: front)
    apply And.intro rfl
    intro other like
    rw [List.cons_append, parse_string_quote]
    exact again other like
  · rw [parse_string_bare item quoted] at read
    obtain ⟨front, rfl, again⟩ := scanString_plain_frames item read trivial
    apply Exists.intro front
    apply And.intro rfl
    intro other like
    have same := (near.prepend front like).1
    rw [parse_string_bare item (fun found => quoted (same.trans found))]
    exact again other like

end strings

section numbers

/-- `f` looks at one character behind what it takes. -/
def Looks {α : Type} (f : Bytes → α × Bytes) (text : Bytes) : Prop :=
  ∃ front, text = front ++ (f text).2 ∧
    ∀ other, (f text).2.head? = other.head? → f (front ++ other) = ((f text).1, other)

theorem took_frames {α : Type} {stop : Bytes → Prop} {f : Bytes → α × Bytes}
    (h : ∀ text, stop (f text).2 → Looks f text) : Frames near stop (took f) := by
  intro text value rest taken stopped
  have result : f text = (value, rest) := Except.ok.inj taken
  have looks := h text (by rw [result]; exact stopped)
  unfold Looks at looks
  rw [result] at looks
  obtain ⟨front, split, again⟩ := looks
  exact ⟨front, split, fun other like => congrArg Except.ok (again other like.1)⟩

theorem looks_nothing {α : Type} {f : Bytes → α × Bytes} {text : Bytes} {value : α}
    (h : ∀ other, text.head? = other.head? → f other = (value, other)) : Looks f text := by
  unfold Looks
  rw [h text rfl]
  exact ⟨[], rfl, h⟩

/-- A character is taken and what is behind it is read as before. -/
theorem Looks.cons {α : Type} {f g : Bytes → α × Bytes} {ch : Byte} {text : Bytes}
    (h : Looks g text) (next : ∀ rest, f (ch :: rest) = g rest) : Looks f (ch :: text) := by
  unfold Looks
  rw [next text]
  obtain ⟨front, split, again⟩ := h
  apply Exists.intro (ch :: front)
  apply And.intro (congrArg (List.cons ch) split)
  intro other same
  rw [List.cons_append, next]
  exact again other same

theorem Looks.congr {α : Type} {f g : Bytes → α × Bytes} {text : Bytes} (h : Looks g text)
    (same : ∀ other, text.head? = other.head? → f other = g other) : Looks f text := by
  unfold Looks
  rw [same text rfl]
  obtain ⟨front, split, again⟩ := h
  apply Exists.intro front
  apply And.intro split
  intro other like
  rw [same _ (by rw [split]; exact head_append like front)]
  exact again other like

theorem Looks.map {α β : Type} {g : Bytes → α × Bytes} {text : Bytes} (h : Looks g text)
    (f : α → β) : Looks (fun rest => (f (g rest).1, (g rest).2)) text := by
  obtain ⟨front, split, again⟩ := h
  apply Exists.intro front
  apply And.intro split
  intro other like
  dsimp only
  rw [again other like]

/-- A loop that runs while there are digits looks at one character behind them. -/
theorem digits_looks {σ α : Type} (loop : σ → Bytes → α × Bytes) (step : σ → Byte → σ)
    (result : σ → α) (ends : ∀ s, loop s [] = (result s, []))
    (runs : ∀ s ch rest, loop s (ch :: rest) =
      if isdigit ch then loop (step s ch) rest else (result s, ch :: rest))
    (s : σ) (num : Bytes) : Looks (loop s) num := by
  induction num generalizing s with
  | nil =>
    apply looks_nothing
    intro other same
    rw [List.head?_eq_none_iff.mp same.symm]
    exact ends s
  | cons ch num ih =>
    by_cases digit : isdigit ch = true
    · apply (ih (step s ch)).cons
      intro rest
      rw [runs, if_pos digit]
    · apply looks_nothing
      intro other same
      obtain ⟨rest, rfl⟩ := List.head?_eq_some_iff.mp same.symm
      rw [runs, if_neg digit]

theorem readDigits_looks (ops : DoubleOps D) (n : D) (count : Nat) (num : Bytes) :
    Looks (readDigits ops n count) num :=
  digits_looks (fun s => readDigits ops s.1 s.2)
    (fun s ch => (ops.digit s.1 (ch.toNat - 48), s.2 + 1)) id (fun _ => rfl) (fun _ _ _ => rfl)
    (n, count) num

theorem readSubscale_looks (subscale : CInt) (num : Bytes) : Looks (readSubscale subscale) num :=
  digits_looks readSubscale (fun subscale ch => subscale * 10 + BitVec.ofNat 32 (ch.toNat - 48)) id
    (fun _ => rfl) (fun _ _ _ => rfl) subscale num

/-- An optional character is looked for at the front only. -/
theorem optional_looks {α : Type} (ch : Byte) (value : α) (text : Bytes) :
    Looks (fun rest : Bytes => (value, if rest.head? = some ch then rest.tail else rest)) text := by
  by_cases found : text.head? = some ch
  · obtain ⟨rest, rfl⟩ := List.head?_eq_some_iff.mp found
    apply (looks_nothing (fun _ _ => rfl) : Looks (fun rest => (value, rest)) rest).cons
    intro other
    exact congrArg (Prod.mk value) (if_pos rfl)
  · apply looks_nothing
    intro other same
    rw [if_neg (fun head => found (same.trans head))]

theorem readSign_looks (num : Bytes) : Looks readSign num := by
  by_cases minus : num.head? = some (chr '-')
  · obtain ⟨rest, rfl⟩ := List.head?_eq_some_iff.mp minus
    exact (optional_looks (chr '0') true rest).cons fun _ => rfl
  · apply (optional_looks (chr '0') false num).congr
    intro other same
    have off : (other.head? == some (chr '-')) = false := by
      rw [← same]
      exact beq_eq_false_iff_ne.mpr minus
    simp only [readSign, off]
    rfl

theorem readInteger_looks (ops : DoubleOps D) (num : Bytes) : Looks (readInteger ops) num := by
  cases num with
  | nil =>
    apply looks_nothing
    intro other same
    rw [List.head?_eq_none_iff.mp same.symm]
    rfl
  | cons ch num =>
    by_cases leading : isdigit ch = true ∧ ch ≠ chr '0'
    · apply ((readDigits_looks ops ops.zero 0 (ch :: num)).map Prod.fst).congr
      intro other same
      obtain ⟨rest, rfl⟩ := List.head?_eq_some_iff.mp same.symm
      rw [readInteger, if_pos leading]
    · apply looks_nothing
      intro other same
      obtain ⟨rest, rfl⟩ := List.head?_eq_some_iff.mp same.symm
      rw [readInteger, if_neg leading]

/-- The digit behind the point is looked at too, so a point may not come next. -/
theorem readFraction_looks (ops : DoubleOps D) (n : D) {num : Bytes}
    (pointless : (readFraction ops n num).2.head? ≠ some (chr '.')) :
    Looks (readFraction ops n) num := by
  by_cases point : num.head? = some (chr '.') ∧ num.tail.head?.any isdigit
  · obtain ⟨rest, rfl⟩ := List.head?_eq_some_iff.mp point.1
    have taken : ∀ text : Bytes, text.head?.any isdigit = true →
        readFraction ops n (chr '.' :: text) = readDigits ops n 0 text := by
      intro text digit
      rw [readFraction, if_pos ⟨rfl, digit⟩]
      rfl
    unfold Looks
    rw [taken rest point.2]
    obtain ⟨front, split, again⟩ := readDigits_looks ops n 0 rest
    apply Exists.intro (chr '.' :: front)
    apply And.intro (congrArg (List.cons (chr '.')) split)
    intro other same
    have digit : (front ++ other).head?.any isdigit = true := by
      rw [← head_append same front, ← split]
      exact point.2
    rw [List.cons_append, taken _ digit]
    exact again other same
  · rw [readFraction, if_neg point] at pointless
    apply looks_nothing
    intro other same
    rw [readFraction, if_neg (fun found => pointless (same.trans found.1))]

theorem readExponent_looks (num : Bytes) : Looks readExponent num := by
  have signed : ∀ text : Bytes, Looks (fun rest =>
      if rest.head? = some (chr '+') then readSubscale 0 rest.tail
      else if rest.head? = some (chr '-') then
        (-(readSubscale 0 rest.tail).1, (readSubscale 0 rest.tail).2)
      else readSubscale 0 rest) text := by
    intro text
    by_cases plus : text.head? = some (chr '+')
    · obtain ⟨rest, rfl⟩ := List.head?_eq_some_iff.mp plus
      exact (readSubscale_looks 0 rest).cons fun _ => rfl
    · by_cases minus : text.head? = some (chr '-')
      · obtain ⟨rest, rfl⟩ := List.head?_eq_some_iff.mp minus
        exact ((readSubscale_looks 0 rest).map fun value => -value).cons fun _ => rfl
      · apply (readSubscale_looks 0 text).congr
        intro other same
        rw [if_neg (fun found => plus (same.trans found)),
          if_neg (fun found => minus (same.trans found))]
  by_cases marked : num.head? = some (chr 'e') ∨ num.head? = some (chr 'E')
  · cases num with
    | nil => simp at marked
    | cons ch num =>
      apply (signed num).cons
      intro rest
      have again : (ch :: rest).head? = some (chr 'e') ∨ (ch :: rest).head? = some (chr 'E') := marked
      rw [readExponent, if_pos again]
      rfl
  · apply looks_nothing
    intro other same
    rw [readExponent, if_neg (by rw [← same]; exact marked)]

theorem parse_number_frames (ops : DoubleOps D) (item : Item D) :
    Frames near Delimited (took (parse_number ops item)) := by
  have any : ∀ {α : Type} {f : Bytes → α × Bytes}, (∀ text, Looks f text) →
      Frames near (fun _ => True) (took f) := fun looks => took_frames fun text _ => looks text
  rw [parse_number_eq]
  apply (any readSign_looks).andThen _ fun _ _ => trivial
  intro negative
  apply (any (readInteger_looks ops)).andThen _ fun _ _ => trivial
  intro n
  have fractions : Frames near (fun rest => rest.head? ≠ some (chr '.')) (took (readFraction ops n)) :=
    took_frames fun text => readFraction_looks ops n
  apply fractions.andThen
  · intro fraction
    apply (any readExponent_looks).andThen _ fun _ _ => trivial
    intro subscale
    exact frames_done near Delimited _
  · intro fraction middle result rest read delimited point
    have unmarked : readExponent middle = (0, middle) := by
      rw [readExponent, if_neg (by rw [point]; decide)]
    have same : middle = rest := by
      rw [andThen_eq (congrArg Except.ok unmarked)] at read
      cases read
      rfl
    obtain ⟨ch, found, delimits⟩ := delimited
    rw [← same, point] at found
    cases found
    revert delimits
    decide

end numbers

section values

theorem expect_frames (ch : Byte) : Frames near (fun _ => True) (expect ch) := by
  intro text value rest read _
  exact ⟨[ch], expect_ok read, fun other _ => if_pos rfl⟩

/-- The rest begins where blanks have been skipped to punctuation. -/
theorem padded_frames {entry : Parser ParseStop Byte (Item D)} (h : Frames near Delimited entry) :
    Frames near Punctuated (padded entry) := by
  rw [padded_eq]
  apply blanks_frames.andThen _ fun _ _ => trivial
  intro _
  apply h.andThen
  · intro child
    apply blanks_frames.andThen _ fun _ _ => trivial
    intro _
    exact frames_done near Punctuated child
  · intro child middle result rest read punctuated
    cases read
    exact delimited_of_skip punctuated

theorem afterEntry_frames {entries : Parser ParseStop Byte (List (Item D))}
    (h : Frames near (fun _ => True) entries) (closing : Byte) (child : Item D) :
    Frames near (fun _ => True) (afterEntry closing entries child) := by
  intro value children rest read _
  unfold afterEntry at read
  split at read
  next comma =>
    obtain ⟨behind, rfl⟩ := List.head?_eq_some_iff.mp comma
    obtain ⟨more, entered, returned⟩ := bind_ok read
    cases returned
    obtain ⟨front, split, again⟩ := h entered trivial
    apply Exists.intro (chr ',' :: front)
    apply And.intro (congrArg (List.cons (chr ',')) split)
    intro other like
    rw [List.cons_append, afterEntry_comma, again other like]
    rfl
  next other =>
    split at read
    next closed =>
      obtain ⟨behind, rfl⟩ := List.head?_eq_some_iff.mp closed
      cases read
      apply Exists.intro [closing]
      apply And.intro rfl
      intro rest like
      exact afterEntry_closing (fun same => other (congrArg some same)) entries child rest
    · cases read

theorem afterEntry_punctuated {entries : Parser ParseStop Byte (List (Item D))} {closing : Byte}
    (closes : closing ∈ punctuation) {child : Item D} {value : Bytes}
    {result : List (Item D) × Bytes} (read : afterEntry closing entries child value = .ok result) :
    Punctuated value := by
  unfold afterEntry at read
  split at read
  next comma => exact ⟨chr ',', by decide, comma⟩
  · split at read
    next closed => exact ⟨closing, closes, closed⟩
    · cases read

theorem parse_entries_frames {entry : Parser ParseStop Byte (Item D)}
    (h : Frames near Delimited entry) {closing : Byte} (closes : closing ∈ punctuation)
    (fuel : Nat) : Frames near (fun _ => True) (parse_entries closing entry fuel) := by
  induction fuel with
  | zero =>
    intro value children rest read _
    cases read
  | succ fuel ih =>
    rw [parse_entries_succ]
    exact (padded_frames h).andThen (afterEntry_frames ih closing)
      fun read _ => afterEntry_punctuated closes read

theorem parse_bracketed_frames {entries : Parser ParseStop Byte (List (Item D))}
    (h : Frames near (fun _ => True) entries) (type : ItemType) (opening closing : Byte)
    (item : Item D) :
    Frames near (fun _ => True) (parse_bracketed type opening closing entries item) := by
  rw [parse_bracketed_eq]
  apply (expect_frames opening).andThen _ fun _ _ => trivial
  intro _
  apply blanks_frames.andThen _ fun _ _ => trivial
  intro _ value tree rest read _
  unfold afterBracket at read
  split at read
  next closed =>
    obtain ⟨behind, rfl⟩ := List.head?_eq_some_iff.mp closed
    cases read
    apply Exists.intro [closing]
    apply And.intro rfl
    intro other like
    exact if_pos rfl
  next open_ =>
    obtain ⟨more, entered, returned⟩ := bind_ok read
    cases returned
    obtain ⟨front, split, again⟩ := h entered trivial
    apply Exists.intro front
    apply And.intro split
    intro other like
    unfold afterBracket
    rw [if_neg, again other like]
    · rfl
    · rw [← head_append like.1 front, ← split]
      exact open_

theorem parse_member_frames (ops : DoubleOps D)
    {parseValue : Item D → Parser ParseStop Byte (Item D)}
    (h : ∀ item, Frames near Delimited (parseValue item)) :
    Frames near Delimited (parse_member ops .modified parseValue) := by
  rw [parse_member_eq]
  apply (parse_string_frames _).andThen
  · intro child
    apply blanks_frames.andThen _ fun _ _ => trivial
    intro _
    apply (expect_frames _).andThen _ fun _ _ => trivial
    intro _
    exact blanks_frames.andThen (fun _ => h child.named) fun _ _ => trivial
  · intro child middle result rest read _
    obtain ⟨_, behind, skipped, colon⟩ := andThen_ok read
    cases skipped
    obtain ⟨_, _, found, -⟩ := andThen_ok colon
    exact delimited_of_skip ⟨chr ':', by decide, by rw [expect_ok found]; rfl⟩

theorem delimiter_word {ch : Byte} (h : ch.toNat ≤ 32 ∨ ch ∈ punctuation) :
    isWord ch = false ∧ ch ≠ quote := by
  rcases h with blank | listed
  · constructor
    · simp only [isWord, isalpha, Bool.or_eq_false_iff, Bool.and_eq_false_iff, decide_eq_false_iff_not,
        beq_eq_false_iff_ne]
      refine ⟨⟨.inl (by omega), .inl (by omega)⟩, ?_⟩
      intro same
      rw [same] at blank
      exact absurd blank (by decide)
    · intro same
      rw [same] at blank
      exact absurd blank (by decide)
  · exact (by decide : ∀ ch ∈ punctuation, isWord ch = false ∧ ch ≠ quote) ch listed

theorem Delimited.word {rest : Bytes} (h : Delimited rest) :
    ∀ ch, rest.head? = some ch → isWord ch = false := by
  intro ch found
  obtain ⟨mark, head, delimits⟩ := h
  cases head.symm.trans found
  exact (delimiter_word delimits).1

theorem Delimited.not_quote {rest : Bytes} (h : Delimited rest) : rest.head? ≠ some quote := by
  intro found
  obtain ⟨mark, head, delimits⟩ := h
  cases head.symm.trans found
  exact (delimiter_word delimits).2 rfl

theorem Delimited.not_backslash {rest : Bytes} (h : Delimited rest) :
    rest.head? ≠ some backslash := by
  intro found
  obtain ⟨mark, head, delimits⟩ := h
  cases head.symm.trans found
  revert delimits
  decide

/-- The measuring pass counts a delimiter. -/
theorem Delimited.measured {rest : Bytes} (h : Delimited rest) :
    0 < (measureString false rest).1 := by
  cases rest with
  | nil =>
    obtain ⟨mark, head, -⟩ := h
    cases head
  | cons ch rest =>
    have inside : ¬ isend ch false = true := by
      intro stop
      apply h.not_quote
      simpa [isend] using stop
    have plain : ch ≠ backslash := fun same => h.not_backslash (congrArg some same)
    rw [measureString_char inside plain]
    exact Nat.succ_pos _

theorem literal_letters (word : Literal) : ∀ ch ∈ word.text, isWord ch = true := by
  cases word <;> decide

theorem literal_front (word : Literal) {front rest : Bytes} (delimited : Delimited rest) :
    word.text <+: front ++ rest ↔ word.text <+: front := by
  apply prefix_front
  intro ch member found
  have letter := literal_letters word ch member
  rw [delimited.word ch found] at letter
  cases letter

theorem start_congr {dialect : Dialect} {value other : Bytes}
    (literals : ∀ word : Literal, word.text <+: value ↔ word.text <+: other)
    (heads : value.head? = other.head?) : start dialect value = start dialect other := by
  unfold start
  simp only [literals]
  cases value with
  | nil => rw [List.head?_eq_none_iff.mp heads.symm]
  | cons ch value =>
    obtain ⟨rest, rfl⟩ := List.head?_eq_some_iff.mp heads.symm
    rfl

theorem literal_of_start {dialect : Dialect} {value : Bytes} {word : Literal}
    (h : start dialect value = .literal word) : word.text <+: value := by
  unfold start at h
  repeat' split at h
  all_goals cases h
  all_goals assumption

theorem parse_case_frames (ops : DoubleOps D)
    {array object : Item D → Parser ParseStop Byte (Item D)}
    (arrays : ∀ item, Frames near (fun _ => True) (array item))
    (objects : ∀ item, Frames near (fun _ => True) (object item)) (item : Item D) :
    Frames near Delimited (parse_case ops .modified array object item) := by
  intro value tree rest read delimited
  rw [parse_case_eq] at read
  have reads : ∃ front, value = front ++ rest ∧ ∀ other, near.like rest other →
      (start .modified value).run ops .modified array object item (front ++ other) =
        .ok (tree, other) := by
    obtain ⟨kind, begins⟩ : ∃ kind, start .modified value = kind := ⟨_, rfl⟩
    rw [begins] at read ⊢
    cases kind with
    | literal word =>
      cases read
      obtain ⟨behind, rfl⟩ := literal_of_start begins
      apply Exists.intro word.text
      apply And.intro (by rw [List.drop_left])
      intro other _
      rw [Start.run, List.drop_left]
    | number => exact parse_number_frames ops item read delimited
    | array => exact arrays item read trivial
    | object => exact objects item read trivial
    | string => exact parse_string_frames item read delimited
    | unknown => cases read
  obtain ⟨front, rfl, again⟩ := reads
  apply Exists.intro front
  apply And.intro rfl
  intro other like
  have delimited' : Delimited other := by
    obtain ⟨ch, head, delimits⟩ := delimited
    exact ⟨ch, like.1.symm.trans head, delimits⟩
  have same : start .modified (front ++ other) = start .modified (front ++ rest) := by
    apply start_congr
    · intro word
      rw [literal_front word delimited, literal_front word delimited']
    · exact (head_append like.1 front).symm
  rw [parse_case_eq, same]
  exact again other like

theorem parse_value_frames (ops : DoubleOps D) (fuel : Nat) (item : Item D) :
    Frames near Delimited (parse_value ops .modified fuel item) := by
  induction fuel generalizing item with
  | zero =>
    intro value tree rest read _
    cases read
  | succ fuel ih =>
    apply parse_case_frames
    · exact parse_bracketed_frames (parse_entries_frames (ih _) (by decide) _) _ _ _
    · exact parse_bracketed_frames
        (parse_entries_frames (parse_member_frames ops ih) (by decide) _) _ _ _

theorem readValue_frames (ops : DoubleOps D) (item : Item D) :
    Frames near Delimited (readValue ops item) := by
  intro value tree rest read delimited
  obtain ⟨front, split, again⟩ := parse_value_frames ops _ item read delimited
  apply Exists.intro front
  apply And.intro split
  intro other like
  exact readValue_of_parse ops _ item (again other like)

theorem readMember_frames (ops : DoubleOps D) : Frames near Delimited (readMember ops) :=
  parse_member_frames ops (readValue_frames ops)

end values

end BlmLink.Guarantees.JsonLocality
