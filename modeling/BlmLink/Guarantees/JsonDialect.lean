import BlmLink.Lib.Parsing
import BlmLink.Source.CJson

/-!
# The bare-word parser extends the original one

cJSON.c:143-207 and 282-296. The change sits in the scanner that names, values and
escapes share and in the order of `parse_value`'s tests. Whatever the parser with the
original checks returns, the changed one returns too, at every depth and with more
recursion to spend (`parse_value_extends`), so an accepted text keeps its tree and its
end (`bare_words_conservative`).
-/
namespace BlmLink.Guarantees.JsonDialect

open BlmLink.Lib.Parsing BlmLink.Source

variable {D : Type}

/-- `skip`, as a parser. -/
def blanks : Parser ParseStop Byte Unit := fun text => .ok ((), skip text)

/-- One given character. -/
def expect (ch : Byte) : Parser ParseStop Byte Unit :=
  fun text => if text.head? = some ch then .ok ((), text.tail) else .error (.failed text)

theorem expect_ok {ch : Byte} {text rest : Bytes} {value : Unit}
    (h : expect ch text = .ok (value, rest)) : text = ch :: rest := by
  unfold expect at h
  split at h
  next found =>
    obtain ⟨behind, rfl⟩ := List.head?_eq_some_iff.mp found
    cases h
    rfl
  · cases h

/-- What `parse_entries` does behind an entry. -/
def afterEntry (closing : Byte) (entries : Parser ParseStop Byte (List (Item D))) (child : Item D) :
    Parser ParseStop Byte (List (Item D)) := fun value =>
  if value.head? = some (chr ',') then
    entries value.tail >>= fun rest => .ok (child :: rest.1, rest.2)
  else if value.head? = some closing then .ok ([child], value.tail)
  else .error (.failed value)

theorem afterEntry_comma (closing : Byte) (entries : Parser ParseStop Byte (List (Item D)))
    (child : Item D) (value : Bytes) :
    afterEntry closing entries child (chr ',' :: value) =
      entries value >>= fun rest => .ok (child :: rest.1, rest.2) := if_pos rfl

theorem afterEntry_closing {closing : Byte} (apart : closing ≠ chr ',')
    (entries : Parser ParseStop Byte (List (Item D))) (child : Item D) (value : Bytes) :
    afterEntry closing entries child (closing :: value) = .ok ([child], value) := by
  simp [afterEntry, apart]

/-- What `parse_array` and `parse_object` do behind the opening bracket. -/
def afterBracket (type : ItemType) (closing : Byte)
    (entries : Parser ParseStop Byte (List (Item D))) (item : Item D) :
    Parser ParseStop Byte (Item D) := fun value =>
  if value.head? = some closing then .ok ({ item with type := type }, value.tail)
  else entries value >>= fun rest => .ok ({ item with type := type, child := rest.1 }, rest.2)

theorem padded_eq (entry : Parser ParseStop Byte (Item D)) :
    padded entry =
      andThen blanks fun _ => andThen entry fun child => andThen blanks fun _ => done child := rfl

theorem parse_entries_succ (closing : Byte) (entry : Parser ParseStop Byte (Item D)) (fuel : Nat) :
    parse_entries closing entry (fuel + 1) =
      andThen (padded entry) (afterEntry closing (parse_entries closing entry fuel)) := rfl

theorem parse_bracketed_eq (type : ItemType) (opening closing : Byte)
    (entries : Parser ParseStop Byte (List (Item D))) (item : Item D) :
    parse_bracketed type opening closing entries item =
      andThen (expect opening) fun _ => andThen blanks fun _ =>
        afterBracket type closing entries item := by
  funext value
  unfold parse_bracketed andThen expect
  by_cases found : value.head? = some opening
  · rw [if_neg (not_not_intro found), if_pos found]
    rfl
  · rw [if_pos found, if_neg found]
    rfl

theorem parse_member_eq (ops : DoubleOps D) (dialect : Dialect)
    (parseValue : Item D → Parser ParseStop Byte (Item D)) :
    parse_member ops dialect parseValue =
      andThen (parse_string dialect (cJSON_New_Item ops)) fun child => andThen blanks fun _ =>
        andThen (expect (chr ':')) fun _ => andThen blanks fun _ => parseValue child.named := by
  funext value
  unfold parse_member andThen expect blanks
  cases read : parse_string dialect (cJSON_New_Item ops) value with
  | error stop => rfl
  | ok result =>
    change (if _ then _ else _) = Except.bind (if _ then _ else _) _
    split <;> rfl

/-- The words `parse_value` tests for before anything else. -/
inductive Literal where
  | null | false | true
  deriving DecidableEq, Repr

def Literal.text : Literal → Bytes
  | .null => lit ['n', 'u', 'l', 'l']
  | .false => lit ['f', 'a', 'l', 's', 'e']
  | .true => lit ['t', 'r', 'u', 'e']

def Literal.fill (item : Item D) : Literal → Item D
  | .null => { item with type := .cJSON_NULL }
  | .false => { item with type := .cJSON_False }
  | .true => { item with type := .cJSON_True, valueint := 1 }

/-- What `parse_value` takes a text for. -/
inductive Start where
  | literal (word : Literal) | number | array | object | string | unknown
  deriving DecidableEq, Repr

def start (dialect : Dialect) (value : Bytes) : Start :=
  if Literal.null.text <+: value then .literal .null
  else if Literal.false.text <+: value then .literal .false
  else if Literal.true.text <+: value then .literal .true
  else
    match value with
    | [] => .unknown
    | ch :: _ =>
      if ch = chr '-' ∨ isdigit ch then .number
      else if ch = chr '[' then .array
      else if ch = chr '{' then .object
      else if ch = quote then .string
      else if dialect = .modified ∧ isalpha ch then .string
      else .unknown

def Start.run (ops : DoubleOps D) (dialect : Dialect)
    (array object : Item D → Parser ParseStop Byte (Item D)) (item : Item D) (value : Bytes) :
    Start → Except ParseStop (Item D × Bytes)
  | .literal word => .ok (word.fill item, value.drop word.text.length)
  | .number => .ok (parse_number ops item value)
  | .array => array item value
  | .object => object item value
  | .string => parse_string dialect item value
  | .unknown => .error (.failed value)

theorem parse_case_eq (ops : DoubleOps D) (dialect : Dialect)
    (array object : Item D → Parser ParseStop Byte (Item D)) (item : Item D) (value : Bytes) :
    parse_case ops dialect array object item value =
      (start dialect value).run ops dialect array object item value := by
  unfold parse_case start
  cases value with
  | nil => rfl
  | cons ch rest =>
    simp only [apply_ite (Start.run ops dialect array object item (ch :: rest))]
    rfl

section newer

variable {dialect dialect' : Dialect}

theorem parse_string_extends (newer : dialect = .modified → dialect' = .modified) (item : Item D) :
    Extends (parse_string dialect item) (parse_string dialect' item) := by
  intro str result read
  unfold parse_string at read ⊢
  split at read
  next quoted => rwa [if_pos quoted]
  next bare =>
    split at read
    · cases read
    next changed =>
      have modified : dialect = .modified := by
        cases dialect with
        | original => exact absurd rfl changed
        | modified => rfl
      rwa [if_neg bare, newer modified, if_neg (by decide)]

theorem padded_extends {entry entry' : Parser ParseStop Byte (Item D)} (h : Extends entry entry') :
    Extends (padded entry) (padded entry') := by
  rw [padded_eq, padded_eq]
  exact (Extends.refl blanks).andThen fun _ => h.andThen fun _ => Extends.refl _

theorem afterEntry_extends {entries entries' : Parser ParseStop Byte (List (Item D))}
    (h : Extends entries entries') (closing : Byte) (child : Item D) :
    Extends (afterEntry closing entries child) (afterEntry closing entries' child) := by
  intro value result read
  unfold afterEntry at read ⊢
  split at read
  next comma =>
    obtain ⟨rest, more, returned⟩ := bind_ok read
    rw [if_pos comma, h more]
    exact returned
  next other => rwa [if_neg other]

theorem parse_entries_extends {entry entry' : Parser ParseStop Byte (Item D)}
    (h : Extends entry entry') (closing : Byte) {fuel fuel' : Nat} (more : fuel ≤ fuel') :
    Extends (parse_entries closing entry fuel) (parse_entries closing entry' fuel') := by
  induction fuel generalizing fuel' with
  | zero =>
    intro value result read
    cases read
  | succ fuel ih =>
    obtain ⟨fuel', rfl⟩ : ∃ n, fuel' = n + 1 := ⟨fuel' - 1, by omega⟩
    rw [parse_entries_succ, parse_entries_succ]
    apply (padded_extends h).andThen
    exact afterEntry_extends (ih (by omega)) closing

theorem parse_bracketed_extends {entries entries' : Parser ParseStop Byte (List (Item D))}
    (h : Extends entries entries') (type : ItemType) (opening closing : Byte) (item : Item D) :
    Extends (parse_bracketed type opening closing entries item)
      (parse_bracketed type opening closing entries' item) := by
  rw [parse_bracketed_eq, parse_bracketed_eq]
  apply (Extends.refl _).andThen
  intro _
  apply (Extends.refl _).andThen
  intro _ value result read
  unfold afterBracket at read ⊢
  split at read
  next closed => rwa [if_pos closed]
  next other =>
    obtain ⟨rest, more, returned⟩ := bind_ok read
    rw [if_neg other, h more]
    exact returned

theorem parse_member_extends (newer : dialect = .modified → dialect' = .modified)
    (ops : DoubleOps D) {parseValue parseValue' : Item D → Parser ParseStop Byte (Item D)}
    (h : ∀ item, Extends (parseValue item) (parseValue' item)) :
    Extends (parse_member ops dialect parseValue) (parse_member ops dialect' parseValue') := by
  rw [parse_member_eq, parse_member_eq]
  apply (parse_string_extends newer _).andThen
  intro child
  exact (Extends.refl _).andThen fun _ => (Extends.refl _).andThen fun _ =>
    (Extends.refl _).andThen fun _ => h child.named

theorem start_newer (newer : dialect = .modified → dialect' = .modified) {value : Bytes}
    (known : start dialect value ≠ .unknown) : start dialect' value = start dialect value := by
  unfold start at known ⊢
  cases dialect' with
  | modified =>
    cases dialect with
    | modified => rfl
    | original =>
      cases value with
      | nil => rfl
      | cons ch rest => grind
  | original =>
    cases dialect with
    | modified => cases newer rfl
    | original => rfl

theorem parse_case_extends (newer : dialect = .modified → dialect' = .modified)
    (ops : DoubleOps D) {array array' object object' : Item D → Parser ParseStop Byte (Item D)}
    (arrays : ∀ item, Extends (array item) (array' item))
    (objects : ∀ item, Extends (object item) (object' item)) (item : Item D) :
    Extends (parse_case ops dialect array object item)
      (parse_case ops dialect' array' object' item) := by
  intro value result read
  rw [parse_case_eq] at read ⊢
  cases begins : start dialect value with
  | unknown =>
    rw [begins] at read
    cases read
  | _ =>
    rw [start_newer newer (by rw [begins]; nofun), begins]
    rw [begins] at read
    first
      | exact read
      | exact arrays item read
      | exact objects item read
      | exact parse_string_extends newer item read

/-- The later dialect with no less recursion to spend returns whatever the earlier one
returns. -/
theorem parse_value_extends (newer : dialect = .modified → dialect' = .modified)
    (ops : DoubleOps D) {fuel fuel' : Nat} (more : fuel ≤ fuel') (item : Item D) :
    Extends (parse_value ops dialect fuel item) (parse_value ops dialect' fuel' item) := by
  induction fuel generalizing fuel' item with
  | zero =>
    intro value result read
    cases read
  | succ fuel ih =>
    obtain ⟨fuel', rfl⟩ : ∃ n, fuel' = n + 1 := ⟨fuel' - 1, by omega⟩
    have values : ∀ item, Extends (parse_value ops dialect fuel item)
        (parse_value ops dialect' fuel' item) := ih (by omega)
    apply parse_case_extends newer ops
    · exact parse_bracketed_extends (parse_entries_extends (values _) _ (by omega)) _ _ _
    · exact parse_bracketed_extends (parse_entries_extends
        (parse_member_extends newer ops values) _ (by omega)) _ _ _

end newer

theorem cJSON_ParseWithOpts_eq (ops : DoubleOps D) (dialect : Dialect) (value : Bytes)
    (require_null_terminated : Bool) :
    cJSON_ParseWithOpts ops dialect value require_null_terminated =
      parse_value ops dialect (value.length + 1) (cJSON_New_Item ops) (skip value) >>= fun read =>
        if require_null_terminated then
          if skip read.2 = [] then .ok (read.1, []) else .error (.failed (skip read.2))
        else .ok read := by
  unfold cJSON_ParseWithOpts
  rfl

theorem bare_words_conservative (ops : DoubleOps D) (value : Bytes) (require_null_terminated : Bool)
    (tree : Item D) (ending : Bytes)
    (accepted : cJSON_ParseWithOpts ops .original value require_null_terminated =
      .ok (tree, ending)) :
    cJSON_ParseWithOpts ops .modified value require_null_terminated = .ok (tree, ending) := by
  rw [cJSON_ParseWithOpts_eq] at accepted ⊢
  obtain ⟨read, parsed, ended⟩ := bind_ok accepted
  rw [parse_value_extends (fun _ => rfl) ops (Nat.le_refl _) _ parsed]
  exact ended

/-- Whole numbers for the `double`s, exact where a number has no fraction. -/
def wholeNumbers : DoubleOps Int where
  zero := 0
  digit n d := n * 10 + d
  scaled negative n scale subscale :=
    (if negative then -n else n) * 10 ^ (scale + subscale.toInt).toNat
  toInt n := BitVec.ofInt 32 n

/-- The text `{"a":[-12,true],"b":"\n"}`. -/
def sampleText : Bytes :=
  lit ['{', '"', 'a', '"', ':', '[', '-', '1', '2', ',', 't', 'r', 'u', 'e', ']', ',', '"', 'b', '"',
    ':', '"', '\\', 'n', '"', '}']

def sampleTree : Item Int :=
  ⟨.cJSON_Object, none, 0, 0, none,
    [⟨.cJSON_Array, none, 0, 0, some (lit ['a']),
      [⟨.cJSON_Number, none, -12, -12, none, []⟩, ⟨.cJSON_True, none, 1, 0, none, []⟩]⟩,
    ⟨.cJSON_String, some (lit ['\n']), 0, 0, some (lit ['b']), []⟩]⟩

theorem bare_words_conservative_sample :
    cJSON_ParseWithOpts wholeNumbers .modified sampleText true = .ok (sampleTree, []) :=
  bare_words_conservative wholeNumbers sampleText true sampleTree [] (by rfl)

end BlmLink.Guarantees.JsonDialect
