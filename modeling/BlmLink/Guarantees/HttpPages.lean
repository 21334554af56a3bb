import BlmLink.Guarantees.HttpDelivery

/-!
# Pages

A page is a response as a server writes it: a status line, header fields and a body, lines
ended by CRLF. The parser finds the end of its head and its fields (`parse_head`), whatever
stands behind the head. So the callback of `wget` is called with the body, once, when all of a
page with its own length has been read, and not before; without a length it is called at the
end of the stream (`page_delivered`).
-/
namespace BlmLink.Guarantees.HttpPages

open BlmLink.Lib BlmLink.Source PjHttp HttpReader WgetCompletion HttpDelivery

def crlf : Bytes := [chr '\r', chr '\n']

/-- A response in its parts. -/
structure Page where
  version : Bytes
  code : Bytes
  reason : Bytes
  fields : List HttpHeader
  body : Bytes

def fieldText (field : HttpHeader) : Bytes := field.1 ++ chr ':' :: chr ' ' :: field.2

namespace Page

def statusText (p : Page) : Bytes := p.version ++ chr ' ' :: (p.code ++ chr ' ' :: p.reason)

def lines (p : Page) : List Bytes := p.statusText :: p.fields.map fieldText

/-- The head, with the empty line that ends it. -/
def head (p : Page) : Bytes := p.lines.flatMap (· ++ crlf) ++ crlf

def text (p : Page) : Bytes := p.head ++ p.body

end Page

/-- A name without a colon that does not begin with a blank, and a value that does not. -/
structure FieldFormed (field : HttpHeader) : Prop where
  name : ∀ c ∈ field.1, c ≠ chr ':' ∧ c ≠ chr '\n'
  value : ∀ c ∈ field.2, c ≠ chr '\n'
  nameStart : ∀ c ∈ field.1.head?, Scanner.isSpace c = false
  valueStart : ∀ c ∈ field.2.head?, Scanner.isSpace c = false

/-- No part has the octet that ends it, and the fields fit their table. -/
structure Formed (p : Page) : Prop where
  version : ∀ c ∈ p.version, c ≠ chr ' ' ∧ c ≠ chr '\n'
  code : ∀ c ∈ p.code, c ≠ chr ' ' ∧ c ≠ chr '\n'
  reason : ∀ c ∈ p.reason, c ≠ chr '\n'
  fields : ∀ field ∈ p.fields, FieldFormed field
  few : p.fields.length ≤ httpHeaderSize

section newlines

/-- The newlines of a text are three octets apart, and the first is not among the first two
octets. -/
structure Spaced (text : Bytes) : Prop where
  apart : ∀ j k, j < k → text[j]? = some (chr '\n') → text[k]? = some (chr '\n') → j + 3 ≤ k
  first : ∀ j, text[j]? = some (chr '\n') → 2 ≤ j

theorem Spaced.nil : Spaced [] := ⟨by simp, by simp⟩

/-- The newlines of a line and the text behind it. -/
theorem newline_line {line rest : Bytes} (clean : ∀ c ∈ line, c ≠ chr '\n') {j : Nat}
    (newline : (line ++ crlf ++ rest)[j]? = some (chr '\n')) :
    j = line.length + 1 ∨ ∃ k, j = line.length + 2 + k ∧ rest[k]? = some (chr '\n') := by
  rcases Nat.lt_trichotomy j (line.length + 1) with before | same | behind
  · exfalso
    rcases Nat.lt_or_ge j line.length with inside | at_end
    · rw [List.append_assoc, List.getElem?_append_left inside] at newline
      exact clean _ (List.mem_of_getElem? newline) rfl
    · obtain rfl : j = line.length := by omega
      simp [crlf, chr] at newline
  · exact .inl same
  · refine .inr ⟨j - (line.length + 2), by omega, ?_⟩
    have size : (line ++ crlf).length = line.length + 2 := by simp [crlf]
    rwa [List.getElem?_append_right (by omega), size] at newline

theorem Spaced.line {line rest : Bytes} (clean : ∀ c ∈ line, c ≠ chr '\n') (filled : line ≠ [])
    (spaced : Spaced rest) : Spaced (line ++ crlf ++ rest) := by
  have positive := List.length_pos_iff.mpr filled
  constructor
  · intro j k lt first second
    rcases newline_line clean first with rfl | ⟨j', rfl, before⟩
    · rcases newline_line clean second with rfl | ⟨k', rfl, behind⟩
      · omega
      · have := spaced.first k' behind
        omega
    · rcases newline_line clean second with rfl | ⟨k', rfl, behind⟩
      · omega
      · have := spaced.apart j' k' (by omega) before behind
        omega
  · intro j newline
    rcases newline_line clean newline with rfl | ⟨k, rfl, _⟩
    · omega
    · omega

theorem Spaced.lines {lines : List Bytes} (clean : ∀ line ∈ lines, line ≠ [] ∧ ∀ c ∈ line, c ≠ chr '\n') :
    Spaced (lines.flatMap (· ++ crlf)) := by
  induction lines with
  | nil => exact .nil
  | cons line lines ih =>
    rw [List.flatMap_cons]
    obtain ⟨filled, newlines⟩ := clean line List.mem_cons_self
    exact .line newlines filled (ih fun other mem => clean other (List.mem_cons_of_mem _ mem))

/-- The first empty line ends the head. -/
theorem headEnd_lines {lines : List Bytes} (some_line : lines ≠ [])
    (clean : ∀ line ∈ lines, line ≠ [] ∧ ∀ c ∈ line, c ≠ chr '\n') (rest : Bytes) :
    headEnd (lines.flatMap (· ++ crlf) ++ crlf ++ rest) =
      some ((lines.flatMap (· ++ crlf)).length + 1) := by
  have spaced := Spaced.lines clean
  obtain ⟨before, last⟩ : ∃ before, lines.flatMap (· ++ crlf) = before ++ crlf := by
    rcases List.eq_nil_or_concat lines with rfl | ⟨init, line, rfl⟩
    · exact absurd rfl some_line
    · exact ⟨init.flatMap (· ++ crlf) ++ line, by simp⟩
  have filled : 1 ≤ before.length := by
    have newline : (before ++ crlf)[before.length + 1]? = some (chr '\n') := by
      simp [crlf]
    have := spaced.first _ (last ▸ newline)
    omega
  rw [last] at spaced ⊢
  have size : (before ++ crlf).length = before.length + 2 := by simp [crlf]
  have whole : before ++ crlf ++ crlf ++ rest = before ++ (crlf ++ crlf ++ rest) := by simp
  refine headEnd_eq_some.mpr ⟨⟨by omega, by simp [crlf]; omega⟩, ?_, ?_⟩
  · have at_end : ∀ k, (before ++ crlf ++ crlf ++ rest)[before.length + k]? = (crlf ++ crlf ++ rest)[k]? := by
      intro k
      rw [whole, List.getElem?_append_right (by omega), Nat.add_sub_cancel_left]
    have back : ∀ k, k ≤ 3 → before.length + 2 + 1 - k = before.length + (3 - k) := by omega
    rw [size]
    unfold endsHead
    rw [back 1 (by omega), back 2 (by omega), back 3 (by omega), at_end, at_end, at_end]
    have last : before.length + 2 + 1 = before.length + 3 := by omega
    rw [last, at_end]
    simp [crlf]
  · intro j one below
    refine Bool.eq_false_iff.mpr fun ends => ?_
    rw [endsHead, Bool.and_eq_true, beq_iff_eq, Bool.or_eq_true, beq_iff_eq, Bool.and_eq_true,
      Bool.and_eq_true, Bool.and_eq_true, beq_iff_eq, beq_iff_eq, beq_iff_eq, decide_eq_true_eq] at ends
    obtain ⟨newline, earlier⟩ := ends
    have inside : ∀ k, k < before.length + 2 →
        (before ++ crlf ++ crlf ++ rest)[k]? = (before ++ crlf)[k]? := by
      intro k lt
      rw [List.append_assoc _ crlf rest, List.getElem?_append_left (by omega)]
    rcases Nat.lt_or_ge j (before.length + 2) with text | at_return
    · rw [inside j text] at newline
      rcases earlier with newline' | ⟨_, ⟨three, newline'⟩, _⟩
      · rw [inside _ (by omega)] at newline'
        have := spaced.apart (j - 1) j (by omega) newline' newline
        omega
      · rw [inside _ (by omega)] at newline'
        have := spaced.apart (j - 2) j (by omega) newline' newline
        omega
    · obtain rfl : j = before.length + 2 := by omega
      rw [whole, List.getElem?_append_right (by omega), Nat.add_sub_cancel_left] at newline
      simp [crlf, chr] at newline

end newlines

section scanner

open Scanner

variable {block : Bytes} {position stop : Nat}

/-- A word is scanned up to the octet that ends it. -/
theorem getUntil_at (stops : List Char) (before word behind : Bytes) (c : Byte)
    (split : block = before ++ (word ++ c :: behind)) (place : position = before.length)
    (clean : ∀ x ∈ word, x ∉ stops.map chr) (ends : c ∈ stops.map chr)
    (within : position + word.length < stop) :
    getUntil stops ⟨block, position, stop⟩ = .ok (word, ⟨block, position + word.length, stop⟩) := by
  obtain ⟨n, rfl⟩ : ∃ n, stop = position + (word.length + (n + 1)) :=
    ⟨stop - (position + word.length + 1), by omega⟩
  have rest : Scanner.rest ⟨block, position, position + (word.length + (n + 1))⟩ =
      word ++ c :: behind.take n := by
    rw [Scanner.rest, split, place, List.drop_take, List.drop_left, Nat.add_sub_cancel_left,
      List.take_length_add_append, List.take_succ_cons]
  have word_only : (word ++ c :: behind.take n).takeWhile
      (fun c => !(stops.map chr).contains c) = word := by
    rw [List.takeWhile_append_of_pos, List.takeWhile_cons_of_neg, List.append_nil]
    · simpa using ends
    · intro x mem
      simpa using clean x mem
  simp only [getUntil, rest, word_only]
  rw [if_neg (by omega)]

/-- An octet is passed, and the blanks behind it up to the first other octet. -/
theorem advance_at (before blanks behind : Bytes) (d c : Byte)
    (split : block = before ++ d :: (blanks ++ c :: behind)) (place : position = before.length)
    (blank : ∀ x ∈ blanks, isSpace x = true) (ends : isSpace c = false) (within : position < stop) :
    advance true ⟨block, position, stop⟩ = .ok ⟨block, position + 1 + blanks.length, stop⟩ := by
  have rest : block.drop (position + 1) = blanks ++ c :: behind := by
    rw [split, place, ← List.drop_drop, List.drop_left, List.drop_one, List.tail_cons]
  have skipped : (block.drop (position + 1)).takeWhile isSpace = blanks := by
    rw [rest, List.takeWhile_append_of_pos blank, List.takeWhile_cons_of_neg, List.append_nil]
    simp [ends]
  have inside : position + 1 + blanks.length < block.length := by
    have size := congrArg List.length rest
    simp only [List.length_drop, List.length_append, List.length_cons] at size
    omega
  simp only [advance, if_neg (Nat.not_lt.mpr within), if_true, pj_scan_skip_whitespace, skipped,
    if_pos inside]

/-- A field is read up to the octet that ends its line. -/
theorem headerLine_at {field : HttpHeader} (formed : FieldFormed field) (before behind : Bytes)
    (split : block = before ++ (fieldText field ++ crlf ++ behind)) (place : position = before.length)
    (within : position + (fieldText field).length + 1 < stop) {headers : List HttpHeader}
    (room : headers.length < httpHeaderSize) :
    headerLine ⟨block, position, stop⟩ headers =
      .ok (⟨block, position + (fieldText field).length + 1, stop⟩, headers ++ [field]) := by
  obtain ⟨name, value⟩ := field
  have size : (fieldText (name, value)).length = name.length + (value.length + 2) := by
    simp [fieldText]
  have scanned : getUntil [':', '\n'] ⟨block, position, stop⟩ =
      .ok (name, ⟨block, position + name.length, stop⟩) := by
    refine getUntil_at _ before name (chr ' ' :: (value ++ crlf ++ behind)) (chr ':') ?_ place ?_ ?_
      (by omega)
    · simp [split, fieldText]
    · intro x mem
      simpa using formed.name x mem
    · simp
  have colon : block[position + name.length]? = some (chr ':') := by
    rw [split, place, List.getElem?_append_right (by omega), Nat.add_sub_cancel_left]
    simp [fieldText]
  obtain ⟨c, more, text, open_⟩ : ∃ c more, value ++ crlf ++ behind = c :: more ∧ isSpace c = false := by
    cases value with
    | nil => exact ⟨chr '\r', _, rfl, by decide⟩
    | cons c value => exact ⟨c, _, rfl, formed.valueStart c rfl⟩
  have skipped : advance true ⟨block, position + name.length, stop⟩ =
      .ok ⟨block, position + name.length + 1 + 1, stop⟩ := by
    refine advance_at (before ++ name) [chr ' '] more (chr ':') c ?_ ?_ ?_ open_ (by omega)
    · rw [← text, split]
      simp [fieldText]
    · rw [place, List.length_append]
    · simp [isSpace]
  have read : getUntil ['\n'] ⟨block, position + name.length + 1 + 1, stop⟩ =
      .ok (value ++ [chr '\r'],
        ⟨block, position + name.length + 1 + 1 + (value ++ [chr '\r']).length, stop⟩) := by
    refine getUntil_at _ (before ++ name ++ [chr ':', chr ' ']) _ behind (chr '\n') ?_ ?_ ?_ ?_ ?_
    · simp [split, fieldText, crlf]
    · simp [place, Nat.add_assoc]
    · intro x mem
      rcases List.mem_append.mp mem with mem | mem
      · simpa using formed.value x mem
      · obtain rfl := List.mem_singleton.mp mem
        decide
    · simp
    · rw [List.length_append, List.length_singleton]
      omega
  have ends : position + name.length + 1 + 1 + (value ++ [chr '\r']).length =
      position + (fieldText (name, value)).length + 1 := by
    rw [List.length_append, List.length_singleton]
    omega
  have dropped : dropReturn (value ++ [chr '\r']) = value := by
    simp [dropReturn]
  have added : pj_http_headers_add_elmt name value headers = .ok (headers ++ [(name, value)]) := by
    rw [pj_http_headers_add_elmt, if_neg (Nat.not_le.mpr room)]
  rw [ends] at read
  simp [headerLine, scanned, colon, skipped, read, dropped, added, bind, Except.bind, pure, Except.pure]

/-- The text of some fields and the octet behind them begin with no blank. -/
theorem fields_open {fields : List HttpHeader} (formed : ∀ field ∈ fields, FieldFormed field) :
    ∃ c more, fields.flatMap (fun field => fieldText field ++ crlf) ++ [chr '\r'] = c :: more ∧
      isSpace c = false := by
  cases fields with
  | nil => exact ⟨chr '\r', [], rfl, by decide⟩
  | cons field fields =>
    obtain ⟨name, value⟩ := field
    cases name with
    | nil => exact ⟨chr ':', _, rfl, by decide⟩
    | cons c name => exact ⟨c, _, rfl, (formed _ List.mem_cons_self).nameStart c rfl⟩

/-- The fields are read in their order, up to the `'\r'` of the empty line. -/
theorem headersLoop_at {fields : List HttpHeader} (formed : ∀ field ∈ fields, FieldFormed field)
    (some_field : fields ≠ []) (headers : List HttpHeader)
    (room : headers.length + fields.length ≤ httpHeaderSize) {fuel : Nat} (fueled : fields.length ≤ fuel)
    (before : Bytes)
    (split : block = before ++ (fields.flatMap (fun field => fieldText field ++ crlf) ++ [chr '\r']))
    (place : position = before.length) :
    headersLoop fuel ⟨block, position, block.length - 1⟩ headers = (headers ++ fields, .ok ()) := by
  induction fields generalizing fuel headers before position with
  | nil => exact absurd rfl some_field
  | cons field fields ih =>
    obtain ⟨fuel, rfl⟩ : ∃ more, fuel = more + 1 := ⟨fuel - 1, by rw [List.length_cons] at fueled; omega⟩
    obtain ⟨formed_field, formed_rest⟩ := List.forall_mem_cons.mp formed
    rw [List.flatMap_cons] at split
    have size : block.length = position + (fieldText field).length + 2 +
        (fields.flatMap (fun field => fieldText field ++ crlf)).length + 1 := by
      rw [split, place]
      simp [crlf]
      omega
    have line : headerLine ⟨block, position, block.length - 1⟩ headers =
        .ok (⟨block, position + (fieldText field).length + 1, block.length - 1⟩,
          headers ++ [field]) := by
      refine headerLine_at formed_field before
        (fields.flatMap (fun field => fieldText field ++ crlf) ++ [chr '\r']) ?_ place (by omega) ?_
      · rw [split, List.append_assoc _ _ [chr '\r']]
      · rw [List.length_cons] at room
        omega
    obtain ⟨c, more, text, open_⟩ := fields_open formed_rest
    have passed : advance true ⟨block, position + (fieldText field).length + 1, block.length - 1⟩ =
        .ok ⟨block, position + (fieldText field).length + 1 + 1, block.length - 1⟩ := by
      refine advance_at (before ++ fieldText field ++ [chr '\r']) [] more (chr '\n') c ?_ ?_ (by simp) open_
        (by omega)
      · rw [List.nil_append, ← text, split]
        simp [crlf]
      · simp [place, Nat.add_assoc]
    simp only [headersLoop, line, passed]
    cases fields with
    | nil =>
      have at_end : block.length - 1 ≤ position + (fieldText field).length + 1 + 1 := by
        simp only [List.flatMap_nil, List.length_nil] at size
        omega
      exact if_pos (decide_eq_true at_end)
    | cons next fields =>
      have not_end : ¬ block.length - 1 ≤ position + (fieldText field).length + 1 + 1 := by
        simp only [List.flatMap_cons, List.length_append, crlf, List.length_cons, List.length_nil] at size
        omega
      rw [if_neg (by simpa [pj_scan_is_eof] using not_end)]
      rw [ih formed_rest (by simp) _ ?_ ?_ (before ++ fieldText field ++ crlf) ?_ ?_]
      · simp
      · simp only [List.length_append, List.length_cons, List.length_nil] at room ⊢
        omega
      · simpa using fueled
      · rw [split]
        simp
      · simp [place, crlf, Nat.add_assoc]

theorem length_le_fields (fields : List HttpHeader) :
    fields.length ≤ (fields.flatMap (fun field => fieldText field ++ crlf)).length := by
  induction fields with
  | nil => exact Nat.le_refl 0
  | cons field fields ih =>
    have newline : crlf.length = 2 := rfl
    rw [List.flatMap_cons, List.length_append, List.length_append, List.length_cons, newline]
    omega

/-- The status line is read up to the octet that ends it. -/
theorem statusLine_at {p : Page} (formed : Formed p) (code : Nat) (behind : Bytes)
    (split : block = p.statusText ++ crlf ++ behind) :
    parseStatusLine code ⟨block, 0, block.length⟩ =
      (HttpUrl.strtoul p.code % 2 ^ 16, .ok ⟨block, p.statusText.length + 1, block.length⟩) := by
  have size : p.statusText.length = p.version.length + 1 + p.code.length + 1 + p.reason.length := by
    simp [Page.statusText]
    omega
  have total : block.length = p.statusText.length + 2 + behind.length := by
    rw [split]
    simp [crlf]
    omega
  have version : getUntil [' '] ⟨block, 0, block.length⟩ =
      .ok (p.version, ⟨block, 0 + p.version.length, block.length⟩) := by
    refine getUntil_at _ [] p.version (p.code ++ chr ' ' :: (p.reason ++ crlf ++ behind)) (chr ' ') ?_ rfl
      ?_ (by simp) (by omega)
    · simp [split, Page.statusText]
    · intro x mem
      simpa using (formed.version x mem).1
  have word : getUntil [' '] ⟨block, 0 + p.version.length + 1, block.length⟩ =
      .ok (p.code, ⟨block, 0 + p.version.length + 1 + p.code.length, block.length⟩) := by
    refine getUntil_at _ (p.version ++ [chr ' ']) p.code (p.reason ++ crlf ++ behind) (chr ' ') ?_ ?_
      ?_ (by simp) (by omega)
    · simp [split, Page.statusText]
    · simp
    · intro x mem
      simpa using (formed.code x mem).1
  have reason : getUntil ['\n'] ⟨block, 0 + p.version.length + 1 + p.code.length + 1, block.length⟩ =
      .ok (p.reason ++ [chr '\r'], ⟨block, 0 + p.version.length + 1 + p.code.length + 1 +
        (p.reason ++ [chr '\r']).length, block.length⟩) := by
    refine getUntil_at _ (p.version ++ chr ' ' :: (p.code ++ [chr ' '])) _ behind (chr '\n') ?_ ?_ ?_
      (by simp) ?_
    · simp [split, Page.statusText, crlf]
    · simp
      omega
    · intro x mem
      rcases List.mem_append.mp mem with mem | mem
      · simpa using formed.reason x mem
      · obtain rfl := List.mem_singleton.mp mem
        decide
    · rw [List.length_append, List.length_singleton]
      omega
  have ends : 0 + p.version.length + 1 + p.code.length + 1 + (p.reason ++ [chr '\r']).length =
      p.statusText.length + 1 := by
    rw [List.length_append, List.length_singleton]
    omega
  have first : ¬ block.length < 0 + p.version.length + 1 := by omega
  have second : ¬ block.length < 0 + p.version.length + 1 + p.code.length + 1 := by omega
  rw [ends] at reason
  simp only [parseStatusLine, version, word, reason, advance, if_neg first, if_neg second,
    Bool.false_eq_true, if_false, bind, Except.bind, pure, Except.pure]

/-- The head of a page is parsed to its status and its fields. -/
theorem parse_head {p : Page} (formed : Formed p) (code : Nat) :
    parseHead code p.head.dropLast =
      ⟨HttpUrl.strtoul p.code % 2 ^ 16, p.fields, contentLength p.fields, .ok ()⟩ := by
  have head : p.head = (p.statusText ++ crlf ++
      (p.fields.flatMap (fun field => fieldText field ++ crlf) ++ [chr '\r'])) ++ [chr '\n'] := by
    simp [Page.head, Page.lines, crlf, List.flatMap_map]
  have split : p.head.dropLast = p.statusText ++ crlf ++
      (p.fields.flatMap (fun field => fieldText field ++ crlf) ++ [chr '\r']) := by
    rw [head, List.dropLast_concat]
  have size : p.head.dropLast.length = p.statusText.length + 2 +
      (p.fields.flatMap (fun field => fieldText field ++ crlf)).length + 1 := by
    rw [split, List.length_append, List.length_append, List.length_append]
    rfl
  have line := statusLine_at formed code _ split
  simp only [parseHead, line]
  by_cases bare : p.fields = []
  · rw [bare, List.flatMap_nil, List.length_nil] at size
    simp only [size, if_true, bare]
  · have long : p.statusText.length + 1 + 2 ≠ p.head.dropLast.length := by
      obtain ⟨field, fields, cons⟩ := List.exists_cons_of_ne_nil bare
      rw [size, cons]
      simp only [List.flatMap_cons, List.length_append, crlf, List.length_cons, List.length_nil]
      omega
    have fueled : p.fields.length ≤ p.head.dropLast.length - 1 + 1 := by
      have := length_le_fields p.fields
      omega
    have parsed : http_headers_parse ⟨p.head.dropLast, p.statusText.length + 1 + 1,
        p.head.dropLast.length - 1⟩ = (p.fields, .ok ()) := by
      refine headersLoop_at formed.fields bare [] ?_ fueled (p.statusText ++ crlf) split ?_
      · simpa using formed.few
      · simp [crlf]
    rw [if_neg long, parsed]

end scanner

section pages

variable {p : Page}

theorem lines_clean (formed : Formed p) :
    ∀ line ∈ p.lines, line ≠ [] ∧ ∀ c ∈ line, c ≠ chr '\n' := by
  intro line mem
  rcases List.mem_cons.mp mem with rfl | mem
  · refine ⟨by simp [Page.statusText], fun c mem => ?_⟩
    simp only [Page.statusText, List.mem_append, List.mem_cons] at mem
    rcases mem with mem | rfl | mem | rfl | mem
    · exact (formed.version c mem).2
    · decide
    · exact (formed.code c mem).2
    · decide
    · exact formed.reason c mem
  · obtain ⟨field, listed, rfl⟩ := List.mem_map.mp mem
    refine ⟨by simp [fieldText], fun c inside => ?_⟩
    simp only [fieldText, List.mem_append, List.mem_cons] at inside
    rcases inside with inside | rfl | rfl | inside
    · exact ((formed.fields field listed).name c inside).2
    · decide
    · decide
    · exact (formed.fields field listed).value c inside

theorem headEnd_page (formed : Formed p) (rest : Bytes) :
    headEnd (p.head ++ rest) = some (p.head.length - 1) := by
  have newline : crlf.length = 2 := rfl
  rw [Page.head, headEnd_lines (by simp [Page.lines]) (lines_clean formed), List.length_append, newline]
  rfl

theorem head_pos (p : Page) : 2 ≤ p.head.length := by
  have newline : crlf.length = 2 := rfl
  rw [Page.head, List.length_append, newline]
  omega

/-- Nothing is decided while the head is read. -/
theorem outcome_in_head (formed : Formed p) (fits : p.head.length ≤ bufSize) {stream : Bytes}
    (received : stream <+: p.text) (short : stream.length < p.head.length) :
    outcome stream .open = none := by
  have headless : headEnd stream = none := by
    cases found : headEnd stream with
    | none => rfl
    | some i =>
      obtain ⟨rest, text⟩ := received
      have inside := (headEnd_eq_some.mp found).1.2
      have page := headEnd_append found rest
      rw [text, Page.text, headEnd_page formed] at page
      have := Option.some.inj page
      omega
  rw [outcome_headless headless (by omega), if_pos rfl]

/-- Behind the head the length of the page decides, or the end of the stream. -/
theorem outcome_behind_head (formed : Formed p) (fits : p.head.length ≤ bufSize) (body : Bytes)
    (ending : Ending) :
    outcome (p.head ++ body) ending =
      if (0 ≤ contentLength p.fields ∧ contentLength p.fields ≤ (body.length : Int)) ∨
          ending = .failed ∨ ending = .timeout ∨ (ending = .eof ∧ -1 ≤ contentLength p.fields) then
        some body
      else none := by
  have two := head_pos p
  have behind : (p.head ++ body).drop (p.head.length - 1 + 1) = body := by
    rw [Nat.sub_add_cancel (by omega), List.drop_left]
  have block : (p.head ++ body).take (p.head.length - 1) = p.head.dropLast := by
    rw [List.take_append_of_le_length (by omega), List.dropLast_eq_take]
  rw [outcome_body ending (headEnd_page formed body) (by omega), behind, block, announced,
    parse_head formed]

theorem received_split {stream : Bytes} (received : stream <+: p.text)
    (long : p.head.length ≤ stream.length) : ∃ body, stream = p.head ++ body ∧ body <+: p.body := by
  have head : p.head <+: stream :=
    List.prefix_of_prefix_length_le (List.prefix_append p.head p.body) received long
  obtain ⟨body, rfl⟩ := head
  exact ⟨body, rfl, (List.prefix_append_right_inj p.head).mp received⟩

/-- A page is handed over when all of it has been read: with its length at once, without one
at the end of the stream; and nothing before. -/
theorem page_delivered (auth : AuthFns) {url : Bytes} {a : Answers} {h : PjHttp}
    (returned : wget url a = .returned h) {es : List HttpReader.Event} {r : HttpReader}
    (run : Trace.Run (HttpReader.step auth) (start h) es r) (intact : r.http.corrupted = false)
    (formed : Formed p) (fits : p.head.length ≤ bufSize) (received : r.stream <+: p.text) :
    (contentLength p.fields = (p.body.length : Int) → r.ending = .open →
      r.http.calls = if r.stream = p.text then [p.body] else []) ∧
    (contentLength p.fields = -1 → r.ending = .open → r.http.calls = []) ∧
    (contentLength p.fields = -1 → r.ending = .eof → r.stream = p.text → r.http.calls = [p.body]) := by
  have agrees := (follows_agrees (follows_run (follows_start returned) run intact)).1
  have whole : p.text.length = p.head.length + p.body.length := List.length_append
  rcases Nat.lt_or_ge r.stream.length p.head.length with short | long
  · have part : r.stream ≠ p.text := fun same => by rw [same] at short; omega
    have nothing : r.ending = .open → r.http.calls = [] := by
      intro open_
      rw [agrees, open_, outcome_in_head formed fits received short, Option.toList_none]
    refine ⟨fun _ open_ => ?_, fun _ open_ => nothing open_, fun _ _ same => absurd same part⟩
    rw [if_neg part, nothing open_]
  · obtain ⟨body, stream, inside⟩ := received_split received long
    rw [stream, outcome_behind_head formed fits] at agrees
    have complete : r.stream = p.text ↔ body = p.body := by
      rw [stream, Page.text, List.append_cancel_left_eq]
    refine ⟨fun length open_ => ?_, fun length open_ => ?_, fun length eof same => ?_⟩
    · rw [agrees, open_, length]
      by_cases all : body = p.body
      · rw [if_pos (complete.mpr all), if_pos (.inl ⟨by omega, by rw [all]⟩), all, Option.toList_some]
      · have fewer : body.length < p.body.length :=
          Nat.lt_of_not_le fun le => all (inside.eq_of_length_le le)
        rw [if_neg (mt complete.mp all), if_neg, Option.toList_none]
        simp only [reduceCtorEq, false_and, or_false]
        omega
    · rw [agrees, open_, length, if_neg, Option.toList_none]
      simp only [reduceCtorEq, false_and, or_false]
      omega
    · rw [agrees, eof, length, if_pos (.inr (.inr (.inr ⟨rfl, by omega⟩))), complete.mp same,
        Option.toList_some]

/-- A page of two octets. -/
def greeting : Page where
  version := octets "HTTP/1.0"
  code := octets "200"
  reason := octets "OK"
  fields := [(octets "Content-Length", octets "2")]
  body := octets "hi"

theorem greeting_formed : Formed greeting where
  version := by decide
  code := by decide
  reason := by decide
  fields := by
    intro field mem
    obtain rfl := List.mem_singleton.mp mem
    exact ⟨by decide, by decide, by decide, by decide⟩
  few := by decide

theorem page_delivered_pieces :
    ∃ h r, wget (octets "http://host/") (host .address) = .returned h ∧
      Trace.Run (HttpReader.step unanswering) (start h) pieces r ∧ r.stream = greeting.text ∧
      r.http.calls = [octets "hi"] := by
  obtain ⟨h, r, returned, run, intact, stream, ending⟩ :
      ∃ h r, wget (octets "http://host/") (host .address) = .returned h ∧
        Trace.Run (HttpReader.step unanswering) (start h) pieces r ∧ r.http.corrupted = false ∧
        r.stream = greeting.text ∧ r.ending = .open :=
    ⟨_, _, rfl, .cons rfl (.cons rfl (.cons rfl (.cons rfl (.nil _)))), rfl, rfl, rfl⟩
  have delivered := (page_delivered unanswering returned run intact greeting_formed (by decide)
    (stream ▸ List.prefix_refl _)).1 (by decide) ending
  rw [if_pos stream] at delivered
  exact ⟨h, r, returned, run, stream, delivered⟩

end pages

end BlmLink.Guarantees.HttpPages
