import BlmLink.Source.HttpResponse
import BlmLink.Guarantees.WgetCompletion

/-!
# What the callback of `wget` is called with

A response arrives in pieces of any size. The parser starts over with all octets of the head
at each piece, and the pieces of the body are appended as they come, so what the callback gets
is decided by the octets of the connection and by how it ended, and not by where they were cut
(`answer_of_stream`): `outcome` computes it from these two alone.

Three outcomes deserve a word. A head of more than 2048 octets is given up, and so is one that
the end of the stream cuts off, both with an empty result. A body that ends early is handed
over like a complete one. And a `Content-Length` that is less than -1 as a `pj_int32_t` is
neither known nor unknown: the end of the stream does not end the request.
-/
namespace BlmLink.Guarantees.HttpDelivery

open BlmLink.Lib BlmLink.Source PjHttp HttpReader WgetCompletion

/-- The length that a head announces, -1 if none; `block` is the head without its last octet. -/
def announced (block : Bytes) : Int := (parseHead 0 block).content_length

/-- What the callback is called with for the octets of a connection, if it is. -/
def outcome (stream : Bytes) (ending : Ending) : Option Bytes :=
  match headEnd (stream.take bufSize) with
  | none => if ending = .open ∧ stream.length < bufSize then none else some []
  | some i =>
    let body := stream.drop (i + 1)
    let length := announced (stream.take i)
    if (0 ≤ length ∧ length ≤ body.length) ∨ ending = .failed ∨ ending = .timeout ∨
        (ending = .eof ∧ -1 ≤ length) then some body
    else none

section head

variable {data data' : Bytes} {i : Nat}

theorem headEnd_eq_some : headEnd data = some i ↔
    (1 ≤ i ∧ i < data.length) ∧ endsHead data i = true ∧ ∀ j, 1 ≤ j → j < i → endsHead data j = false := by
  unfold headEnd
  rw [List.find?_range'_eq_some]
  simp only [List.mem_range'_1, Bool.not_eq_true']
  constructor
  · rintro ⟨ends, inside, before⟩
    exact ⟨⟨inside.1, by omega⟩, ends, before⟩
  · rintro ⟨inside, ends, before⟩
    exact ⟨ends, ⟨inside.1, by omega⟩, before⟩

/-- Whether an octet ends the head is decided by the octets up to it. -/
theorem endsHead_congr {n : Nat} (same : data.take (n + 1) = data'.take (n + 1)) {j : Nat}
    (le : j ≤ n) : endsHead data j = endsHead data' j := by
  have at_eq : ∀ k, k ≤ n → data[k]? = data'[k]? := by
    intro k le
    have octet := congrArg (·[k]?) same
    simpa [List.getElem?_take, show k < n + 1 by omega] using octet
  unfold endsHead
  rw [at_eq j le, at_eq (j - 1) (by omega), at_eq (j - 2) (by omega), at_eq (j - 3) (by omega)]

theorem headEnd_congr (same : data.take (i + 1) = data'.take (i + 1)) (found : headEnd data = some i) :
    headEnd data' = some i := by
  obtain ⟨⟨positive, inside⟩, ends, before⟩ := headEnd_eq_some.mp found
  have lengths := congrArg List.length same
  simp only [List.length_take] at lengths
  refine headEnd_eq_some.mpr ⟨⟨positive, by omega⟩, ?_, ?_⟩
  · rw [← endsHead_congr same (Nat.le_refl i), ends]
  · intro j one below
    rw [← endsHead_congr same (Nat.le_of_lt below), before j one below]

theorem headEnd_append (found : headEnd data = some i) (more : Bytes) :
    headEnd (data ++ more) = some i := by
  have inside := (headEnd_eq_some.mp found).1.2
  refine headEnd_congr ?_ found
  rw [List.take_append_of_le_length (by omega)]

theorem headEnd_take (found : headEnd data = some i) {n : Nat} (lt : i < n) :
    headEnd (data.take n) = some i := by
  refine headEnd_congr ?_ found
  rw [List.take_take, Nat.min_eq_left (by omega)]

/-- The length does not depend on the status code before. -/
theorem parseHead_content_length (status_code : Nat) (block : Bytes) :
    (parseHead status_code block).content_length = announced block := by
  have scanners : ∀ s, (parseStatusLine status_code s).2 = (parseStatusLine 0 s).2 := by
    intro s
    unfold parseStatusLine
    repeat' split
    all_goals rfl
  unfold announced parseHead
  rcases code : parseStatusLine status_code ⟨block, 0, block.length⟩ with ⟨a, b⟩
  rcases zero : parseStatusLine 0 ⟨block, 0, block.length⟩ with ⟨a', b'⟩
  have same := scanners ⟨block, 0, block.length⟩
  rw [code, zero] at same
  cases same
  cases b with
  | error stop => rfl
  | ok s => rfl

end head

section outcomes

variable {stream : Bytes} {ending : Ending} {i : Nat}

theorem outcome_headless (waiting : headEnd stream = none) (room : stream.length < bufSize) :
    outcome stream ending = if ending = .open then none else some [] := by
  have whole : stream.take bufSize = stream := List.take_of_length_le (Nat.le_of_lt room)
  simp [outcome, whole, waiting, room]

theorem outcome_too_big (waiting : headEnd stream = none) (full : stream.length = bufSize) :
    outcome stream ending = some [] := by
  have whole : stream.take bufSize = stream := List.take_of_length_le (Nat.le_of_eq full)
  simp [outcome, whole, waiting, full]

theorem outcome_body (ending : Ending) (found : headEnd stream = some i) (lt : i < bufSize) :
    outcome stream ending =
      if (0 ≤ announced (stream.take i) ∧
          announced (stream.take i) ≤ ((stream.drop (i + 1)).length : Int)) ∨
          ending = .failed ∨ ending = .timeout ∨
          (ending = .eof ∧ -1 ≤ announced (stream.take i)) then
        some (stream.drop (i + 1))
      else none := by
  simp only [outcome, headEnd_take found lt]

end outcomes

/-- No octet of a body has been read. -/
structure Blank (h : PjHttp) : Prop where
  result : h.result = []
  state : h.state ≠ .readingData
  size : h.state = .readingResponse → h.current_read_size = 0

section blank

variable {a : Answers} {h : PjHttp}

theorem blank_end (empty : h.result = []) : Blank (http_req_end_request h) :=
  ⟨empty, nofun, nofun⟩

theorem blank_fail (notify : Bool) (empty : h.result = []) : Blank (h.fail notify) := by
  cases notify with
  | true => exact ⟨empty, nofun, nofun⟩
  | false => exact blank_end empty

theorem blank_sent (empty : h.result = []) : Blank (http_on_data_sent a h) := by
  unfold http_on_data_sent http_req_start_reading
  dsimp only
  split
  · exact ⟨empty, nofun, fun _ => rfl⟩
  · exact blank_end empty

theorem blank_sending (empty : h.result = []) (sending : h.state = .sendingRequest) :
    Blank (http_req_start_sending a h).2 := by
  unfold http_req_start_sending
  split
  · split
    · exact blank_sent empty
    · exact ⟨empty, by simp [sending], by simp [sending]⟩
    · exact blank_end empty
  · exact blank_end empty

theorem blank_connect (notify : Bool) (empty : h.result = []) (connecting : h.state = .connecting) :
    Blank (PjHttp.connect a notify h).2 := by
  unfold PjHttp.connect
  split
  · exact ⟨empty, by simp [connecting], by simp [connecting]⟩
  · exact blank_fail notify empty
  · have sent : Blank (http_req_start_sending a { h with state := .sendingRequest }).2 :=
      blank_sending empty rfl
    split
    case h_1 outcome =>
      rw [outcome] at sent
      exact sent
    case h_2 outcome =>
      rw [outcome] at sent
      exact blank_fail notify sent.result

theorem blank_start (notify : Bool) (empty : h.result = []) :
    Blank (start_http_req a notify h).2 := by
  unfold start_http_req
  split
  · exact blank_fail notify empty
  · split
    · exact blank_fail notify empty
    · dsimp only
      split
      · exact blank_fail notify empty
      · split
        · exact blank_fail notify empty
        · exact blank_connect notify empty rfl

/-- A restart that did not use freed memory has begun another request, or lost it. -/
theorem restarted {response : HttpResponse} (due : Due h) (empty : h.result = [])
    (respond : response.respond = true)
    (intact : (restart_req_with_auth a response h).corrupted = false) :
    (restart_req_with_auth a response h).auth_state = .retrying ∧
    (Due (restart_req_with_auth a response h) ∨ Silent (restart_req_with_auth a response h)) ∧
    Blank (restart_req_with_auth a response h) := by
  have ended : Unanswered (http_req_end_request
      { h with headers := h.headers + response.authorization }) :=
    ⟨due.live, due.calls, due.intact⟩
  have blank : Blank (start_http_req a true (http_req_end_request
      { h with headers := h.headers + response.authorization })).2 := blank_start true empty
  simp only [restart_req_with_auth, respond, if_true] at intact ⊢
  obtain ⟨flag, after, outcome, ⟨_, rfl, due⟩ | ⟨_, _, rfl, silent⟩ | ⟨_, rfl, _⟩⟩ :=
    start_cases (a := a) true ended (.inl due.resolved)
  · rw [outcome] at blank
    simp only [outcome]
    exact ⟨trivial, .inl { due with }, ⟨blank.result, blank.state, blank.size⟩⟩
  · rw [outcome] at blank
    simp only [outcome]
    exact ⟨trivial, .inr { silent with }, ⟨blank.result, blank.state, blank.size⟩⟩
  · simp [outcome] at intact

end blank

/-- The head is not complete; before the request was sent there are no octets at all. -/
structure Before (r : HttpReader) : Prop where
  control : Due r.http ∨ Silent r.http
  blank : Blank r.http
  kept : r.pkt = r.stream
  early : r.http.state ≠ .readingResponse → r.stream = []
  headless : headEnd r.stream = none
  room : r.stream.length < bufSize
  ending : r.ending = .open

/-- The head ended at the octet `i`, and the body has not ended. -/
structure InBody (r : HttpReader) (i : Nat) : Prop where
  due : Due r.http
  state : r.http.state = .readingData
  found : headEnd r.stream = some i
  within : i < bufSize
  nothing : r.pkt = []
  result : r.http.result = r.stream.drop (i + 1)
  size : r.http.current_read_size = (r.stream.drop (i + 1)).length
  length : r.http.content_length = announced (r.stream.take i)
  waits : outcome r.stream r.ending = none

/-- The callback was called. -/
structure Over (r : HttpReader) : Prop where
  answered : Answered r.http
  agrees : r.http.calls = (outcome r.stream r.ending).toList

def Follows (r : HttpReader) : Prop := Before r ∨ (∃ i, InBody r i) ∨ Over r

section steps

variable {auth : AuthFns} {a : Answers} {h : PjHttp} {r r' : HttpReader} {stream data : Bytes}
  {i : Nat}

theorem over_cancel (unanswered : Unanswered h) {pkt : Bytes} {code : Nat} {ending : Ending}
    (agrees : outcome stream ending = some h.result) :
    Over ⟨pj_http_req_cancel h, pkt, code, stream, ending⟩ where
  answered := answered_cancel unanswered
  agrees := by simp [pj_http_req_cancel, on_complete, http_req_end_request, unanswered.calls, agrees]

theorem over_complete (unanswered : Unanswered h) {pkt : Bytes} {code : Nat} {ending : Ending}
    (agrees : outcome stream ending = some h.result) :
    Over ⟨on_complete (http_req_end_request h), pkt, code, stream, ending⟩ where
  answered := (silent_end unanswered).answered
  agrees := by simp [on_complete, http_req_end_request, unanswered.calls, agrees]

theorem ending_eof (got : Recv) : got.ending = .eof ↔ got.status = .eof := by
  cases got <;> simp [Recv.ending, Recv.status]

theorem ending_failed (got : Recv) : got.ending = .failed ↔ got.status = .failed := by
  cases got <;> simp [Recv.ending, Recv.status]

theorem ending_timeout (got : Recv) : got.ending ≠ .timeout := by
  cases got <;> simp [Recv.ending]

/-- Octets of the body, the first ones or later ones. -/
theorem body_step (got : Recv) (code : Nat) (due : Due h) (state : h.state = .readingData)
    (found : headEnd stream = some i) (within : i < bufSize)
    (result : h.result ++ data = stream.drop (i + 1)) (size : h.current_read_size = h.result.length)
    (length : h.content_length = announced (stream.take i)) :
    (∃ i, InBody ⟨readData data got.status h, [], code, stream, got.ending⟩ i) ∨
      Over ⟨readData data got.status h, [], code, stream, got.ending⟩ := by
  have sized : h.current_read_size + data.length = (stream.drop (i + 1)).length := by
    rw [size, ← List.length_append, result]
  have unanswered : Unanswered { h with
      result := h.result ++ data
      current_read_size := h.current_read_size + data.length } :=
    ⟨due.live, due.calls, due.intact⟩
  have decided := outcome_body got.ending found within
  rw [← length, ← sized, ← result] at decided
  simp only [ending_failed, ending_eof] at decided
  unfold readData
  dsimp only
  split
  case isTrue complete =>
    refine .inr (over_complete unanswered ?_)
    rw [decided, if_pos]
    rcases complete with complete | ⟨eof, unknown⟩
    · exact .inl complete
    · exact .inr (.inr (.inr ⟨eof, by omega⟩))
  case isFalse incomplete =>
    split
    case isTrue broken =>
      refine .inr (over_cancel unanswered ?_)
      rw [decided, if_pos]
      rcases broken with failed | ⟨eof, known⟩
      · exact .inr (.inl failed)
      · exact .inr (.inr (.inr ⟨eof, by omega⟩))
    case isFalse unbroken =>
      refine .inl ⟨i, { due with }, state, found, within, rfl, result, sized, length, ?_⟩
      dsimp only
      rw [decided, if_neg]
      rintro (complete | failed | timeout | ⟨eof, known⟩)
      · exact incomplete (.inl complete)
      · exact unbroken (.inl failed)
      · exact ending_timeout got timeout
      · rcases Int.lt_or_eq_of_le known with below | unknown
        · exact unbroken (.inr ⟨eof, below⟩)
        · exact incomplete (.inr ⟨eof, unknown.symm⟩)

/-- The octets that came with the head. -/
theorem rest_step (code : Nat) {response : HttpResponse} (due : Due h)
    (state : h.state = .readingData) (found : headEnd stream = some i) (within : i < bufSize)
    (empty : h.result = []) (size : h.current_read_size = 0)
    (rem : response.rem = stream.length - 1 - i)
    (announces : response.content_length = announced (stream.take i))
    (length : h.content_length = response.content_length) :
    (∃ i, InBody ⟨readRest response stream h, [], code, stream, .open⟩ i) ∨
      Over ⟨readRest response stream h, [], code, stream, .open⟩ := by
  have inside := (headEnd_eq_some.mp found).1.2
  unfold readRest
  split
  case isTrue =>
    have start : stream.length - response.rem = i + 1 := by omega
    rw [start]
    refine body_step (.got []) code due state found within ?_ ?_ (length.trans announces)
    · rw [empty, List.nil_append]
    · rw [empty, size, List.length_nil]
  case isFalse nothing =>
    have bodiless : stream.drop (i + 1) = [] := List.drop_eq_nil_of_le (by omega)
    refine .inl ⟨i, due, state, found, within, rfl, ?_, ?_, length.trans announces, ?_⟩
    · rw [bodiless]
      exact empty
    · rw [bodiless]
      exact size
    · dsimp only
      rw [outcome_body _ found within, ← announces, bodiless, if_neg]
      simp only [List.length_nil, reduceCtorEq, false_and, or_false]
      omega

/-- Octets of the body do not touch the credentials, and do not ask for another head. -/
theorem readData_keeps (data : Bytes) (status : ReadStatus) (state : h.state = .readingData) :
    (readData data status h).auth_state = h.auth_state ∧
      (readData data status h).state ≠ .readingResponse := by
  unfold readData
  dsimp only
  split
  · exact ⟨rfl, nofun⟩
  · split
    · exact ⟨rfl, nofun⟩
    · exact ⟨rfl, by simp [state]⟩

theorem readRest_keeps (response : HttpResponse) (state : h.state = .readingData) :
    (readRest response data h).auth_state = h.auth_state ∧
      (readRest response data h).state ≠ .readingResponse := by
  unfold readRest
  split
  · exact readData_keeps _ .success state
  · exact ⟨rfl, by simp [state]⟩

/-- A head that asks for no other request is followed by the body. -/
theorem first_body {response : HttpResponse} {h' : PjHttp} (due : Due h)
    (state : h.state = .readingData) (blank : h.result = []) (size : h.current_read_size = 0)
    (found : headEnd stream = some i) (within : i < bufSize)
    (rem : response.rem = stream.length - 1 - i)
    (announces : response.content_length = announced (stream.take i))
    (length : h.content_length = response.content_length)
    (reads : readRest response stream h = h') :
    (h'.auth_state = h.auth_state ∧ h'.state ≠ .readingResponse) ∧ ∀ code,
      (∃ i, InBody ⟨h', [], code, stream, .open⟩ i) ∨ Over ⟨h', [], code, stream, .open⟩ := by
  subst reads
  exact ⟨readRest_keeps response state,
    fun code => rest_step code due state found within blank size rem announces length⟩

/-- A complete head: another request with credentials begins, or the body. -/
theorem head_step {response : HttpResponse} {h' : PjHttp} (due : Due h) (blank : Blank h)
    (reading : h.state = .readingResponse) (found : headEnd stream = some i)
    (within : i < bufSize) (rem : response.rem = stream.length - 1 - i)
    (announces : response.content_length = announced (stream.take i))
    (reads : readResponse a stream .success (some response) h = h') (intact : h'.corrupted = false) :
    ((h.auth_state = .none ∧ h'.auth_state = .retrying) ∧ (Due h' ∨ Silent h') ∧ Blank h') ∨
    (¬ (h.auth_state = .none ∧ h'.auth_state = .retrying) ∧ h'.state ≠ .readingResponse ∧ ∀ code,
      (∃ i, InBody ⟨h', [], code, stream, .open⟩ i) ∨ Over ⟨h', [], code, stream, .open⟩) := by
  have parsed : Due { h with
      state := .readingData, content_length := response.content_length } :=
    { due with running := by simp }
  have size := blank.size reading
  simp only [readResponse, ne_eq, not_true_eq_false, if_false] at reads
  split at reads
  case isFalse unchallenged =>
    obtain ⟨⟨same, state⟩, follows⟩ :=
      first_body parsed rfl blank.result size found within rem announces rfl reads
    refine .inr ⟨?_, state, follows⟩
    rintro ⟨none, retrying⟩
    simp [same, none] at retrying
  case isTrue challenged =>
    cases respond : response.respond with
    | true =>
      split at reads
      case isTrue =>
        subst reads
        obtain ⟨retrying, control, blank⟩ :=
          restarted (a := a) parsed blank.result respond intact
        exact .inl ⟨⟨challenged.2.1, retrying⟩, control, blank⟩
      case isFalse fails =>
        obtain ⟨retrying, untouched⟩ := not_or.mp fails
        have intact := Bool.eq_false_iff.mpr untouched
        exact absurd (restarted (a := a) parsed blank.result respond intact).1 retrying
    | false =>
      have done : Due { h with
          state := .readingData, content_length := response.content_length
          auth_state := .done } := { parsed with }
      simp only [restart_req_with_auth, respond, Bool.false_eq_true, if_false] at reads
      rw [if_neg (by simp [due.intact])] at reads
      obtain ⟨⟨same, state⟩, follows⟩ :=
        first_body done rfl blank.result size found within rem announces rfl reads
      refine .inr ⟨?_, state, follows⟩
      rintro ⟨_, retrying⟩
      simp [same] at retrying

/-- Octets are of the head or of the body. -/
theorem received_cases {got : Recv} (taken : r.received auth got a = some r') :
    ∃ h', r' = r.returned got h' ∧
      ((r.http.state = .readingResponse ∧
        readResponse a (r.pkt ++ got.data) got.status ((r.parsed got).map (response auth)) r.http = h') ∨
      (r.http.state = .readingData ∧ readData (r.pkt ++ got.data) got.status r.http = h')) := by
  obtain ⟨h', next, returned⟩ := Option.map_eq_some_iff.mp taken
  refine ⟨h', returned.symm, ?_⟩
  simp only [PjHttp.next] at next
  split at next
  case isTrue reading => exact .inl ⟨reading.2, Option.some.inj next⟩
  case isFalse =>
    split at next
    case isTrue reading => exact .inr ⟨reading.2, Option.some.inj next⟩
    case isFalse => cases next

/-- A step that restarts nothing goes on with the connection. -/
theorem returned_same (r : HttpReader) (got : Recv) {h' : PjHttp}
    (stays : ¬ (r.http.auth_state = .none ∧ h'.auth_state = .retrying)) :
    ∃ code, r.returned got h' = ⟨h', if h'.state = .readingResponse then r.pkt ++ got.data else [],
      code, r.stream ++ got.data, got.ending⟩ := by
  simp only [returned, if_neg stays]
  exact ⟨_, rfl⟩

theorem returned_http (got : Recv) (h' : PjHttp) : (r.returned got h').http = h' := by
  unfold returned
  dsimp only
  split
  · rfl
  · rfl

theorem same_credentials {h' : PjHttp} (same : h'.auth_state = h.auth_state) :
    ¬ (h.auth_state = .none ∧ h'.auth_state = .retrying) := by
  rintro ⟨none, retrying⟩
  simp [same, none] at retrying

/-- A request given up while its head is read. -/
theorem given_up {got : Recv} (before : Before r) (due : Due r.http)
    (agrees : outcome (r.stream ++ got.data) got.ending = some []) :
    Follows (r.returned got (pj_http_req_cancel r.http)) := by
  have same : (pj_http_req_cancel r.http).auth_state = r.http.auth_state := rfl
  obtain ⟨code, returned⟩ := returned_same r got (same_credentials same)
  rw [returned]
  refine .inr (.inr (over_cancel due.toUnanswered ?_))
  rw [agrees, before.blank.result]

/-- A piece that does not complete the head. -/
theorem piece_step {data : Bytes} {h' : PjHttp} (before : Before r) (due : Due r.http)
    (fits : r.pkt.length + data.length ≤ bufSize) (reading : r.http.state = .readingResponse)
    (headless : headEnd (r.pkt ++ data) = none)
    (reads : readResponse a (r.pkt ++ data) .success none r.http = h') :
    Follows (r.returned (.got data) h') := by
  have total : r.pkt ++ data = r.stream ++ data := by rw [before.kept]
  simp only [readResponse, ne_eq, not_true_eq_false, if_false] at reads
  split at reads
  case isTrue full =>
    subst reads
    rw [total] at full headless
    exact given_up before due (outcome_too_big headless full)
  case isFalse room =>
    subst reads
    obtain ⟨code, returned⟩ := returned_same r (.got data) (same_credentials rfl)
    rw [returned, if_pos reading]
    rw [List.length_append] at room
    refine .inl ⟨.inl due, before.blank, total, fun other => absurd reading other, ?_, ?_, rfl⟩
    · exact total ▸ headless
    · show (r.stream ++ data).length < bufSize
      rw [← total, List.length_append]
      omega

/-- A piece that completes the head. -/
theorem complete_step {data : Bytes} {h' : PjHttp} (before : Before r) (due : Due r.http)
    (fits : r.pkt.length + data.length ≤ bufSize) (reading : r.http.state = .readingResponse)
    (found : headEnd (r.pkt ++ data) = some i)
    (reads : readResponse a (r.pkt ++ data) .success (some (response auth
      (parseHead r.status_code ((r.pkt ++ data).take i), (r.pkt ++ data).length - 1 - i))) r.http = h')
    (intact : h'.corrupted = false) : Follows (r.returned (.got data) h') := by
  have total : r.pkt ++ data = r.stream ++ data := by rw [before.kept]
  have within : i < bufSize := by
    have inside := (headEnd_eq_some.mp found).1.2
    rw [List.length_append] at inside
    omega
  rcases head_step due before.blank reading found within rfl
    (parseHead_content_length _ _) reads intact with
    ⟨restarts, control, blank⟩ | ⟨stays, state, follows⟩
  · simp only [returned, if_pos restarts]
    exact .inl ⟨control, blank, rfl, fun _ => rfl, rfl, Nat.two_pow_pos 11, rfl⟩
  · obtain ⟨code, returned⟩ := returned_same r (.got data) stays
    rw [returned, if_neg state]
    rw [total] at follows
    exact .inr (follows code)

/-- Before the body: the connection, the request and the pieces of the head. -/
theorem recv_before {got : Recv} (before : Before r) (due : Due r.http) (fits : r.Fits got = true)
    (taken : r.received auth got a = some r') (intact : r'.http.corrupted = false) : Follows r' := by
  obtain ⟨h', rfl, ⟨reading, reads⟩ | ⟨body, _⟩⟩ := received_cases taken
  · have closed : ∀ ending, ending ≠ Ending.open → outcome (r.stream ++ []) ending = some [] := by
      intro ending shut
      rw [List.append_nil, outcome_headless before.headless before.room, if_neg shut]
    cases got with
    | eof =>
      subst reads
      exact given_up before due (closed .eof nofun)
    | failed =>
      subst reads
      exact given_up before due (closed .failed nofun)
    | got data =>
      simp only [Fits, decide_eq_true_eq] at fits
      simp only [parsed, if_pos reading, http_response_parse, Recv.data] at reads
      cases found : headEnd (r.pkt ++ data) with
      | none =>
        rw [found] at reads
        exact piece_step before due fits.2 reading found reads
      | some i =>
        rw [found] at reads
        rw [returned_http] at intact
        exact complete_step before due fits.2 reading found reads intact
  · exact absurd body before.blank.state

/-- Octets behind the head. -/
theorem recv_body {got : Recv} (inBody : InBody r i) (taken : r.received auth got a = some r') :
    Follows r' := by
  obtain ⟨h', rfl, ⟨head, _⟩ | ⟨_, reads⟩⟩ := received_cases taken
  · rw [inBody.state] at head
    cases head
  · obtain ⟨same, state⟩ := readData_keeps (r.pkt ++ got.data) got.status inBody.state
    rw [reads] at same state
    obtain ⟨code, returned⟩ := returned_same r got (same_credentials same)
    have inside := (headEnd_eq_some.mp inBody.found).1.2
    have result : r.http.result ++ got.data = (r.stream ++ got.data).drop (i + 1) := by
      rw [List.drop_append_of_le_length (by omega), inBody.result]
    have length : r.http.content_length = announced ((r.stream ++ got.data).take i) := by
      rw [List.take_append_of_le_length (by omega), inBody.length]
    have size : r.http.current_read_size = r.http.result.length := by
      rw [inBody.size, inBody.result]
    rw [returned, if_neg state, ← reads, inBody.nothing, List.nil_append]
    exact .inr (body_step got code inBody.due inBody.state (headEnd_append inBody.found _)
      inBody.within result size length)

/-- The request was sent, or is, or failed. -/
theorem opened_follows {ok : Bool} {h' : PjHttp} (before : Before r)
    (early : r.http.state ≠ .readingResponse) (control : ok = true → Due h' ∨ Silent h')
    (blank : ok = true → Blank h') (failed : ok = false → h' = pj_http_req_cancel r.http)
    (unanswered : Unanswered r.http) : Follows (r.opened ok h') := by
  have empty := before.early early
  cases ok with
  | true =>
    refine .inl ⟨control rfl, blank rfl, empty.symm, fun _ => empty, before.headless, before.room, rfl⟩
  | false =>
    rw [failed rfl]
    refine .inr (.inr (over_cancel unanswered ?_))
    rw [before.blank.result]
    exact outcome_headless before.headless before.room

/-- Every step is one of the request. -/
theorem step_http {e : HttpReader.Event} (taken : HttpReader.step auth r e r') :
    ∃ e', PjHttp.step r.http e' r'.http := by
  unfold HttpReader.step Trace.ofOption at taken
  cases e with
  | connected ok a =>
    obtain ⟨h', next, rfl⟩ := Option.map_eq_some_iff.mp taken
    exact ⟨_, next⟩
  | sent ok a =>
    obtain ⟨h', next, rfl⟩ := Option.map_eq_some_iff.mp taken
    exact ⟨_, next⟩
  | timeout =>
    obtain ⟨h', next, rfl⟩ := Option.map_eq_some_iff.mp taken
    exact ⟨_, next⟩
  | recv got a =>
    simp only [HttpReader.next, Option.ite_none_right_eq_some] at taken
    obtain ⟨h', next, rfl⟩ := Option.map_eq_some_iff.mp taken.2
    rw [returned_http]
    exact ⟨_, next⟩

theorem before_step {e : HttpReader.Event} (before : Before r) (due : Due r.http)
    (taken : HttpReader.step auth r e r') (intact : r'.http.corrupted = false) : Follows r' := by
  unfold HttpReader.step Trace.ofOption at taken
  cases e with
  | connected ok a =>
    obtain ⟨h', next, rfl⟩ := Option.map_eq_some_iff.mp taken
    simp only [PjHttp.next, Option.ite_none_right_eq_some, Option.some.injEq] at next
    obtain ⟨⟨_, connecting⟩, rfl⟩ := next
    refine opened_follows before (by simp [connecting]) ?_ ?_ ?_ due.toUnanswered
    · rintro rfl
      have sending : Due { r.http with state := .sendingRequest } := { due with running := by simp }
      obtain ⟨_, _, sent, ⟨_, _, _, due⟩ | ⟨_, _, _, silent⟩ | ⟨_, _, silent⟩⟩ :=
        start_sending_cases (a := a) sending
      all_goals rw [if_pos rfl, sent]
      · exact .inl due
      · exact .inr silent
      · exact .inr silent
    · rintro rfl
      rw [if_pos rfl]
      exact blank_sending before.blank.result rfl
    · rintro rfl
      rfl
  | sent ok a =>
    obtain ⟨h', next, rfl⟩ := Option.map_eq_some_iff.mp taken
    simp only [PjHttp.next, Option.ite_none_right_eq_some, Option.some.injEq] at next
    obtain ⟨⟨_, sending⟩, rfl⟩ := next
    refine opened_follows before (by simp [sending]) ?_ ?_ ?_ due.toUnanswered
    · rintro rfl
      rw [if_pos rfl]
      exact (start_reading_cases due).imp And.right And.right
    · rintro rfl
      rw [if_pos rfl]
      exact blank_sent before.blank.result
    · rintro rfl
      rfl
  | recv got a =>
    simp only [HttpReader.next, Option.ite_none_right_eq_some] at taken
    exact recv_before before due taken.1 taken.2 intact
  | timeout =>
    obtain ⟨h', next, rfl⟩ := Option.map_eq_some_iff.mp taken
    simp only [PjHttp.next, Option.ite_none_right_eq_some, Option.some.injEq] at next
    obtain ⟨_, rfl⟩ := next
    refine .inr (.inr (over_cancel ⟨due.live, due.calls, due.intact⟩ ?_))
    rw [outcome_headless before.headless before.room]
    exact congrArg some before.blank.result.symm

theorem body_follows {e : HttpReader.Event} (inBody : InBody r i)
    (taken : HttpReader.step auth r e r') : Follows r' := by
  have state := inBody.state
  have due := inBody.due
  unfold HttpReader.step Trace.ofOption at taken
  cases e with
  | connected ok a => simp [HttpReader.next, PjHttp.next, state] at taken
  | sent ok a => simp [HttpReader.next, PjHttp.next, state] at taken
  | recv got a =>
    simp only [HttpReader.next, Option.ite_none_right_eq_some] at taken
    exact recv_body inBody taken.2
  | timeout =>
    obtain ⟨h', next, rfl⟩ := Option.map_eq_some_iff.mp taken
    simp only [PjHttp.next, Option.ite_none_right_eq_some, Option.some.injEq] at next
    obtain ⟨_, rfl⟩ := next
    refine .inr (.inr (over_cancel ⟨due.live, due.calls, due.intact⟩ ?_))
    rw [outcome_body _ inBody.found inBody.within, if_pos (.inr (.inr (.inl rfl))), ← inBody.result]

theorem follows_step {e : HttpReader.Event} (follows : Follows r)
    (taken : HttpReader.step auth r e r') (intact : r'.http.corrupted = false) : Follows r' := by
  obtain ⟨e', control⟩ := step_http taken
  rcases follows with before | ⟨i, inBody⟩ | done
  · rcases before.control with due | silent
    · exact before_step before due taken intact
    · exact (no_step (.inl silent) control).elim
  · exact body_follows inBody taken
  · exact (no_step (.inr done.answered) control).elim

end steps

section used

variable {a : Answers} {h h' : PjHttp}

theorem corrupted_fail (notify : Bool) (h : PjHttp) : (h.fail notify).corrupted = h.corrupted := by
  cases notify <;> rfl

theorem corrupted_sent : (http_on_data_sent a h).corrupted = h.corrupted := by
  unfold http_on_data_sent http_req_start_reading
  dsimp only
  split <;> rfl

theorem corrupted_sending : (http_req_start_sending a h).2.corrupted = h.corrupted := by
  unfold http_req_start_sending
  split
  · split
    · exact corrupted_sent
    · rfl
    · rfl
  · rfl

theorem corrupted_connect (notify : Bool) : (PjHttp.connect a notify h).2.corrupted = h.corrupted := by
  have sent : (http_req_start_sending a { h with state := .sendingRequest }).2.corrupted = h.corrupted :=
    corrupted_sending
  unfold PjHttp.connect
  split
  · rfl
  · exact corrupted_fail notify h
  · split
    case h_1 outcome =>
      rw [outcome] at sent
      exact sent
    case h_2 outcome =>
      rw [outcome] at sent
      rw [corrupted_fail]
      exact sent

theorem corrupted_start (notify : Bool) :
    (start_http_req a notify h).2.corrupted = h.corrupted := by
  unfold start_http_req
  split
  · exact corrupted_fail notify h
  · split
    · exact corrupted_fail notify h
    · dsimp only
      split
      · exact corrupted_fail notify _
      · split
        · exact corrupted_fail notify _
        · exact corrupted_connect notify

theorem corrupted_restart {response : HttpResponse} (used : h.corrupted = true) :
    (restart_req_with_auth a response h).corrupted = true := by
  unfold restart_req_with_auth
  split
  · have started : (start_http_req a true (http_req_end_request
        { h with headers := h.headers + response.authorization })).2.corrupted = true :=
      (corrupted_start true).trans used
    split
    case h_1 outcome =>
      rw [outcome] at started
      exact started
    case h_2 => rfl
  · exact used

theorem corrupted_data {data : Bytes} {status : ReadStatus} :
    (readData data status h).corrupted = h.corrupted := by
  unfold readData
  dsimp only
  split
  · rfl
  · split <;> rfl

theorem corrupted_rest {data : Bytes} {response : HttpResponse} :
    (readRest response data h).corrupted = h.corrupted := by
  unfold readRest
  split
  · exact corrupted_data
  · rfl

theorem corrupted_response {data : Bytes} {status : ReadStatus} {response : Option HttpResponse}
    (used : h.corrupted = true) : (readResponse a data status response h).corrupted = true := by
  unfold readResponse
  split
  · exact used
  · split
    · split <;> exact used
    · dsimp only
      split
      · split
        · exact corrupted_restart used
        · exact corrupted_rest.trans (corrupted_restart used)
      · exact corrupted_rest.trans used

/-- Freed memory that was used stays so. -/
theorem corrupted_step {e : PjHttp.Event} (taken : PjHttp.step h e h') (used : h.corrupted = true) :
    h'.corrupted = true := by
  unfold PjHttp.step Trace.ofOption at taken
  cases e with
  | connected ok a =>
    simp only [PjHttp.next, Option.ite_none_right_eq_some, Option.some.injEq] at taken
    obtain ⟨_, rfl⟩ := taken
    split
    · exact corrupted_sending.trans used
    · exact used
  | sent ok a =>
    simp only [PjHttp.next, Option.ite_none_right_eq_some, Option.some.injEq] at taken
    obtain ⟨_, rfl⟩ := taken
    split
    · exact corrupted_sent.trans used
    · exact used
  | read data status response a =>
    simp only [PjHttp.next] at taken
    split at taken
    · cases taken
      exact corrupted_response used
    · split at taken
      · cases taken
        exact corrupted_data.trans used
      · cases taken
  | timeout =>
    simp only [PjHttp.next, Option.ite_none_right_eq_some, Option.some.injEq] at taken
    obtain ⟨_, rfl⟩ := taken
    exact used
  | stray data =>
    simp only [PjHttp.next, Option.ite_none_right_eq_some, Option.some.injEq] at taken
    obtain ⟨_, rfl⟩ := taken
    exact used

end used

section runs

variable {auth : AuthFns} {r r' : HttpReader} {es : List HttpReader.Event}

theorem follows_start {url : Bytes} {a : Answers} {h : PjHttp} (returned : wget url a = .returned h) :
    Follows (start h) := by
  unfold wget at returned
  split at returned
  · cases returned
  · rename_i hurl _
    cases returned
    have control : Due (start_http_req a false (create hurl)).2 ∨
        Silent (start_http_req a false (create hurl)).2 :=
      (constructed_cases hurl).imp (fun begun => begun.2.2) And.right
    exact .inl ⟨control, blank_start false rfl, rfl, fun _ => rfl, rfl, Nat.two_pow_pos 11, rfl⟩

theorem follows_run (follows : Follows r) (run : Trace.Run (HttpReader.step auth) r es r')
    (intact : r'.http.corrupted = false) : Follows r' := by
  have kept : Follows r' ∨ r'.http.corrupted = true := by
    refine run.invariant (P := fun r => Follows r ∨ r.http.corrupted = true) (.inl follows) ?_
    rintro r e r' (follows | used) taken
    · cases touched : r'.http.corrupted with
      | false => exact .inl (follows_step follows taken touched)
      | true => exact .inr rfl
    · obtain ⟨_, control⟩ := step_http taken
      exact .inr (corrupted_step control used)
  rcases kept with follows | used
  · exact follows
  · exact absurd used (Bool.eq_false_iff.mp intact)

/-- The octets of the connection and its end decide whether the callback was called. -/
theorem follows_agrees (follows : Follows r) :
    r.http.calls = (outcome r.stream r.ending).toList ∧
      (r.http.live = true ↔ outcome r.stream r.ending = none) := by
  rcases follows with before | ⟨i, inBody⟩ | done
  · have waits : outcome r.stream r.ending = none := by
      rw [outcome_headless before.headless before.room, if_pos before.ending]
    rcases before.control with due | silent
    · exact ⟨by simp [due.calls, waits], by simp [due.live, waits]⟩
    · exact ⟨by simp [silent.calls, waits], by simp [silent.live, waits]⟩
  · exact ⟨by simp [inBody.due.calls, inBody.waits], by simp [inBody.due.live, inBody.waits]⟩
  · refine ⟨done.agrees, iff_of_false (by simp [done.answered.live]) ?_⟩
    intro waits
    have once := done.answered.once
    simp [done.agrees, waits] at once

/-- At any time a request has called its callback exactly if the octets of the connection and
its end decide so, and then with what they decide; unless freed memory was used. -/
theorem answer_of_stream (auth : AuthFns) {url : Bytes} {a : Answers} {h : PjHttp}
    (returned : wget url a = .returned h) {es : List HttpReader.Event} {r : HttpReader}
    (run : Trace.Run (HttpReader.step auth) (start h) es r) (intact : r.http.corrupted = false) :
    r.http.calls = (outcome r.stream r.ending).toList ∧
      (r.http.live = true ↔ outcome r.stream r.ending = none) :=
  follows_agrees (follows_run (follows_start returned) run intact)

/-- No challenge can be answered. -/
def unanswering : AuthFns := ⟨fun _ => false, fun _ => false, fun _ => 0⟩

/-- A response in three pieces, cut inside the end of its head. -/
def pieces : List HttpReader.Event :=
  [.connected true (host .address),
    .recv (.got (octets "HTTP/1.0 200 OK\r\nContent-Length: 2\r\n\r")) (host .address),
    .recv (.got (octets "\nh")) (host .address), .recv (.got (octets "i")) (host .address)]

theorem answer_of_stream_pieces :
    ∃ h r, wget (octets "http://host/") (host .address) = .returned h ∧
      Trace.Run (HttpReader.step unanswering) (start h) pieces r ∧
      r.http.corrupted = false ∧ r.http.calls = [octets "hi"] := by
  obtain ⟨h, r, returned, run, intact, stream, ending⟩ :
      ∃ h r, wget (octets "http://host/") (host .address) = .returned h ∧
        Trace.Run (HttpReader.step unanswering) (start h) pieces r ∧ r.http.corrupted = false ∧
        r.stream = octets "HTTP/1.0 200 OK\r\nContent-Length: 2\r\n\r\nhi" ∧ r.ending = .open :=
    ⟨_, _, rfl, .cons rfl (.cons rfl (.cons rfl (.cons rfl (.nil _)))), rfl, rfl, rfl⟩
  refine ⟨h, r, returned, run, intact, ?_⟩
  have decided : outcome (octets "HTTP/1.0 200 OK\r\nContent-Length: 2\r\n\r\nhi") .open =
      some (octets "hi") := by decide +kernel
  rw [(answer_of_stream unanswering returned run intact).1, stream, ending, decided]
  rfl

end runs

end BlmLink.Guarantees.HttpDelivery
