import BlmLink.Lib.Trace
import BlmLink.Source.HttpUrl

/-!
# The request of a `PjHttp`

blmcomm.cpp:52-121 and 314-316 over pjlib-util/src/pjlib-util/http_client.c:190-505, 891-1130,
1439-1490 and 1509-1656. `wget` makes a `PjHttp`, whose constructor creates a request and
starts it; both may fail, and the constructor logs what they return and goes on. The `PjHttp`
deletes itself in `on_complete`, and with it the request, its socket and its pool.

What the system, the I/O queue and the timer heap answer is left open: `Answers` has the
answers to one attempt to start a request, and later events bring their own. What
`http_response_parse` makes of the octets read is left open too, and so is whether a
challenge can be answered. A `PjHttp` sends no body, so `SENDING_REQUEST_BODY` does not
occur, and no code sets `READING_COMPLETE`. The active socket is made with `whole_data`, so a
send that succeeds has sent everything. Error codes only reach the log.

A closed socket has no more events, and a cancelled timer does not fire. Using the request
after it was freed sets `corrupted`; after that anything may be called (`stray`). `calls` and
`corrupted` are not in the code.
-/
namespace BlmLink.Source

open Lib

/-- `PJ_SUCCESS`, `PJ_EPENDING` or an error. -/
inductive Answer where
  | success
  | pending
  | failed
  deriving DecidableEq, Repr

/-- `pj_sockaddr_init` fails, succeeds with no usable address, or succeeds. -/
inductive Resolve where
  | failed
  | noAddress
  | address
  deriving DecidableEq, Repr

structure Answers where
  /-- `pj_sockaddr_init` on the host. -/
  resolve : Resolve
  /-- `pj_sock_socket`. -/
  socket : Bool
  /-- `pj_sock_bind`, at each try. -/
  bind : Nat → Bool
  /-- `pj_activesock_create`. -/
  asock : Bool
  /-- `pj_timer_heap_schedule`. -/
  schedule : Bool
  /-- `pj_activesock_start_connect`. -/
  connect : Answer
  /-- `pj_activesock_send`. -/
  send : Answer
  /-- `pj_activesock_start_read2`. -/
  startRead : Bool

/-- `enum http_state`. -/
inductive HttpState where
  | idle
  | connecting
  | sendingRequest
  | requestSent
  | readingResponse
  | readingData
  | aborting
  deriving DecidableEq, Repr

/-- `enum auth_state`. -/
inductive AuthState where
  | none
  | retrying
  | done
  deriving DecidableEq, Repr

/-- A `PjHttp` and its request. -/
structure PjHttp where
  hurl : HttpUrl
  state : HttpState
  auth_state : AuthState
  resolved : Bool
  /-- Whether there is an active socket. -/
  asock : Bool
  /-- Whether `timer_entry.id` is set: the timeout is scheduled. -/
  timer : Bool
  /-- The octets of the headers added for authentication. -/
  headers : Nat
  content_length : Int
  current_read_size : Nat
  result : Bytes
  /-- The object has not been deleted. -/
  live : Bool
  /-- What the data callback was called with, each time. -/
  calls : List Bytes
  corrupted : Bool

namespace PjHttp

/-- `BUF_SIZE`. -/
def bufSize : Nat := 2048

/-- `param.max_retries`. -/
def maxRetries : Nat := 3

/-- What `pj_http_req_create` makes of a parsed URL. -/
def create (hurl : HttpUrl) : PjHttp where
  hurl := hurl
  state := .idle
  auth_state := .none
  resolved := false
  asock := false
  timer := false
  headers := 0
  content_length := 0
  current_read_size := 0
  result := []
  live := true
  calls := []
  corrupted := false

def http_req_end_request (h : PjHttp) : PjHttp :=
  { h with asock := false, timer := false, state := .idle }

/-- `PjHttp::on_complete`. -/
def on_complete (h : PjHttp) : PjHttp := { h with calls := h.calls ++ [h.result], live := false }

/-- `pj_http_req_cancel` with notification. -/
def pj_http_req_cancel (h : PjHttp) : PjHttp :=
  on_complete (http_req_end_request { h with state := .aborting })

def http_req_start_reading (a : Answers) (h : PjHttp) : PjHttp :=
  let h := { h with state := .readingResponse, current_read_size := 0 }
  if a.startRead then h else http_req_end_request h

/-- `http_on_data_sent` when everything was sent: the answer of `http_req_start_reading` is
not looked at. -/
def http_on_data_sent (a : Answers) (h : PjHttp) : PjHttp :=
  http_req_start_reading a { h with state := .requestSent }

/-- Whether the head of the request fits the buffer. -/
def fits (h : PjHttp) : Bool := decide (h.hurl.requestHead.length + h.headers < bufSize - 1)

/-- `http_req_start_sending`, with whether it returned `PJ_SUCCESS`. -/
def http_req_start_sending (a : Answers) (h : PjHttp) : Bool × PjHttp :=
  if h.fits then
    match a.send with
    | .success => (true, http_on_data_sent a h)
    | .pending => (true, h)
    | .failed => (false, http_req_end_request h)
  else (false, http_req_end_request h)

/-- `on_return` of `start_http_req`: the request ends, and only a restarted one is reported. -/
def fail (notify_on_fail : Bool) (h : PjHttp) : PjHttp :=
  if notify_on_fail then pj_http_req_cancel h else http_req_end_request h

/-- The tries of `pj_sock_bind`. -/
def bindLoop (a : Answers) : Bool := (List.range (maxRetries + 1)).any a.bind

/-- `start_http_req` from `pj_activesock_start_connect` on. -/
def connect (a : Answers) (notify_on_fail : Bool) (h : PjHttp) : Bool × PjHttp :=
  match a.connect with
  | .pending => (true, h)
  | .failed => (false, h.fail notify_on_fail)
  | .success =>
    match http_req_start_sending a { h with state := .sendingRequest } with
    | (true, h) => (true, h)
    | (false, h) => (false, h.fail notify_on_fail)

/-- `start_http_req`, with whether it returned `PJ_SUCCESS`. When the host has no usable
address the status is still that of `pj_sockaddr_init`. -/
def start_http_req (a : Answers) (notify_on_fail : Bool) (h : PjHttp) : Bool × PjHttp :=
  if !h.resolved && decide (a.resolve = .failed) then (false, h.fail notify_on_fail)
  else if !h.resolved && decide (a.resolve = .noAddress) then (true, h.fail notify_on_fail)
  else
    let h := { h with resolved := true }
    if !a.socket || !bindLoop a || !a.asock then (false, h.fail notify_on_fail)
    else
      let h := { h with asock := true }
      if !a.schedule then (false, h.fail notify_on_fail)
      else connect a notify_on_fail { h with timer := true, state := .connecting }

/-- What `wget` leaves. -/
inductive Wget where
  /-- `pj_http_req_create` failed, and `pj_http_req_set_timeout` writes through the null
  pointer that it left. -/
  | nullRequest
  | returned (h : PjHttp)

/-- `BlmIoqueue::wget`: the constructor of `PjHttp`. -/
def wget (url : Bytes) (a : Answers) : Wget :=
  match HttpUrl.pj_http_req_parse_url url with
  | .error _ => .nullRequest
  | .ok hurl => .returned (start_http_req a false (create hurl)).2

/-- The status that comes with octets read. -/
inductive ReadStatus where
  | success
  | eof
  | failed
  deriving DecidableEq, Repr

/-- A complete header of a response. -/
structure HttpResponse where
  /-- The octets read behind the header. -/
  rem : Nat
  content_length : Int
  /-- A status 401 or 407 with a challenge. -/
  challenge : Bool
  /-- `auth_respond_basic` or `auth_respond_digest` succeeds. -/
  respond : Bool
  /-- The octets of the header that it adds. -/
  authorization : Nat

/-- `restart_req_with_auth`. If the new request cannot be started it is completed, and then
`auth_state` of a freed request is written and read. -/
def restart_req_with_auth (a : Answers) (response : HttpResponse) (h : PjHttp) : PjHttp :=
  if response.respond then
    match start_http_req a true
      (http_req_end_request { h with headers := h.headers + response.authorization }) with
    | (true, h) => { h with auth_state := .retrying }
    | (false, h) => { h with corrupted := true }
  else { h with auth_state := .done }

/-- `http_on_data_read` in the state `READING_DATA`. -/
def readData (data : Bytes) (status : ReadStatus) (h : PjHttp) : PjHttp :=
  let h := { h with
    result := h.result ++ data
    current_read_size := h.current_read_size + data.length }
  if (0 ≤ h.content_length ∧ h.content_length ≤ h.current_read_size) ∨
      (status = .eof ∧ h.content_length = -1) then
    on_complete (http_req_end_request h)
  else if status = .failed ∨ (status = .eof ∧ -1 < h.content_length) then pj_http_req_cancel h
  else h

/-- The body that came with the header. -/
def readRest (response : HttpResponse) (data : Bytes) (h : PjHttp) : PjHttp :=
  if 0 < response.rem ∨ response.content_length = 0 then
    readData (data.drop (data.length - response.rem)) .success h
  else h

/-- `http_on_data_read` in the state `READING_RESPONSE`; no response is a header that is not
complete. -/
def readResponse (a : Answers) (data : Bytes) (status : ReadStatus)
    (response : Option HttpResponse) (h : PjHttp) : PjHttp :=
  if status ≠ .success then pj_http_req_cancel h
  else
    match response with
    | none => if data.length = bufSize then pj_http_req_cancel h else h
    | some response =>
      let h := { h with state := .readingData, content_length := response.content_length }
      if response.challenge ∧ h.auth_state = .none ∧ h.hurl.username ≠ [] then
        let h := restart_req_with_auth a response h
        if h.auth_state = .retrying ∨ h.corrupted then h else readRest response data h
      else readRest response data h

inductive Event where
  /-- The connection was made, or not. -/
  | connected (ok : Bool) (a : Answers)
  /-- The request was sent, or not. -/
  | sent (ok : Bool) (a : Answers)
  | read (data : Bytes) (status : ReadStatus) (response : Option HttpResponse) (a : Answers)
  | timeout
  /-- The code goes on with what freed memory holds. -/
  | stray (data : Bytes)

def next (h : PjHttp) : Event → Option PjHttp
  | .connected ok a =>
    if h.asock ∧ h.state = .connecting then
      some (if ok then (http_req_start_sending a { h with state := .sendingRequest }).2
        else pj_http_req_cancel h)
    else none
  | .sent ok a =>
    if h.asock ∧ h.state = .sendingRequest then
      some (if ok then http_on_data_sent a h else pj_http_req_cancel h)
    else none
  | .read data status response a =>
    if h.asock ∧ h.state = .readingResponse then some (readResponse a data status response h)
    else if h.asock ∧ h.state = .readingData then some (readData data status h)
    else none
  | .timeout => if h.timer then some (pj_http_req_cancel { h with timer := false }) else none
  | .stray data => if h.corrupted then some { h with calls := h.calls ++ [data] } else none

def step : PjHttp → Event → PjHttp → Prop := Trace.ofOption next

end PjHttp

end BlmLink.Source
