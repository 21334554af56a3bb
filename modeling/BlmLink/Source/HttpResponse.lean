import BlmLink.Source.PjHttp

/-!
# The response to a `PjHttp`

`http_on_data_read` and the parser of a response, pjlib-util/src/pjlib-util/http_client.c:292-478
and 609-758, over the scanner without options (scanner.c:137-190, 525-588, its
`pj_scan_is_eof` in scanner.h) and the read loop of an active socket
(pjlib/src/pj/activesock.c:440-612). `Source.PjHttp` leaves open what the parser makes of the
octets; here it is computed from what the socket returned.

A scanner has its block and two indices into it. `PJ_SCAN_IS_PROBABLY_SPACE` reads the octet at
`curptr` before it looks at the option, also behind the last one: a read whose value does not
matter is left out, one whose value does and that is outside the block is `HttpStop.outside`.
The octet before an empty value is a blank or the colon, never the `'\r'` that the parser looks
for there. `parse_auth_chal` and the answers to a challenge are the parameter `AuthFns`.

`stream` and `ending` are not in the code.
-/
namespace BlmLink.Source

open Lib

/-- What stops the parser of a response. -/
inductive HttpStop where
  /-- `PJ_EINVAL`, thrown by `on_syntax_error`. -/
  | einval
  /-- `PJ_ETOOMANY`: the table of headers is full. -/
  | etoomany
  /-- The code goes by an octet outside its block. -/
  | outside
  /-- The loop bound of the model was used up. -/
  | outOfFuel
  deriving DecidableEq, Repr

/-- `pj_scanner` without options. -/
structure Scanner where
  block : Bytes
  curptr : Nat
  /-- `end`. -/
  stop : Nat
  deriving DecidableEq, Repr

namespace Scanner

/-- The octets from `curptr` to `end`. -/
def rest (s : Scanner) : Bytes := (s.block.take s.stop).drop s.curptr

def pj_scan_is_eof (s : Scanner) : Bool := decide (s.stop ≤ s.curptr)

/-- `pj_scan_get_until_ch` and `pj_scan_get_until_chr`. -/
def getUntil (stops : List Char) (s : Scanner) : Except HttpStop (Bytes × Scanner) :=
  if s.stop ≤ s.curptr then .error .einval
  else
    let out := s.rest.takeWhile fun c => !(stops.map chr).contains c
    .ok (out, { s with curptr := s.curptr + out.length })

/-- `PJ_SCAN_IS_SPACE`. -/
def isSpace (c : Byte) : Bool := c == chr ' ' || c == chr '\t'

/-- `pj_scan_skip_whitespace`, which does not look at `end`. -/
def pj_scan_skip_whitespace (s : Scanner) : Except HttpStop Scanner :=
  let curptr := s.curptr + ((s.block.drop s.curptr).takeWhile isSpace).length
  if curptr < s.block.length then .ok { s with curptr := curptr } else .error .outside

/-- `pj_scan_advance_n` by one. -/
def advance (skip_ws : Bool) (s : Scanner) : Except HttpStop Scanner :=
  if s.stop < s.curptr + 1 then .error .einval
  else if skip_ws then pj_scan_skip_whitespace { s with curptr := s.curptr + 1 }
  else .ok { s with curptr := s.curptr + 1 }

end Scanner

/-- `pj_http_header_elmt`: a name and a value. -/
abbrev HttpHeader := Bytes × Bytes

/-- `PJ_HTTP_HEADER_SIZE`. -/
def httpHeaderSize : Nat := 32

def pj_http_headers_add_elmt (name val : Bytes) (headers : List HttpHeader) :
    Except HttpStop (List HttpHeader) :=
  if httpHeaderSize ≤ headers.length then .error .etoomany else .ok (headers ++ [(name, val)])

/-- A text without the `'\r'` at its end. -/
def dropReturn (text : Bytes) : Bytes :=
  if text.getLast? = some (chr '\r') then text.dropLast else text

/-- One turn of the loop of `http_headers_parse`, up to the octet that ends the line. -/
def headerLine (s : Scanner) (headers : List HttpHeader) :
    Except HttpStop (Scanner × List HttpHeader) := do
  let (name, s) ← s.getUntil [':', '\n']
  match s.block[s.curptr]? with
  | none => .error .outside
  | some c =>
    if c = chr ':' then
      let s ← s.advance true
      let (val, s) ← s.getUntil ['\n']
      let headers ← pj_http_headers_add_elmt name (dropReturn val) headers
      return (s, headers)
    else return (s, headers)

/-- The loop of `http_headers_parse`: the headers added, also when something was thrown, and
what it returns. -/
def headersLoop : Nat → Scanner → List HttpHeader → List HttpHeader × Except HttpStop Unit
  | 0, _, headers => (headers, .error .outOfFuel)
  | fuel + 1, s, headers =>
    match headerLine s headers with
    | .error stop => (headers, .error stop)
    | .ok (s, headers) =>
      match s.advance true with
      | .error stop => (headers, .error stop)
      | .ok s => if s.pj_scan_is_eof then (headers, .ok ()) else headersLoop fuel s headers

/-- `http_headers_parse` of an empty table. -/
def http_headers_parse (s : Scanner) : List HttpHeader × Except HttpStop Unit :=
  headersLoop (s.stop + 1) s []

/-- The status line: `status_code`, which had a value before, and the scanner behind the
line. -/
def parseStatusLine (status_code : Nat) (s : Scanner) : Nat × Except HttpStop Scanner :=
  match s.getUntil [' '] with
  | .error stop => (status_code, .error stop)
  | .ok (_, s) =>
    match s.advance false with
    | .error stop => (status_code, .error stop)
    | .ok s =>
      match s.getUntil [' '] with
      | .error stop => (status_code, .error stop)
      | .ok (word, s) => (HttpUrl.strtoul word % 2 ^ 16, do
          let s ← s.advance false
          let (_, s) ← s.getUntil ['\n']
          return s)

/-- The length of the first `Content-Length` header, a `pj_int32_t`. Zero is taken only from
the text `0`. -/
def contentLength (headers : List HttpHeader) : Int :=
  match headers.find? fun header => sameIgnoringCase header.1 "Content-Length" with
  | none => -1
  | some (_, val) =>
    let length := (BitVec.ofNat 32 (HttpUrl.strtoul val)).toInt
    if length = 0 ∧ val ≠ octets "0" then -1 else length

/-- What `http_response_parse` stores and returns. -/
structure HttpHead where
  status_code : Nat
  headers : List HttpHeader
  content_length : Int
  status : Except HttpStop Unit

/-- `http_response_parse` behind its search for the end: `block` is the copy of the octets
before the last one of the head. The headers end before the last octet of the copy, and none
are parsed when they would be empty; without a `'\r'` their length is -1. -/
def parseHead (status_code : Nat) (block : Bytes) : HttpHead :=
  match parseStatusLine status_code ⟨block, 0, block.length⟩ with
  | (code, .error stop) => ⟨code, [], -1, .error stop⟩
  | (code, .ok s) =>
    let (headers, status) :=
      if s.curptr + 2 = block.length then ([], .ok ())
      else http_headers_parse ⟨block, s.curptr + 1, block.length - 1⟩
    ⟨code, headers, contentLength headers, status⟩

/-- Whether the octet `i` ends a pair of CRLFs or of LFs. -/
def endsHead (data : Bytes) (i : Nat) : Bool :=
  data[i]? == some (chr '\n') &&
    (data[i - 1]? == some (chr '\n') ||
      (data[i - 1]? == some (chr '\r') &&
        (decide (3 ≤ i) && data[i - 2]? == some (chr '\n') && data[i - 3]? == some (chr '\r'))))

/-- The search of `http_response_parse` for the last octet of the head. -/
def headEnd (data : Bytes) : Option Nat :=
  (List.range' 1 (data.length - 1)).find? (endsHead data)

/-- `parse_auth_chal` and the answers to a challenge, for the value of the header that has
it. -/
structure AuthFns where
  /-- `parse_auth_chal` succeeds and finds a scheme. -/
  challenge : Bytes → Bool
  /-- `auth_respond_basic` or `auth_respond_digest` succeeds. -/
  respond : Bytes → Bool
  /-- The octets of the header that it adds. -/
  authorization : Bytes → Nat

/-- The value of the first header with a challenge, if the status asks for one. -/
def challengeOf (head : HttpHead) : Option Bytes :=
  if head.status_code = 401 ∨ head.status_code = 407 then
    (head.headers.find? fun header => sameIgnoringCase header.1 "WWW-Authenticate" ||
      sameIgnoringCase header.1 "Proxy-Authenticate").map Prod.snd
  else none

/-- How reading the octets of a connection ends. -/
inductive Ending where
  | open
  | eof
  | failed
  /-- The timeout of the request. -/
  | timeout
  deriving DecidableEq, Repr

/-- A `PjHttp` with the read operation of its active socket. -/
structure HttpReader where
  http : PjHttp
  /-- `r->pkt`, up to `r->size`. -/
  pkt : Bytes
  status_code : Nat
  /-- The octets received on the connection. -/
  stream : Bytes
  ending : Ending

namespace HttpReader

open PjHttp

def start (h : PjHttp) : HttpReader := ⟨h, [], 0, [], .open⟩

/-- `http_response_parse`; none is `PJLIB_UTIL_EHTTPINCHDR`. -/
def http_response_parse (status_code : Nat) (data : Bytes) : Option (HttpHead × Nat) :=
  (headEnd data).map fun i => (parseHead status_code (data.take i), data.length - 1 - i)

/-- What `http_on_data_read` goes by of a response. -/
def response (auth : AuthFns) (head : HttpHead × Nat) : HttpResponse where
  rem := head.2
  content_length := head.1.content_length
  challenge := (challengeOf head.1).any auth.challenge
  respond := (challengeOf head.1).any auth.respond
  authorization := ((challengeOf head.1).map auth.authorization).getD 0

/-- What `pj_ioqueue_recv` returned: octets, the end of the stream or an error. -/
inductive Recv where
  | got (data : Bytes)
  | eof
  | failed

def Recv.data : Recv → Bytes
  | .got data => data
  | _ => []

def Recv.status : Recv → ReadStatus
  | .got _ => .success
  | .eof => .eof
  | .failed => .failed

def Recv.ending : Recv → Ending
  | .got _ => .open
  | .eof => .eof
  | .failed => .failed

inductive Event where
  | connected (ok : Bool) (a : Answers)
  | sent (ok : Bool) (a : Answers)
  /-- `ioqueue_on_read_complete`, one turn of its loop. -/
  | recv (got : Recv) (a : Answers)
  | timeout

/-- The octets fit the room that the kept ones leave, and are some. -/
def Fits (r : HttpReader) : Recv → Bool
  | .got data => decide (data ≠ [] ∧ r.pkt.length + data.length ≤ bufSize)
  | _ => true

/-- A connection that was made, or that is over. -/
def opened (r : HttpReader) (ok : Bool) (h : PjHttp) : HttpReader :=
  { r with http := h, pkt := [], ending := if ok then .open else .failed }

/-- The parser is called with the kept octets and the new ones. -/
def parsed (r : HttpReader) (got : Recv) : Option (HttpHead × Nat) :=
  if r.http.state = .readingResponse then http_response_parse r.status_code (r.pkt ++ got.data)
  else none

/-- When `http_on_data_read` returned, the octets of an incomplete head stay in the packet, and
a request that was restarted reads another connection. -/
def returned (r : HttpReader) (got : Recv) (h : PjHttp) : HttpReader :=
  let status_code := ((r.parsed got).map fun head => head.1.status_code).getD r.status_code
  if r.http.auth_state = .none ∧ h.auth_state = .retrying then
    { start h with status_code := status_code }
  else {
    http := h
    pkt := if h.state = .readingResponse then r.pkt ++ got.data else []
    status_code := status_code
    stream := r.stream ++ got.data
    ending := got.ending }

def received (auth : AuthFns) (got : Recv) (a : Answers) (r : HttpReader) : Option HttpReader :=
  (r.http.next (.read (r.pkt ++ got.data) got.status ((r.parsed got).map (response auth)) a)).map
    (r.returned got)

def next (auth : AuthFns) (r : HttpReader) : Event → Option HttpReader
  | .connected ok a => (r.http.next (.connected ok a)).map (r.opened ok)
  | .sent ok a => (r.http.next (.sent ok a)).map (r.opened ok)
  | .recv got a => if r.Fits got then r.received auth got a else none
  | .timeout => (r.http.next .timeout).map fun h => { r with http := h, ending := .timeout }

def step (auth : AuthFns) : HttpReader → Event → HttpReader → Prop := Trace.ofOption (next auth)

end HttpReader

end BlmLink.Source
