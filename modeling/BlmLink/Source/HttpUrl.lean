import BlmLink.Source.Bytes

/-!
# `pj_http_req_parse_url`

pjlib-util/src/pjlib-util/http_client.c:776-882, over the scanner of scanner.c without
options, so that nothing is skipped but the blanks at the beginning. The scanner is the rest
of the text; a URL is the octets of a C string before its final zero. A thrown status leaves
the parser at once.

The password is scanned but not kept: nothing here reads it.
-/
namespace BlmLink.Source

inductive UrlError where
  /-- `-1` for the empty string. -/
  | empty
  /-- `PJ_EINVAL`: a syntax error, or no host. -/
  | einval
  /-- `PJ_ENOTSUP`: the protocol is neither HTTP nor HTTPS. -/
  | enotsup
  /-- `PJLIB_UTIL_EHTTPINURL`: no `://` after the protocol. -/
  | ehttpinurl
  /-- `PJLIB_UTIL_EHTTPINPORT`: the port is zero. -/
  | ehttpinport
  deriving DecidableEq, Repr

inductive HttpProtocol where
  | http
  | https
  deriving DecidableEq, Repr

namespace HttpProtocol

/-- `http_protocol_names`. -/
def name : HttpProtocol → String
  | .http => "HTTP"
  | .https => "HTTPS"

/-- `http_default_port`. -/
def defaultPort : HttpProtocol → Nat
  | .http => 80
  | .https => 443

end HttpProtocol

structure HttpUrl where
  protocol : HttpProtocol
  username : Bytes
  host : Bytes
  port : Nat
  path : Bytes
  deriving DecidableEq, Repr

/-- The octets of a source string. -/
def octets (s : String) : Bytes := s.toList.map chr

/-- `tolower` of the C locale. -/
def lower (c : Byte) : Byte :=
  if (chr 'A').toNat ≤ c.toNat ∧ c.toNat ≤ (chr 'Z').toNat then c + 32 else c

/-- `!pj_stricmp2(&s, name)`. -/
def sameIgnoringCase (s : Bytes) (name : String) : Bool :=
  decide (s.map lower = (octets name).map lower)

namespace HttpUrl

/-- `pj_scan_get_until_ch` and `pj_scan_get_until_chr`: the text before the first stop, and
the rest. -/
def getUntil (stops : List Char) (cur : Bytes) : Except UrlError (Bytes × Bytes) :=
  let before := fun c => decide (c ∉ stops.map chr)
  if cur = [] then .error .einval else .ok (cur.takeWhile before, cur.dropWhile before)

/-- `pj_scan_get_char`. -/
def getChar : Bytes → Except UrlError Bytes
  | [] => .error .einval
  | _ :: cur => .ok cur

/-- Whether `get_url_at_pos` finds the end of a user part: an `@` before the next slash. -/
def get_url_at_pos (str : Bytes) : Bool :=
  let skipSlash := fun (p : Bytes) => if p.head? = some (chr '/') then p.tail else p
  let p := skipSlash (skipSlash (str.dropWhile (· ≠ chr '/')))
  (p.dropWhile fun c => c ≠ chr '/' ∧ c ≠ chr '@').head? = some (chr '@')

/-- `pj_strtoul` of the digits at the beginning. -/
def strtoul (s : Bytes) : Nat :=
  (s.takeWhile fun c => 48 ≤ c.toNat ∧ c.toNat ≤ 57).foldl (fun v c => v * 10 + (c.toNat - 48)) 0

def parseProtocol (s : Bytes) : Except UrlError HttpProtocol :=
  if sameIgnoringCase s "HTTP" then .ok .http
  else if sameIgnoringCase s "HTTPS" then .ok .https
  else .error .enotsup

/-- The user name, and the rest behind the `@`. -/
def parseUser (url cur : Bytes) : Except UrlError (Bytes × Bytes) :=
  if get_url_at_pos url then do
    let (username, cur) ← getUntil [':', '@'] cur
    if cur.head? = some (chr ':') then
      let cur ← getChar cur
      let (_, cur) ← getUntil ['@'] cur
      let cur ← getChar cur
      return (username, cur)
    else
      let cur ← getChar cur
      return (username, cur)
  else .ok ([], cur)

def parsePort (protocol : HttpProtocol) (cur : Bytes) : Except UrlError (Nat × Bytes) :=
  if cur = [] ∨ cur.head? = some (chr '/') then .ok (protocol.defaultPort, cur)
  else do
    let (s, cur) ← getUntil ['/'] (cur.drop 1)
    let port := strtoul s % 2 ^ 16
    if port = 0 then .error .ehttpinport else .ok (port, cur)

def pj_http_req_parse_url (url : Bytes) : Except UrlError HttpUrl :=
  if url = [] then .error .empty
  else do
    let (s, cur) ← getUntil [':'] (url.dropWhile fun c => c = chr ' ' ∨ c = chr '\t')
    let protocol ← parseProtocol s
    if cur.length < 3 then .error .einval
    else if cur.take 3 ≠ octets "://" then .error .ehttpinurl
    else
      let (username, cur) ← parseUser url (cur.drop 3)
      let (host, cur) ← getUntil [':', '/'] cur
      if host = [] then .error .einval
      else
        let (port, cur) ← parsePort protocol cur
        .ok ⟨protocol, username, host, port, if cur = [] then octets "/" else cur⟩

/-- The start line and the `Host` header that `http_req_start_sending` writes. -/
def requestHead (hurl : HttpUrl) : Bytes :=
  octets "GET " ++ hurl.path ++ octets " " ++ octets hurl.protocol.name ++ octets "/1.0\r\nHost: " ++
    hurl.host ++ octets ":" ++ octets (toString hurl.port) ++ octets "\r\n"

end HttpUrl

end BlmLink.Source
