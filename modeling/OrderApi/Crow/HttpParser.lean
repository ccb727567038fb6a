/-
  OrderApi.Crow.HttpParser
  ────────────────────────
  **FROM BYTES TO REQUESTS** (`http_parser_execute` and `HTTPParser` in
  `include/crow_all.h`).

  A connection reads what the socket has into a buffer and feeds it to the
  parser.  The parser is a machine over single bytes with three kinds of
  exceptions: the loops over header names, header values and bodies take as many
  bytes as they can; a `goto reexecute` looks at a byte again in another state;
  and the value of `Upgrade` is judged by two bytes.  Stretches of bytes that belong
  together are held by marks into the buffer and handed to a callback when they
  end or the buffer does.

  The callbacks come back to the parser: a URL without a route makes it fail, and
  a request that has been answered clears it for the next one, in the middle of
  `http_parser_execute`.

    • `switch`    one round of the loop;
    • `execute`   `http_parser_execute` on a buffer;
    • `feed`      `HTTPParser::feed`;
    • `receive`   the buffers of a connection one after the other.

  An assertion that fails is an outcome of its own (`aborted`).
-/
import OrderApi.Crow.Http

namespace OrderApi.Crow.HttpParser

/-! ## §1. States. -/

/-- `enum state`, in its order. -/
inductive State where
  | dead
  | startReq
  | reqMethod | reqSpacesBeforeUrl
  | reqSchema | reqSchemaSlash | reqSchemaSlashSlash
  | reqServerStart | reqServer | reqServerWithAt
  | reqPath | reqQueryStringStart | reqQueryString
  | reqHttpStart | reqHttpH | reqHttpHT | reqHttpHTT | reqHttpHTTP | reqHttpI | reqHttpIC
  | reqHttpMajor | reqHttpDot | reqHttpMinor | reqHttpEnd
  | reqLineAlmostDone
  | headerFieldStart | headerField
  | headerValueDiscardWs | headerValueDiscardWsAlmostDone | headerValueDiscardLws
  | headerValueStart | headerValue | headerValueLws
  | headerAlmostDone
  | chunkSizeStart | chunkSize | chunkParameters | chunkSizeAlmostDone
  | headersAlmostDone | headersDone
  | chunkData | chunkDataAlmostDone | chunkDataDone
  | bodyIdentity
  | messageDone
  deriving DecidableEq

/-- `CROW_PARSING_HEADER`. -/
def State.parsingHeader : State → Bool
  | .chunkData | .chunkDataAlmostDone | .chunkDataDone | .bodyIdentity | .messageDone => false
  | _ => true

/-- The states in which `http_parser_execute` starts with `url_mark` at the first
    byte of the buffer. -/
def State.inUrl : State → Bool
  | .reqPath | .reqSchema | .reqSchemaSlash | .reqSchemaSlashSlash | .reqServerStart | .reqServer
  | .reqServerWithAt | .reqQueryStringStart | .reqQueryString => true
  | _ => false

/-- `enum header_states`. -/
inductive HeaderState where
  | general
  | c | co | con
  | matchingConnection | matchingProxyConnection | matchingContentLength
  | matchingTransferEncoding | matchingUpgrade
  | connection | contentLength | contentLengthNum | contentLengthWs | transferEncoding | upgrade
  | matchingTransferEncodingTokenStart | matchingTransferEncodingChunked
  | matchingTransferEncodingToken
  | matchingConnectionKeepAlive | matchingConnectionClose
  | transferEncodingChunked | connectionKeepAlive | connectionClose
  deriving DecidableEq

/-- `enum http_connection_flags`, one bit each.  `F_SKIPBODY` is never set: Crow's
    `on_headers_complete` returns 0. -/
structure Flags where
  chunked : Bool := false
  connectionKeepAlive : Bool := false
  connectionClose : Bool := false
  trailing : Bool := false
  upgrade : Bool := false
  contentLength : Bool := false
  deriving DecidableEq

/-- The `CHPE_*` codes that a request can bring about. -/
inductive Errno where
  | invalidEofState | headerOverflow | closedConnection | invalidVersion | invalidMethod
  | invalidUrl | lfExpected | invalidHeaderToken | invalidContentLength
  | unexpectedContentLength | invalidChunkSize | invalidConstant | strict
  | invalidTransferEncoding
  deriving DecidableEq

/-- `CROW_HTTP_MAX_HEADER_SIZE`. -/
def maxHeaderSize : Nat := 80 * 1024

/-- `CROW_ULLONG_MAX`. -/
def ullongMax : Nat := 2 ^ 64 - 1

/-! ## §2. Characters. -/

/-- `CROW_LOWER`. -/
def lower (c : Char) : Char := Char.ofNat (c.toNat ||| 0x20)

/-- `CROW_IS_ALPHA`. -/
def isAlpha (c : Char) : Bool := 'a' ≤ lower c && lower c ≤ 'z'

/-- `CROW_IS_NUM`. -/
def isNum (c : Char) : Bool := '0' ≤ c && c ≤ '9'

/-- The value of a decimal digit. -/
def digit (c : Char) : Nat := c.toNat - '0'.toNat

/-- `CROW_IS_MARK`. -/
def isMark (c : Char) : Bool := c ∈ ['-', '_', '.', '!', '~', '*', '\'', '(', ')']

/-- `CROW_IS_USERINFO_CHAR`. -/
def isUserinfoChar (c : Char) : Bool :=
  isAlpha c || isNum c || isMark c || c ∈ ['%', ';', ':', '&', '=', '+', '$', ',']

/-- `CROW_IS_URL_CHAR`: the bits of `normal_url_char`. -/
def isUrlChar (c : Char) : Bool := 32 < c.toNat && c.toNat < 127 && c ≠ '#' && c ≠ '?'

/-- The characters besides letters and digits that `tokens` has an entry for. -/
def tokenMarks : List Char :=
  ['!', '#', '$', '%', '&', '\'', '*', '+', '-', '.', '^', '_', '\x60', '|', '~']

/-- `CROW_TOKEN`: the entry of `tokens`, which is 0 for what is no token. -/
def token (c : Char) : Option Char :=
  if 'A' ≤ c && c ≤ 'Z' then some (lower c)
  else if ('a' ≤ c && c ≤ 'z') || isNum c || c ∈ tokenMarks then some c
  else none

/-- `CROW_IS_HEADER_CHAR`. -/
def isHeaderChar (c : Char) : Bool :=
  c = '\r' || c = '\n' || c = '\t' || (31 < c.toNat && c.toNat ≠ 127)

/-- `unhex`, with `none` for -1.  The initialiser of the table stops at 127, so the
    bytes behind read as the digit 0. -/
def unhex (c : Char) : Option Nat :=
  if isNum c then some (digit c)
  else if 'A' ≤ c && c ≤ 'F' then some (c.toNat - 'A'.toNat + 10)
  else if 'a' ≤ c && c ≤ 'f' then some (c.toNat - 'a'.toNat + 10)
  else if 127 < c.toNat then some 0
  else none

/-- `word[index]` of a string literal, with the NUL at its end. -/
def charAt (word : String) (index : Nat) : Char := word.toList.getD index '\x00'

/-! ## §3. The two parsers. -/

/-- `http_parser`.  `lenient_http_headers` and `allow_chunked_length` are 0 from
    `http_parser_init` on. -/
structure Parser where
  flags : Flags := {}
  state : State := .startReq
  headerState : HeaderState := .general
  index : Nat := 0
  usesTransferEncoding : Bool := false
  nread : Nat := 0
  contentLength : Nat := 0
  qsPoint : Nat := 0
  httpMajor : Nat := 0
  httpMinor : Nat := 0
  method : HttpMethod := .delete
  upgrade : Bool := false
  deriving DecidableEq

/-- `crow::request` while the parser fills it.  `url_params` is computed from
    `raw_url` and left to those who ask for it. -/
structure RawRequest where
  method : HttpMethod := .get
  rawUrl : List Char := []
  url : List Char := []
  headers : List (List Char × List Char) := []
  body : List Char := []
  httpMajor : Nat := 0
  httpMinor : Nat := 0
  keepAlive : Bool := false
  closeConnection : Bool := false
  upgrade : Bool := false
  deriving DecidableEq

/-- `HTTPParser`. -/
structure HTTPParser extends Parser where
  req : RawRequest := {}
  /-- `header_building_state` is 1: a name is being put together. -/
  headerBuilding : Bool := false
  messageComplete : Bool := false
  headerField : List Char := []
  headerValue : List Char := []
  deriving DecidableEq

/-- What the connection is told. -/
inductive Delivery where
  /-- `handle_url` found no route and answered. -/
  | unrouted (req : RawRequest)
  /-- `handle`. -/
  | handled (req : RawRequest)
  deriving DecidableEq

/-- `HTTPParser::clear`. -/
def HTTPParser.clear (h : HTTPParser) : HTTPParser :=
  { h with
    req := {}, headerField := [], headerValue := [], headerBuilding := false
    qsPoint := 0, messageComplete := false, state := .startReq }

/-- The value of a header, as `get_header_value` finds it: of equal names the last. -/
def RawRequest.header (req : RawRequest) (key : String) : Option (List Char) :=
  (req.headers.findRev? fun f => f.1.map Char.toLower = key.toList.map Char.toLower).map Prod.snd

/-- `Connection::handle` takes its upgrade branch, which leaves without an answer. -/
def RawRequest.takesUpgrade (req : RawRequest) : Bool :=
  req.httpMajor = 1 && req.httpMinor = 1 && (req.header "host").isSome && req.upgrade
    && !("h2".toList.isPrefixOf ((req.header "upgrade").getD []))

/-! ## §4. Running on a buffer. -/

/-- What the marks hold: the bytes from a mark up to the current one. -/
structure Marks where
  headerField : Option (List Char) := none
  headerValue : Option (List Char) := none
  url : Option (List Char) := none
  /-- How far `url_start_mark` is behind.  No callback takes it back: it stays at the
      first URL of the buffer. -/
  urlStart : Option Nat := none
  body : Option (List Char) := none
  deriving DecidableEq

/-- `p` moves on. -/
def Marks.consume (m : Marks) (cs : List Char) : Marks :=
  { m with
    headerField := m.headerField.map (· ++ cs), headerValue := m.headerValue.map (· ++ cs)
    url := m.url.map (· ++ cs), urlStart := m.urlStart.map (· + cs.length)
    body := m.body.map (· ++ cs) }

/-- The local variables of `http_parser_execute`, the parser it works on, and what
    has been delivered. -/
structure Exec where
  self : HTTPParser
  nread : Nat
  marks : Marks := {}
  deliveries : List Delivery := []
  deriving DecidableEq

/-- How a round of the loop ends. -/
inductive Step where
  /-- `break`: on with the byte behind this one, after as many more. -/
  | next (e : Exec) (more : Nat)
  /-- `return (p - data) + 1` after an upgrade. -/
  | leave (e : Exec)
  /-- `goto error`, or a return with an error. -/
  | failed (err : Errno) (deliveries : List Delivery)
  /-- An assertion does not hold. -/
  | aborted
  deriving DecidableEq

namespace Exec

/-- `break`: `p` moves behind one byte. -/
def advance (e : Exec) (ch : Char) : Step := .next { e with marks := e.marks.consume [ch] } 0

/-- Another state. -/
def goto (e : Exec) (s : State) : Exec := { e with self.state := s }

/-- `p` moves behind a byte that ends what a mark holds. -/
def pass (e : Exec) : Exec := { e with marks.urlStart := e.marks.urlStart.map (· + 1) }

/-- `CROW_SET_ERRNO` and out. -/
def fail (e : Exec) (err : Errno) : Step := .failed err e.deliveries

/-- `CROW_COUNT_HEADER_SIZE`, then the rest. -/
def counting (e : Exec) (n : Nat) (k : Exec → Step) : Step :=
  if maxHeaderSize < e.nread + n then e.fail .headerOverflow
  else k { e with nread := e.nread + n }

/-- `CROW_STRICT_CHECK(ch != c)`, then the rest. -/
def strict (e : Exec) (ch c : Char) (k : Step) : Step := if ch ≠ c then e.fail .strict else k

/-- `assert`, then the rest. -/
def assert (b : Bool) (k : Step) : Step := if b then k else .aborted

end Exec

section
variable (routed : HttpMethod → List Char → Bool) (buffer : Nat)

/-! ## §5. The callbacks. -/

/-- `on_header_field`.  A name that follows an empty value replaces the one before. -/
def onHeaderField (h : HTTPParser) (data : List Char) : HTTPParser :=
  if h.headerBuilding then { h with headerField := h.headerField ++ data }
  else if h.headerValue ≠ [] then
    { h with
      req.headers := h.req.headers ++ [(h.headerField, h.headerValue)]
      -- the value has been moved out
      headerField := data, headerValue := [], headerBuilding := true }
  else { h with headerField := data, headerBuilding := true }

/-- `on_header_value`. -/
def onHeaderValue (h : HTTPParser) (data : List Char) : HTTPParser :=
  if h.headerBuilding then { h with headerValue := data, headerBuilding := false }
  else { h with headerValue := h.headerValue ++ data }

/-- `set_connection_parameters`. -/
def setConnectionParameters (h : HTTPParser) : HTTPParser :=
  { h with
    req.httpMajor := h.httpMajor
    req.httpMinor := h.httpMinor
    req.keepAlive :=
      if h.httpMajor = 1 ∧ h.httpMinor = 0 then h.flags.connectionKeepAlive
      else decide (h.httpMajor = 1 ∧ h.httpMinor = 1)
    req.closeConnection :=
      if h.httpMajor = 1 ∧ h.httpMinor = 0 then !h.flags.connectionKeepAlive
      else if h.httpMajor = 1 ∧ h.httpMinor = 1 then h.flags.connectionClose
      else false
    req.upgrade := h.upgrade }

/-- `on_headers_complete`.  `handle_header` does not touch the parser. -/
def onHeadersComplete (h : HTTPParser) : HTTPParser :=
  setConnectionParameters
    (if h.headerField ≠ [] then
      { h with
        req.headers := h.req.headers ++ [(h.headerField, h.headerValue)]
        headerField := [], headerValue := [] }
    else h)

/-- `on_body`. -/
def onBody (h : HTTPParser) (data : List Char) : HTTPParser :=
  { h with req.body := h.req.body ++ data }

/-- `on_url`, up to `process_url`. -/
def onUrl (h : HTTPParser) (data : List Char) : HTTPParser :=
  let rawUrl := h.req.rawUrl ++ data
  { h with
    req.rawUrl := rawUrl
    req.url := if h.qsPoint ≠ 0 then rawUrl.take h.qsPoint else rawUrl }

/-- `on_message_complete`: `handle` answers, and the write clears the parser unless
    there is none. -/
def messageComplete (e : Exec) : Exec :=
  let h := { e.self with messageComplete := true }
  { e with
    self := if h.req.takesUpgrade then h else h.clear
    deliveries := e.deliveries ++ [.handled h.req] }

/-- `CROW_CALLBACK_DATA(url)`, then the rest.  A URL without a route is answered at
    once, and `done` puts the parser into an error state. -/
def flushUrl (e : Exec) (k : Exec → Step) : Step :=
  match e.marks.url with
  | none => k e
  | some data =>
      let h := onUrl e.self data
      if routed h.req.method h.req.url then k { e with self := h, marks.url := none }
      else .failed .invalidEofState (e.deliveries ++ [.unrouted h.req])

/-- `CROW_CALLBACK_DATA(header_field)`. -/
def flushHeaderField (e : Exec) : Exec :=
  match e.marks.headerField with
  | none => e
  | some data => { e with self := onHeaderField e.self data, marks.headerField := none }

/-- `CROW_CALLBACK_DATA(header_value)`. -/
def flushHeaderValue (e : Exec) : Exec :=
  match e.marks.headerValue with
  | none => e
  | some data => { e with self := onHeaderValue e.self data, marks.headerValue := none }

/-- `CROW_CALLBACK_DATA(body)`. -/
def flushBody (e : Exec) : Exec :=
  match e.marks.body with
  | none => e
  | some data => { e with self := onBody e.self data, marks.body := none }

/-- `CROW_MARK(url)` and `CROW_MARK(url_start)`. -/
def markUrl (e : Exec) : Exec :=
  { e with
    marks.url := some (e.marks.url.getD []), marks.urlStart := some (e.marks.urlStart.getD 0) }

/-- `CROW_MARK(header_field)`. -/
def markHeaderField (e : Exec) : Exec :=
  { e with marks.headerField := some (e.marks.headerField.getD []) }

/-- `CROW_MARK(header_value)`. -/
def markHeaderValue (e : Exec) : Exec :=
  { e with marks.headerValue := some (e.marks.headerValue.getD []) }

/-- `CROW_MARK(body)`. -/
def markBody (e : Exec) : Exec := { e with marks.body := some (e.marks.body.getD []) }

/-! ## §6. The request line. -/

/-- `s_start_req`: the method that a first letter stands for. -/
def firstMethod (ch : Char) : Option HttpMethod :=
  match ch with
  | 'A' => some .acl
  | 'B' => some .bind
  | 'C' => some .connect
  | 'D' => some .delete
  | 'G' => some .get
  | 'H' => some .head
  | 'L' => some .lock
  | 'M' => some .mkcol
  | 'N' => some .notify
  | 'O' => some .options
  | 'P' => some .post
  | 'R' => some .report
  | 'S' => some .subscribe
  | 'T' => some .trace
  | 'U' => some .unlock
  | _ => none

/-- `s_req_method`: the letters that turn one method into another. -/
def otherMethod (m : HttpMethod) (index : Nat) (ch : Char) : Option HttpMethod :=
  match m, index, ch with
  | .post, 1, 'U' => some .put
  | .post, 1, 'A' => some .patch
  | .post, 1, 'R' => some .propfind
  | .put, 2, 'R' => some .purge
  | .connect, 1, 'H' => some .checkout
  | .connect, 2, 'P' => some .copy
  | .mkcol, 1, 'O' => some .move
  | .mkcol, 1, 'E' => some .merge
  | .mkcol, 1, '-' => some .msearch
  | .mkcol, 2, 'A' => some .mkactivity
  | .mkcol, 3, 'A' => some .mkcalendar
  | .subscribe, 1, 'E' => some .search
  | .subscribe, 1, 'O' => some .source
  | .report, 2, 'B' => some .rebind
  | .propfind, 4, 'P' => some .proppatch
  | .lock, 1, 'I' => some .link
  | .unlock, 2, 'S' => some .unsubscribe
  | .unlock, 2, 'B' => some .unbind
  | .unlock, 3, 'I' => some .unlink
  | _, _, _ => none

/-- `s_start_req`. -/
def startReq (e : Exec) (ch : Char) : Step :=
  if ch = '\r' ∨ ch = '\n' then e.advance ch
  else if !isAlpha ch then e.fail .invalidMethod
  else
    match firstMethod ch with
    | none => e.fail .invalidMethod
    | some m =>
        { e with
          self.flags := {}, self.usesTransferEncoding := false, self.contentLength := ullongMax
          self.method := m, self.index := 1, self.state := .reqMethod : Exec }.advance ch

/-- The end of `s_req_method`: `on_method`, and on to the next letter. -/
def methodRead (e : Exec) (ch : Char) : Step :=
  { e with
    self.req.method := e.self.method, self.index := e.self.index + 1 : Exec }.advance ch

/-- `s_req_method`. -/
def reqMethod (e : Exec) (ch : Char) : Step :=
  if ch = '\x00' then e.fail .invalidMethod
  else if ch = ' ' ∧ charAt e.self.method.name e.self.index = '\x00' then
    methodRead (e.goto .reqSpacesBeforeUrl) ch
  else if ch = charAt e.self.method.name e.self.index then methodRead e ch
  else if ('A' ≤ ch && ch ≤ 'Z') || ch = '-' then
    match otherMethod e.self.method e.self.index ch with
    | some m => methodRead { e with self.method := m } ch
    | none => e.fail .invalidMethod
  else e.fail .invalidMethod

/-- `parse_url_char`. -/
def parseUrlChar (s : State) (ch : Char) : State :=
  if ch ∈ [' ', '\r', '\n', '\t', '\x0c'] then .dead
  else
    match s with
    | .reqSpacesBeforeUrl =>
        if ch = '/' ∨ ch = '*' then .reqPath
        else if isAlpha ch then .reqSchema
        else .dead
    | .reqSchema => if isAlpha ch then s else if ch = ':' then .reqSchemaSlash else .dead
    | .reqSchemaSlash => if ch = '/' then .reqSchemaSlashSlash else .dead
    | .reqSchemaSlashSlash => if ch = '/' then .reqServerStart else .dead
    | .reqServerWithAt => if ch = '@' then .dead else server ch
    | .reqServerStart => server ch
    | .reqServer => server ch
    | .reqPath =>
        if isUrlChar ch then s else if ch = '?' then .reqQueryStringStart else .dead
    | .reqQueryStringStart => query ch
    | .reqQueryString => query ch
    | _ => .dead
where
  server (ch : Char) : State :=
    if ch = '/' then .reqPath
    else if ch = '?' then .reqQueryStringStart
    else if ch = '@' then .reqServerWithAt
    else if isUserinfoChar ch || ch = '[' || ch = ']' then .reqServer
    else .dead
  query (ch : Char) : State :=
    if isUrlChar ch then .reqQueryString else if ch = '?' then .reqQueryString else .dead

/-- `p - url_start_mark`.  In a buffer that continues a URL the mark is null, and
    the difference is the address of the byte. -/
def urlOffset (m : Marks) : Nat :=
  match m.urlStart with
  | some n => n
  | none => buffer + (m.url.getD []).length

/-- A character of the URL.  `parse_url_char` stores `qs_point` where it leaves for the
    query string. -/
def urlChar (e : Exec) (ch : Char) : Step :=
  match parseUrlChar e.self.state ch with
  | .dead => e.fail .invalidUrl
  | .reqQueryStringStart =>
      { e.goto .reqQueryStringStart with
        self.qsPoint := urlOffset buffer e.marks : Exec }.advance ch
  | s => (e.goto s).advance ch

/-- `s_req_spaces_before_url`. -/
def reqSpacesBeforeUrl (e : Exec) (ch : Char) : Step :=
  if ch = ' ' then e.advance ch
  else
    let e := markUrl e
    urlChar buffer (if e.self.method = .connect then e.goto .reqServerStart else e) ch

/-- The states of a URL in which it may not end. -/
def urlPrefix (e : Exec) (ch : Char) : Step :=
  if ch ∈ [' ', '\r', '\n'] then e.fail .invalidUrl else urlChar buffer e ch

/-- The states of a URL in which it may end. -/
def urlRest (e : Exec) (ch : Char) : Step :=
  if ch = ' ' then flushUrl routed (e.goto .reqHttpStart) (·.advance ch)
  else if ch = '\r' ∨ ch = '\n' then
    -- no version: HTTP/0.9
    if e.self.method ≠ .get then e.fail .invalidVersion
    else
      flushUrl routed
        { e with
          self.httpMajor := 0, self.httpMinor := 9
          self.state := if ch = '\r' then .reqLineAlmostDone else .headerFieldStart }
        (·.advance ch)
  else urlChar buffer e ch

/-- `s_req_http_start`. -/
def reqHttpStart (e : Exec) (ch : Char) : Step :=
  if ch = ' ' then e.advance ch
  else if ch = 'H' then (e.goto .reqHttpH).advance ch
  else if ch = 'I' ∧ e.self.method = .source then (e.goto .reqHttpI).advance ch
  else e.fail .invalidConstant

/-- A letter of `HTTP/` or `ICE/`. -/
def versionLetter (c : Char) (s : State) (e : Exec) (ch : Char) : Step :=
  e.strict ch c ((e.goto s).advance ch)

/-- `s_req_http_major`. -/
def reqHttpMajor (e : Exec) (ch : Char) : Step :=
  if !isNum ch then e.fail .invalidVersion
  else { e.goto .reqHttpDot with self.httpMajor := digit ch : Exec }.advance ch

/-- `s_req_http_dot`. -/
def reqHttpDot (e : Exec) (ch : Char) : Step :=
  if ch ≠ '.' then e.fail .invalidVersion else (e.goto .reqHttpMinor).advance ch

/-- `s_req_http_minor`. -/
def reqHttpMinor (e : Exec) (ch : Char) : Step :=
  if !isNum ch then e.fail .invalidVersion
  else { e.goto .reqHttpEnd with self.httpMinor := digit ch : Exec }.advance ch

/-- `s_req_http_end`. -/
def reqHttpEnd (e : Exec) (ch : Char) : Step :=
  if ch = '\r' then (e.goto .reqLineAlmostDone).advance ch
  else if ch = '\n' then (e.goto .headerFieldStart).advance ch
  else e.fail .invalidVersion

/-- `s_req_line_almost_done`. -/
def reqLineAlmostDone (e : Exec) (ch : Char) : Step :=
  if ch ≠ '\n' then e.fail .lfExpected else (e.goto .headerFieldStart).advance ch

/-! ## §7. Headers. -/

/-- One letter further in a word that the name or value may turn out to be. -/
def matchWord (word : String) (found failed : HeaderState) (hs : HeaderState) (index : Nat)
    (c : Char) : HeaderState :=
  if word.length < index ∨ c ≠ charAt word index then failed
  else if index + 1 = word.length then found
  else hs

/-- The `switch` over a character of a name: `c` is its token, `ch` the character.
    `none` is the assertion on an unknown state. -/
def fieldChar (p : Parser) (c ch : Char) : Option Parser :=
  let index := p.index + 1
  let go (word : String) (found : HeaderState) : Option Parser :=
    some { p with index, headerState := matchWord word found .general p.headerState index c }
  match p.headerState with
  | .general => some p
  | .c => some { p with index, headerState := if c = 'o' then .co else .general }
  | .co => some { p with index, headerState := if c = 'n' then .con else .general }
  | .con =>
      some { p with
        index
        headerState :=
          if c = 'n' then .matchingConnection
          else if c = 't' then .matchingContentLength
          else .general }
  | .matchingConnection => go "connection" .connection
  | .matchingProxyConnection => go "proxy-connection" .connection
  | .matchingContentLength => go "content-length" .contentLength
  | .matchingTransferEncoding =>
      (go "transfer-encoding" .transferEncoding).map fun q =>
        { q with
          usesTransferEncoding := p.usesTransferEncoding || q.headerState = .transferEncoding }
  | .matchingUpgrade => go "upgrade" .upgrade
  | .connection | .contentLength | .transferEncoding | .upgrade =>
      some { p with headerState := if ch ≠ ' ' then .general else p.headerState }
  | _ => none

/-- The loop of `s_header_field`: the parser behind the name, and how long it is. -/
def fieldLoop (p : Parser) : List Char → Option (Parser × Nat)
  | [] => some (p, 0)
  | ch :: cs =>
      match token ch with
      | none => some (p, 0)
      | some c => do
          let p ← fieldChar p c ch
          let (p, n) ← fieldLoop p cs
          pure (p, n + 1)

/-- `s_header_field`. -/
def headerField (e : Exec) (ch : Char) (rest : List Char) : Step :=
  match fieldLoop e.self.toParser (ch :: rest) with
  | none => .aborted
  | some (p, n) =>
      let e := { e with
        self.toParser := p, marks := e.marks.consume ((ch :: rest).take n) }
      match (ch :: rest).drop n with
      -- the last byte has been counted already
      | [] => e.counting (n - 1) fun e => .next e (n - 1)
      | stop :: _ =>
          e.counting n fun e =>
            if stop = ':' then .next (flushHeaderField (e.pass.goto .headerValueDiscardWs)) n
            else e.fail .invalidHeaderToken

/-- The `switch` over the first character of a value.  `more` is what the buffer has
    behind it. -/
def valueStart (p : Parser) (ch : Char) (more : List Char) : Except Errno Parser :=
  match p.headerState with
  | .upgrade =>
      -- `F_UPGRADE` unless the value starts with h2
      let h2 := ch = 'h' && more.head? = some '2'
      .ok { p with flags.upgrade := p.flags.upgrade || !h2, headerState := .general }
  | .transferEncoding =>
      .ok { p with
        headerState :=
          if lower ch = 'c' then .matchingTransferEncodingChunked
          else .matchingTransferEncodingToken }
  | .matchingTransferEncodingTokenStart => .ok p
  | .contentLength =>
      if !isNum ch then .error .invalidContentLength
      else if p.flags.contentLength then .error .unexpectedContentLength
      else .ok { p with
        flags.contentLength := true, contentLength := digit ch, headerState := .contentLengthNum }
  | .contentLengthWs => .ok p
  | .connection =>
      .ok { p with
        headerState :=
          if lower ch = 'k' then .matchingConnectionKeepAlive
          else if lower ch = 'c' then .matchingConnectionClose
          else if lower ch = ' ' ∨ lower ch = '\t' then .connection
          else .general }
  | _ => .ok { p with headerState := .general }

/-- `s_header_value_start`. -/
def headerValueStart (e : Exec) (ch : Char) (rest : List Char) : Step :=
  let e := { markHeaderValue e with self.state := .headerValue, self.index := 0 }
  match valueStart e.self.toParser ch rest with
  | .ok p => { e with self.toParser := p : Exec }.advance ch
  | .error err => e.fail err

/-- A digit of the content length. -/
def lengthDigit (p : Parser) (ch : Char) : Except Errno Parser :=
  if ch = ' ' then .ok { p with headerState := .contentLengthWs }
  else if !isNum ch then .error .invalidContentLength
  -- a conservative limit
  else if (ullongMax - 10) / 10 < p.contentLength then .error .invalidContentLength
  else .ok { p with
    contentLength := p.contentLength * 10 + digit ch, headerState := .contentLengthNum }

/-- The `switch` over a further character of a value.  `none` is the assertion on
    states that a value cannot be in. -/
def valueChar (p : Parser) (ch : Char) : Option (Except Errno Parser) :=
  let c := lower ch
  let index := p.index + 1
  let goto (hs : HeaderState) : Option (Except Errno Parser) :=
    some (.ok { p with headerState := hs })
  let go (word : String) (found failed : HeaderState) : Option (Except Errno Parser) :=
    some (.ok { p with index, headerState := matchWord word found failed p.headerState index c })
  match p.headerState with
  | .general => some (.ok p)
  | .connection | .transferEncoding => none
  | .contentLength => if ch = ' ' then some (.ok p) else some (lengthDigit p ch)
  | .contentLengthNum => some (lengthDigit p ch)
  | .contentLengthWs =>
      if ch = ' ' then some (.ok p) else some (.error .invalidContentLength)
  | .matchingTransferEncodingTokenStart =>
      if c = 'c' then goto .matchingTransferEncodingChunked
      else if (token c).isSome then goto .matchingTransferEncodingToken
      else if c = ' ' ∨ c = '\t' then goto p.headerState
      else goto .general
  | .matchingTransferEncodingChunked =>
      go "chunked" .transferEncodingChunked .matchingTransferEncodingToken
  | .matchingTransferEncodingToken =>
      if ch = ',' then
        some (.ok { p with headerState := .matchingTransferEncodingTokenStart, index := 0 })
      else some (.ok p)
  | .matchingConnectionKeepAlive => go "keep-alive" .connectionKeepAlive .general
  | .matchingConnectionClose => go "close" .connectionClose .general
  | .transferEncodingChunked =>
      goto (if ch ≠ ' ' then .matchingTransferEncodingToken else .transferEncodingChunked)
  | .connectionKeepAlive => goto (if ch ≠ ' ' then .general else .connectionKeepAlive)
  | .connectionClose => goto (if ch ≠ ' ' then .general else .connectionClose)
  | _ => goto .general

/-- The loop of `s_header_value`: the parser behind the value or the end of the buffer,
    and how long that is. -/
def valueLoop (p : Parser) : List Char → Option (Except Errno (Parser × Nat))
  | [] => some (.ok (p, 0))
  | ch :: cs =>
      if ch = '\r' ∨ ch = '\n' then some (.ok (p, 0))
      else if !isHeaderChar ch then some (.error .invalidHeaderToken)
      else
        match valueChar p ch with
        | none => none
        | some (.error err) => some (.error err)
        | some (.ok p) =>
            (valueLoop p cs).map fun r => r.map fun (p, n) => (p, n + 1)

/-- `s_header_almost_done`. -/
def headerAlmostDone (e : Exec) (ch : Char) : Step :=
  if ch ≠ '\n' then e.fail .lfExpected else (e.goto .headerValueLws).advance ch

/-- `s_header_value`. -/
def headerValue (e : Exec) (ch : Char) (rest : List Char) : Step :=
  match valueLoop e.self.toParser (ch :: rest) with
  | none => .aborted
  | some (.error err) => e.fail err
  | some (.ok (p, n)) =>
      let e := { e with
        self.toParser := p, marks := e.marks.consume ((ch :: rest).take n) }
      match (ch :: rest).drop n with
      | [] => e.counting (n - 1) fun e => .next e (n - 1)
      | stop :: _ =>
          e.counting n fun e =>
            let e := flushHeaderValue (e.pass.goto .headerAlmostDone)
            if stop = '\r' then .next e n
            -- `goto reexecute` on the line feed
            else .next (e.goto .headerValueLws) n

/-- `s_headers_done`. -/
def headersDone (e : Exec) (ch : Char) : Step :=
  e.strict ch '\n' <|
    let e := { e with self.nread := 0, nread := 0 }
    if e.self.upgrade then .leave (messageComplete e)
    else if e.self.flags.chunked then (e.goto .chunkSizeStart).advance ch
    else if e.self.usesTransferEncoding then e.fail .invalidTransferEncoding
    else if e.self.contentLength = 0 ∨ e.self.contentLength = ullongMax then
      (messageComplete e).advance ch
    else (e.goto .bodyIdentity).advance ch

/-- `s_headers_almost_done`. -/
def headersAlmostDone (e : Exec) (ch : Char) : Step :=
  e.strict ch '\n' <|
    -- the end of a chunked request
    if e.self.flags.trailing then (messageComplete e).advance ch
    else if e.self.usesTransferEncoding && e.self.flags.contentLength then
      e.fail .unexpectedContentLength
    else
      let upgrade := e.self.flags.upgrade || e.self.method = .connect
      let h := onHeadersComplete { e.self with state := .headersDone, upgrade := upgrade }
      headersDone { e with self := h } ch

/-- `s_header_field_start`: what the first letter of a name may lead to. -/
def firstHeaderState (c : Char) : HeaderState :=
  if c = 'c' then .c
  else if c = 'p' then .matchingProxyConnection
  else if c = 't' then .matchingTransferEncoding
  else if c = 'u' then .matchingUpgrade
  else .general

/-- `s_header_field_start`. -/
def headerFieldStart (e : Exec) (ch : Char) : Step :=
  if ch = '\r' then (e.goto .headersAlmostDone).advance ch
  else if ch = '\n' then headersAlmostDone (e.goto .headersAlmostDone) ch
  else
    match token ch with
    | none => e.fail .invalidHeaderToken
    | some c =>
        { markHeaderField e with
          self.index := 0, self.state := .headerField
          self.headerState := firstHeaderState c : Exec }.advance ch

/-- `s_header_value_discard_ws`. -/
def headerValueDiscardWs (e : Exec) (ch : Char) (rest : List Char) : Step :=
  if ch = ' ' ∨ ch = '\t' then e.advance ch
  else if ch = '\r' then (e.goto .headerValueDiscardWsAlmostDone).advance ch
  else if ch = '\n' then (e.goto .headerValueDiscardLws).advance ch
  else headerValueStart e ch rest

/-- What a finished header says about the connection and the body. -/
def finishedFlags (hs : HeaderState) (flags : Flags) : Flags :=
  match hs with
  | .connectionKeepAlive => { flags with connectionKeepAlive := true }
  | .connectionClose => { flags with connectionClose := true }
  | .transferEncodingChunked => { flags with chunked := true }
  | _ => flags

/-- `s_header_value_lws`: the line goes on, or the header is finished. -/
def headerValueLws (e : Exec) (ch : Char) (rest : List Char) : Step :=
  if ch = ' ' ∨ ch = '\t' then
    headerValueStart
      { e with
        self.headerState :=
          if e.self.headerState = .contentLengthNum then .contentLengthWs
          else e.self.headerState } ch rest
  else
    headerFieldStart
      { e with
        self.flags := finishedFlags e.self.headerState e.self.flags
        self.state := .headerFieldStart } ch

/-- `s_header_value_discard_lws`: the line goes on, or the value is empty. -/
def headerValueDiscardLws (e : Exec) (ch : Char) : Step :=
  if ch = ' ' ∨ ch = '\t' then (e.goto .headerValueDiscardWs).advance ch
  else headerFieldStart (flushHeaderValue ((markHeaderValue e).goto .headerFieldStart)) ch

/-! ## §8. Bodies. -/

/-- Bytes of a body: as many as are due and there. -/
def takeBody (e : Exec) (ch : Char) (rest : List Char) : Exec × Nat :=
  let n := min e.self.contentLength (ch :: rest).length
  ({ markBody e with
      self.contentLength := e.self.contentLength - n
      marks := (markBody e).marks.consume ((ch :: rest).take n) }, n)

/-- There is something to read. -/
def lengthKnown (e : Exec) : Bool := e.self.contentLength ≠ 0 && e.self.contentLength ≠ ullongMax

/-- `s_body_identity`. -/
def bodyIdentity (e : Exec) (ch : Char) (rest : List Char) : Step :=
  Exec.assert (lengthKnown e) <|
    let r := takeBody e ch rest
    if r.1.self.contentLength = 0 then
      -- the last byte is looked at again, in `s_message_done`
      .next (messageComplete (flushBody (r.1.goto .messageDone))) (r.2 - 1)
    else .next r.1 (r.2 - 1)

/-- `s_message_done`. -/
def messageDone (e : Exec) (ch : Char) : Step := (messageComplete e).advance ch

/-- `s_chunk_size_start`. -/
def chunkSizeStart (e : Exec) (ch : Char) : Step :=
  Exec.assert (e.nread = 1 && e.self.flags.chunked) <|
    match unhex ch with
    | none => e.fail .invalidChunkSize
    | some n => { e.goto .chunkSize with self.contentLength := n : Exec }.advance ch

/-- `s_chunk_size`. -/
def chunkSize (e : Exec) (ch : Char) : Step :=
  Exec.assert e.self.flags.chunked <|
    if ch = '\r' then (e.goto .chunkSizeAlmostDone).advance ch
    else
      match unhex ch with
      | none =>
          if ch = ';' ∨ ch = ' ' then (e.goto .chunkParameters).advance ch
          else e.fail .invalidChunkSize
      | some n =>
          if (ullongMax - 16) / 16 < e.self.contentLength then e.fail .invalidContentLength
          else { e with self.contentLength := e.self.contentLength * 16 + n : Exec }.advance ch

/-- `s_chunk_parameters`. -/
def chunkParameters (e : Exec) (ch : Char) : Step :=
  Exec.assert e.self.flags.chunked <|
    if ch = '\r' then (e.goto .chunkSizeAlmostDone).advance ch else e.advance ch

/-- `s_chunk_size_almost_done`. -/
def chunkSizeAlmostDone (e : Exec) (ch : Char) : Step :=
  Exec.assert e.self.flags.chunked <|
    e.strict ch '\n' <|
      let e := { e with self.nread := 0, nread := 0 }
      if e.self.contentLength = 0 then
        { e.goto .headerFieldStart with self.flags.trailing := true : Exec }.advance ch
      else (e.goto .chunkData).advance ch

/-- `s_chunk_data`. -/
def chunkData (e : Exec) (ch : Char) (rest : List Char) : Step :=
  Exec.assert (e.self.flags.chunked && lengthKnown e) <|
    let r := takeBody e ch rest
    .next (if r.1.self.contentLength = 0 then r.1.goto .chunkDataAlmostDone else r.1) (r.2 - 1)

/-- `s_chunk_data_almost_done`. -/
def chunkDataAlmostDone (e : Exec) (ch : Char) : Step :=
  Exec.assert (e.self.flags.chunked && e.self.contentLength = 0) <|
    e.strict ch '\r' <| (flushBody (e.goto .chunkDataDone)).advance ch

/-- `s_chunk_data_done`. -/
def chunkDataDone (e : Exec) (ch : Char) : Step :=
  Exec.assert e.self.flags.chunked <|
    e.strict ch '\n' <| ({ e with self.nread := 0, nread := 0 }.goto .chunkSizeStart).advance ch

/-! ## §9. The loop. -/

/-- **The `switch` of `http_parser_execute`** on the byte `ch`, with the rest of the
    buffer behind it. -/
def switch (e : Exec) (ch : Char) (rest : List Char) : Step :=
  match e.self.state with
  | .dead => if ch = '\r' ∨ ch = '\n' then e.advance ch else e.fail .closedConnection
  | .startReq => startReq e ch
  | .reqMethod => reqMethod e ch
  | .reqSpacesBeforeUrl => reqSpacesBeforeUrl buffer e ch
  | .reqSchema | .reqSchemaSlash | .reqSchemaSlashSlash | .reqServerStart => urlPrefix buffer e ch
  | .reqServer | .reqServerWithAt | .reqPath | .reqQueryStringStart | .reqQueryString =>
      urlRest routed buffer e ch
  | .reqHttpStart => reqHttpStart e ch
  | .reqHttpH => versionLetter 'T' .reqHttpHT e ch
  | .reqHttpHT => versionLetter 'T' .reqHttpHTT e ch
  | .reqHttpHTT => versionLetter 'P' .reqHttpHTTP e ch
  | .reqHttpI => versionLetter 'C' .reqHttpIC e ch
  | .reqHttpIC => versionLetter 'E' .reqHttpHTTP e ch
  | .reqHttpHTTP => versionLetter '/' .reqHttpMajor e ch
  | .reqHttpMajor => reqHttpMajor e ch
  | .reqHttpDot => reqHttpDot e ch
  | .reqHttpMinor => reqHttpMinor e ch
  | .reqHttpEnd => reqHttpEnd e ch
  | .reqLineAlmostDone => reqLineAlmostDone e ch
  | .headerFieldStart => headerFieldStart e ch
  | .headerField => headerField e ch rest
  | .headerValueDiscardWs => headerValueDiscardWs e ch rest
  | .headerValueDiscardWsAlmostDone => versionLetter '\n' .headerValueDiscardLws e ch
  | .headerValueDiscardLws => headerValueDiscardLws e ch
  | .headerValueStart => headerValueStart e ch rest
  | .headerValue => headerValue e ch rest
  | .headerValueLws => headerValueLws e ch rest
  | .headerAlmostDone => headerAlmostDone e ch
  | .chunkSizeStart => chunkSizeStart e ch
  | .chunkSize => chunkSize e ch
  | .chunkParameters => chunkParameters e ch
  | .chunkSizeAlmostDone => chunkSizeAlmostDone e ch
  | .headersAlmostDone => headersAlmostDone e ch
  | .headersDone => headersDone e ch
  | .chunkData => chunkData e ch rest
  | .chunkDataAlmostDone => chunkDataAlmostDone e ch
  | .chunkDataDone => chunkDataDone e ch
  | .bodyIdentity => bodyIdentity e ch rest
  | .messageDone => messageDone e ch

/-- One round: a byte of the header counts, then the `switch`. -/
def round (e : Exec) (ch : Char) (rest : List Char) : Step :=
  if e.self.state.parsingHeader then e.counting 1 fun e => switch routed buffer e ch rest
  else switch routed buffer e ch rest

/-- How the loop ends. -/
inductive Outcome where
  /-- The buffer is used up. -/
  | ended (e : Exec)
  /-- Left after an upgrade, with this much unread. -/
  | left (e : Exec) (unread : Nat)
  | failed (deliveries : List Delivery)
  | aborted
  deriving DecidableEq

/-- The `for` loop, where the next `skip` bytes have been dealt with. -/
def run (e : Exec) (skip : Nat) : List Char → Outcome
  | [] => .ended e
  | ch :: rest =>
      match skip with
      | skip + 1 => run e skip rest
      | 0 =>
          match round routed buffer e ch rest with
          | .next e more => run e more rest
          | .leave e => .left e rest.length
          | .failed _ deliveries => .failed deliveries
          | .aborted => .aborted

/-- The marks that `http_parser_execute` starts with. -/
def startMarks (s : State) : Marks :=
  { headerField := if s = .headerField then some [] else none
    headerValue := if s = .headerValue then some [] else none
    url := if s.inUrl then some [] else none }

/-- The marks that are set. -/
def Marks.count (m : Marks) : Nat :=
  m.headerField.toList.length + m.headerValue.toList.length + m.url.toList.length
    + m.body.toList.length

/-- What `feed` leaves behind. -/
inductive Fed where
  /-- `true`: the connection goes on. -/
  | ok (h : HTTPParser) (deliveries : List Delivery)
  /-- `false`: the connection is closed. -/
  | closed (deliveries : List Delivery)
  | aborted
  deriving DecidableEq

/-- The callbacks for what the marks hold at the end of the buffer. -/
def finish (e : Exec) : Fed :=
  if e.marks.count ≤ 1 then
    let e := flushHeaderValue (flushHeaderField e)
    match flushUrl routed e fun e => .next (flushBody e) 0 with
    | .next e _ => .ok { e.self with nread := e.nread } e.deliveries
    | .failed _ deliveries => .closed deliveries
    | .leave e => .ok e.self e.deliveries
    | .aborted => .aborted
  else .aborted

/-- **`HTTPParser::feed`** on a buffer that is not empty. -/
def feed (h : HTTPParser) (data : List Char) : Fed :=
  if h.messageComplete then .ok h []
  else
    match run routed buffer { self := h, nread := h.nread, marks := startMarks h.state } 0 data with
    | .ended e => finish routed e
    -- more was read than parsed
    | .left e unread => if unread = 0 then .ok e.self e.deliveries else .closed e.deliveries
    | .failed deliveries => .closed deliveries
    | .aborted => .aborted

/-- What comes after a buffer, with its deliveries behind those there are. -/
def Fed.andThen (f : Fed) (k : HTTPParser → Fed) : Fed :=
  match f with
  | .closed ds => .closed ds
  | .aborted => .aborted
  | .ok h ds =>
      match k h with
      | .ok h' ds' => .ok h' (ds ++ ds')
      | .closed ds' => .closed (ds ++ ds')
      | .aborted => .aborted

/-- The buffers of a connection, one read after the other, as many as there are before it is
    closed (behind a request that does not keep it alive, or by the peer). -/
def receive (h : HTTPParser) : List (List Char) → Fed
  | [] => .ok h []
  | data :: more => (feed routed buffer h data).andThen fun h => receive h more

end

end OrderApi.Crow.HttpParser
