/-
  OrderApi.Server.Connection
  ──────────────────────────
  **A KEEP-ALIVE CONNECTION** (`crow::Connection`).

  The parser calls `handle_url` when it has the URL, `handle_header` after the
  headers and `handle` when the message is complete.  The exits differ in
  whether they reset the context and whether they run the after handlers:

    • unrouted           after handlers, on the context the last request left;
    • no Host            neither before nor after handlers;
    • upgrade            before handlers only, no answer;
    • completed early    the middlewares called so far have run both;
    • routed             the chain, the handler, then all after handlers.

  A request that the parser refuses never gets here.
-/
import OrderApi.Server.Routes

namespace OrderApi.Server

open OrderApi.Lib
open OrderApi.Crow
open OrderApi.Model

/-! ## §1. The bytes sent. -/

/-- The `statusCodes` of `prepare_buffers`, without the `HTTP/1.1 ` in front. -/
def statusCodes : List (Int × String) :=
  [(100, "100 Continue\r\n"), (101, "101 Switching Protocols\r\n"),
    (200, "200 OK\r\n"), (201, "201 Created\r\n"), (202, "202 Accepted\r\n"),
    (203, "203 Non-Authoritative Information\r\n"), (204, "204 No Content\r\n"),
    (205, "205 Reset Content\r\n"), (206, "206 Partial Content\r\n"),
    (300, "300 Multiple Choices\r\n"), (301, "301 Moved Permanently\r\n"), (302, "302 Found\r\n"),
    (303, "303 See Other\r\n"), (304, "304 Not Modified\r\n"), (307, "307 Temporary Redirect\r\n"),
    (308, "308 Permanent Redirect\r\n"),
    (400, "400 Bad Request\r\n"), (401, "401 Unauthorized\r\n"), (403, "403 Forbidden\r\n"),
    (404, "404 Not Found\r\n"), (405, "405 Method Not Allowed\r\n"),
    (406, "406 Not Acceptable\r\n"), (407, "407 Proxy Authentication Required\r\n"),
    (409, "409 Conflict\r\n"), (410, "410 Gone\r\n"),
    (413, "413 Payload Too Large\r\n"), (415, "415 Unsupported Media Type\r\n"),
    (416, "416 Range Not Satisfiable\r\n"), (417, "417 Expectation Failed\r\n"),
    (428, "428 Precondition Required\r\n"), (429, "429 Too Many Requests\r\n"),
    (451, "451 Unavailable For Legal Reasons\r\n"),
    (500, "500 Internal Server Error\r\n"), (501, "501 Not Implemented\r\n"),
    (502, "502 Bad Gateway\r\n"), (503, "503 Service Unavailable\r\n"),
    (504, "504 Gateway Timeout\r\n"), (506, "506 Variant Also Negotiates\r\n")]

/-- `prepare_buffers`: what is written to the socket, as a response.  The `Server`
    and `Date` lines are left out. -/
def prepareBuffers (c : ConnState) : Response :=
  let res := if (statusCodes.lookup c.res.code).isSome then c.res else { c.res with code := 500 }
  let res :=
    if 400 ≤ res.code ∧ res.body = "" then
      { res with body := (statusCodes.lookup res.code).getD "" }
    else res
  let length :=
    if !res.manualLengthHeader && !res.headers.has "content-length" then
      [("Content-Length", toString res.body.length)]
    else []
  let keepAlive := if c.addKeepAlive then [("Connection", "Keep-Alive")] else []
  { res with headers := res.headers ++ length ++ keepAlive }

/-- A code that is in the table is the one written. -/
theorem prepareBuffers_code {c : ConnState} (h : (statusCodes.lookup c.res.code).isSome = true) :
    (prepareBuffers c).code = c.res.code := by
  unfold prepareBuffers
  dsimp only
  rw [if_pos h]
  split <;> rfl

/-- A body that is there is sent as it is. -/
theorem prepareBuffers_body {c : ConnState} (h : c.res.body ≠ "") :
    (prepareBuffers c).body = c.res.body := by
  unfold prepareBuffers
  dsimp only
  split
  · rw [if_neg fun hempty => h hempty.2]
  · rw [if_neg fun hempty => h hempty.2]

/-- Two headers are added, unless they are there. -/
theorem prepareBuffers_named {c : ConnState} {key : String}
    (hlength : ciEq "Content-Length" key = false) (hconnection : ciEq "Connection" key = false) :
    (prepareBuffers c).headers.named key = c.res.headers.named key := by
  have hadded : ∀ (b : Prop) [Decidable b] (name value : String), ciEq name key = false →
      List.filter (fun h => ciEq h.1 key) (if b then [(name, value)] else []) = [] := by
    intro b _ name value hname
    split
    · simp [hname]
    · rfl
  unfold prepareBuffers Headers.named
  dsimp only
  rw [List.filter_append, List.filter_append, hadded _ _ _ hlength, hadded _ _ _ hconnection,
    List.append_nil, List.append_nil]
  -- neither the code nor the body touches the headers
  split
  · split <;> rfl
  · split <;> rfl

/-! ## §2. Handling one request. -/

/-- How a connection comes out of a request. -/
structure Handled where
  /-- What was written to the socket, if anything. -/
  sent : Option Response
  conn : ConnState
  /-- The connection reads another request. -/
  goesOn : Bool

/-- `complete_request`: the after handlers where they are due, then the write,
    which clears the response. -/
def completeRequest (env : Env) (needToCallAfterHandlers : Bool) (req : Request) (c : ConnState) :
    Code (Response × ConnState) := do
  let c ← (if needToCallAfterHandlers then afterHandlersCallHelper (middlewares env) req c
    else pure c)
  pure (prepareBuffers c, { c with res := c.res.clear })

/-- `handle_url` for a request without a route.  The context is the one the
    connection has from before. -/
def handleUnrouted (env : Env) (req : Request) (c : ConnState) : Code Handled := do
  let r ← completeRequest env true req c
  pure ⟨some r.1, r.2, false⟩

/-- HTTP/1.1. -/
def Request.isHttp11 (req : Request) : Bool := req.httpMajor = 1 && req.httpMinor = 1

/-- `handle_header`: a `100 Continue` is written, which clears the response. -/
def handleHeader (req : Request) (c : ConnState) : ConnState :=
  if Request.isHttp11 req && getHeaderValue req.headers "expect" = "100-continue" then
    { c with res := c.res.clear }
  else c

/-- `handle` refuses a request of HTTP/1.1 without a `Host`. -/
def isInvalidRequest (req : Request) : Bool :=
  Request.isHttp11 req && !req.headers.has "host"

/-- `handle` takes its upgrade branch: not for h2 or h2c. -/
def takesUpgrade (req : Request) : Bool :=
  Request.isHttp11 req && req.headers.has "host" && req.upgrade
    && !("h2".toList.isPrefixOf (getHeaderValue req.headers "upgrade").toList)

/-- `Router::handle_upgrade`.  No rule of the service overrides
    `BaseRule::handle_upgrade`, and there is no completion handler at this point. -/
def handleUpgrade (req : Request) (res : Response) : Response :=
  if (router.find req.method req.url).1 ≠ 0 then (res.assign (.ofCode 404)).finish
  else if HttpMethod.all.any fun m => (router.find m req.url).1 ≠ 0 then
    (res.assign (.ofCode 405)).finish
  else (res.assign (.ofCode 404)).finish

/-- What `end` and `handle` do to the response after the completion handler. -/
def afterCompletion (req : Request) (c : ConnState) : ConnState :=
  let res := { c.res with manualLengthHeader := false, skipBody := false }
  { c with res := if req.keepAlive then res.setHeader "connection" "Keep-Alive" else res }

/-- The last part of `handle`: the chain, then the handler. -/
def handleRouted (svc : Service) (req : Request) (inp : Inputs) (params : List PathParam)
    (ep : Endpoint) (c : ConnState) : Code Handled := do
  let r ← middlewareCallHelper (middlewares svc.env) req c
  if r.2.res.completed then do
    -- answered by a middleware, which has run its after handler
    let r ← completeRequest svc.env false req r.2
    pure ⟨some r.1, r.2, !req.closeConnection⟩
  else do
    let res ← handleRule svc req inp params r.2.res ep
    let r ← completeRequest svc.env true req { r.2 with res := res }
    pure ⟨some r.1, afterCompletion req r.2, !req.closeConnection⟩

/-- `handle`, with the endpoint the router found. -/
def handle (svc : Service) (req : Request) (inp : Inputs) (params : List PathParam)
    (ep : Endpoint) (c : ConnState) : Code Handled := do
  let c := { c with ctx := {}, addKeepAlive := req.keepAlive }
  if isInvalidRequest req then do
    let r ← completeRequest svc.env false req { c with res := c.res.assign (.ofCode 400) }
    pure ⟨some r.1, r.2, !req.closeConnection⟩
  else if takesUpgrade req then do
    -- the chain runs, and nobody calls the after handlers
    let r ← middlewareCallHelper (middlewares svc.env) req c
    pure ⟨none, { r.2 with res := handleUpgrade req r.2.res }, false⟩
  else handleRouted svc req inp params ep c

/-- A request that the parser delivers, with the values its handler will read. -/
structure Visit where
  req : Request
  inp : Inputs := {}

/-- The router has no rule for the request. -/
def unrouted (req : Request) : Bool := (handleInitial router req {}).1.ruleIndex = 0

theorem unrouted_eq (req : Request) (res : Response) :
    unrouted req = decide ((handleInitial router req res).1.ruleIndex = 0) := by
  unfold unrouted
  rw [handleInitial_fst router req {} res]

/-- The callbacks of the parser on a request: `handle_url`, and unless that
    answers, `handle_header` and `handle`. -/
def dispatch (svc : Service) (c : ConnState) (v : Visit) : Code Handled :=
  let found := (handleInitial router v.req c.res).1
  let c' := { c with res := (handleInitial router v.req c.res).2 }
  if found.ruleIndex = 0 then handleUnrouted svc.env v.req c'
  else
    match router.endpoint found with
    | some ep => handle svc v.req v.inp (pathParams v.req c.res) ep (handleHeader v.req c')
    -- "Trie internal structure corrupted!"
    | none => pure ⟨none, c', false⟩

/-- A request from its URL to the last byte of its answer. -/
def exchange (svc : Service) (c : ConnState) (v : Visit) : Code Handled := do
  perform (.received c v.req)
  let h ← dispatch svc c v
  perform (.finished h.sent)
  pure h

/-- A connection that receives these requests one after the other.  `start_deadline`, which
    closes a connection that has been silent for 5 s, is not modelled: the clock may go on
    by more than that between two requests, in runs that the service does not have. -/
def serve (svc : Service) : ConnState → List Visit → Code Unit
  | _, [] => pure ()
  | c, v :: vs => do
      let h ← exchange svc c v
      if h.goesOn then serve svc h.conn vs else pure ()

end OrderApi.Server
