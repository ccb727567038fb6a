/-
  OrderApi.Server.Routes
  ──────────────────────
  **THE ROUTES OF `main`**, and what each of them runs.

  The eight `CROW_ROUTE`s in their order, then the route for static files that
  `App::run` adds.  Handlers that read atomics are code (`Code`), one operation
  for each load of the source, in its order.
-/
import OrderApi.Crow.Router
import OrderApi.Server.Middleware

namespace OrderApi.Server

open OrderApi.Lib
open OrderApi.Crow
open OrderApi.Model

/-! ## §1. The table. -/

/-- What a route runs. -/
inductive Endpoint where
  | healthcheck
  | readiness
  | createOrder
  | getOrder
  | payOrder
  | listOrders
  | deleteOrder
  | metrics
  | staticDir
  deriving DecidableEq

/-- One of the five order handlers. -/
def Endpoint.isOrder : Endpoint → Bool
  | .createOrder => true
  | .getOrder => true
  | .payOrder => true
  | .listOrders => true
  | .deleteOrder => true
  | _ => false

/-- The rules, in the order in which they are added. -/
def routes : List (Rule Endpoint) :=
  [.mk "/healthcheck" [.get] .healthcheck,
    .mk "/readiness" [.get] .readiness,
    .mk "/order/create" [.post] .createOrder,
    .mk "/order/get/<string>" [.get] .getOrder,
    .mk "/order/pay" [.post] .payOrder,
    .mk "/order/list" [.get] .listOrders,
    .mk "/order/delete/<string>" [.delete] .deleteOrder,
    .mk "/metrics" [.get] .metrics,
    .mk "/static/<path>" [.get] .staticDir]

/-- The router of the application. -/
def router : Router Endpoint := perMethod routes

/-- The parameters of a request's match.  They are pieces of its URL. -/
def pathParams (req : Request) (res : Response) : List PathParam :=
  ((handleInitial router req res).1.params.attachWith NoNul
    (handleInitial_noNul router req res)).map fun p => ⟨p.1, p.2⟩

/-! ## §2. What the probes answer. -/

/-- A regular file: the headers that come from its size and its name, and what is
    read from it. -/
structure StaticFile where
  headers : Headers
  content : String

/-- The environment of the handlers, with what the other routes use of the
    standard library and the file system. -/
structure Service where
  env : Env
  /-- `os << double(a) / double(b)`. -/
  showRatio : Int → Int → String
  /-- What `set_static_file_info_unsafe` and `do_write_static` find under the
      sanitized path in `static/`; `none` when there is no such regular file. -/
  staticFile : String → Option StaticFile

/-- The service at its defaults, without static files. -/
def sampleService : Service where
  env := sampleEnv
  showRatio := fun _ _ => "0.5"
  staticFile := fun _ => none

/-- `service_state::is_ready`. -/
def isReady : Code Bool := do
  let db : Bool ← perform .loadDbReady
  if db then do
    let down : Bool ← perform .loadShuttingDown
    pure !down
  else pure false

/-- `service_state::readiness_status`. -/
def readinessStatus : Code String := do
  let db : Bool ← perform .loadDbReady
  if db then do
    let down : Bool ← perform .loadShuttingDown
    if down then pure "shutting_down"
    else do
      let redis : Bool ← perform .loadRedisAvailable
      if redis then pure "ready" else pure "degraded"
  else pure "db_unavailable"

/-- The handler of `/healthcheck`. -/
def healthcheck (env : Env) : Response :=
  Response.ofJson 200 (env.dump (.object [("status", .str "ok")]))

/-- The handler of `/readiness`. -/
def readiness (env : Env) : Code Response := do
  let status ← readinessStatus
  let ready ← isReady
  let db : Bool ← perform .loadDbReady
  let redis : Bool ← perform .loadRedisAvailable
  -- `is_ready` is asked a second time, for the status code
  let readyNow ← isReady
  pure (Response.ofJson (if readyNow then 200 else 503)
    (env.dump (.object [("status", .str status), ("ready", .bool ready), ("db_ready", .bool db),
      ("redis_available", .bool redis)])))

/-- A line of the metrics page. -/
def metricsLine (name value : String) : String := name ++ " " ++ value ++ "\n"

/-- The line of a counter. -/
def counterLine (name : String) (c : Counter) : Code String := do
  let x : Int ← perform (.load c)
  pure (metricsLine name (toString x))

/-- `cond ? 1 : 0`, written out. -/
def flag (b : Bool) : String := if b then "1" else "0"

/-- A quotient that is `0.0` for a zero divisor, written out. -/
def ratioOrZero (svc : Service) (a b : Int) : String := if b = 0 then "0" else svc.showRatio a b

/-- `cache_hit_ratio`: the hits are loaded a second time. -/
def cacheRatio (svc : Service) : Code String := do
  let hits : Int ← perform (.load .cacheHits)
  let misses : Int ← perform (.load .cacheMisses)
  if hits + misses = 0 then pure "0"
  else do
    let hits' : Int ← perform (.load .cacheHits)
    pure (svc.showRatio hits' (hits + misses))

/-- The handler of `/metrics`. -/
def metricsText (svc : Service) : Code String := do
  let total ← counterLine "total_requests" .totalRequests
  let created ← counterLine "orders_created" .ordersCreated
  let paid ← counterLine "orders_paid" .ordersPaid
  let hits ← counterLine "cache_hits" .cacheHits
  let misses ← counterLine "cache_misses" .cacheMisses
  let overload ← counterLine "overload_rejections" .overloadRejections
  let shutdown ← counterLine "shutdown_rejections" .shutdownRejections
  let redisErrors ← counterLine "redis_errors" .redisErrors
  let sqliteErrors ← counterLine "sqlite_errors" .sqliteErrors
  let inFlight ← counterLine "in_flight_requests" .inFlightRequests
  let redis : Bool ← perform .loadRedisAvailable
  let ready ← isReady
  let ratio ← cacheRatio svc
  -- both are loaded before any of the duration lines is written
  let samples : Int ← perform (.load .requestDurationSamples)
  let totalMs : Int ← perform (.load .requestDurationMsTotal)
  let maxMs ← counterLine "http_request_duration_ms_max" .requestDurationMsMax
  pure ("# TYPE total_requests counter\n" ++ total ++ created ++ paid ++ hits ++ misses ++ overload
    ++ shutdown ++ redisErrors ++ sqliteErrors ++ inFlight
    ++ metricsLine "redis_available" (flag redis) ++ metricsLine "service_ready" (flag ready)
    ++ metricsLine "cache_hit_ratio" ratio
    ++ metricsLine "http_request_duration_ms_total" (toString totalMs)
    ++ metricsLine "http_request_duration_ms_count" (toString samples)
    ++ metricsLine "http_request_duration_ms_avg" (ratioOrZero svc totalMs samples) ++ maxMs)

/-- The response around it. -/
def metricsResponse (text : String) : Response :=
  ((Response.ofCode 200).setHeader "Content-Type" "text/plain").write text

/-! ## §3. Running a route. -/

/-- `wrapped_handler_call` for a handler that returned, and
    `default_exception_handler` for one that threw. -/
def answerWith (res : Response) : Reply → Response
  | .returned r => (res.assign r).finish
  | .threw (.badRequest what) => { res.assign (.ofCode 400) with body := what }.finish
  | .threw (.runtimeError _) => (res.assign (.ofCode 500)).finish

/-- `set_static_file_info_unsafe` and `end` on the response itself. -/
def serveStatic (svc : Service) (res : Response) (path : String) : Response :=
  match svc.staticFile path with
  | some file =>
      { res with
        code := 200, headers := res.headers ++ file.headers, file := some file.content }.finish
  | none => { res with code := 404, file := none }.finish

/-- `Router::handle` for the rule that was found, up to the completion handler. -/
def handleRule (svc : Service) (req : Request) (inp : Inputs) (params : List PathParam)
    (res : Response) : Endpoint → Code Response
  | .healthcheck => pure (answerWith res (.returned (healthcheck svc.env)))
  | .readiness => do
      let r ← readiness svc.env
      pure (answerWith res (.returned r))
  | .metrics => do
      let text ← metricsText svc
      pure (answerWith res (.returned (metricsResponse text)))
  | .staticDir => pure (serveStatic svc res (firstParam params).val)
  | .createOrder => order (.createOrder req.body)
  | .getOrder => order (.getOrder (firstParam params))
  | .payOrder => order (.payOrder req.body)
  | .listOrders => order (.listOrders (req.urlParam "status"))
  | .deleteOrder => order (.deleteOrder (firstParam params))
where
  /-- `params.get<std::string>(0)`. -/
  firstParam : List PathParam → PathParam
    | [] => ⟨"", by decide⟩
    | p :: _ => p
  /-- One of the handlers of `order_routes.cpp`. -/
  order (call : OrderCall) : Code Response := do
    let reply ← runOrder call inp
    pure (answerWith res reply)

/-! ## §4. What the router finds. -/

/-- Every rule index in a trie belongs to a rule. -/
theorem indices_have_rule (m : HttpMethod) :
    ∀ i ∈ (router m).trie.indices, i = 0 ∨ (router.endpoint ⟨i, [], m⟩).isSome = true := by
  cases m <;> decide +kernel

/-- A routed request has an endpoint. -/
theorem exists_endpoint {req : Request} {res : Response}
    (h : (handleInitial router req res).1.ruleIndex ≠ 0) :
    ∃ ep, router.endpoint (handleInitial router req res).1 = some ep := by
  -- the index comes out of the trie of the method that was looked up (GET for
  -- a HEAD), and every index in there has its rule
  obtain ⟨m, hfound⟩ | ⟨hzero, -⟩ := handleInitial_found router req res
  · rw [hfound] at h ⊢
    obtain hzero | hmem := Node.find_mem_indices (router m).trie [] req.url.toList
    · exact absurd hzero h
    · exact Option.isSome_iff_exists.mp ((indices_have_rule m _ hmem).resolve_left h)
  · exact absurd hzero h

theorem isProbePath_cases {url : String} (h : isProbePath url = true) :
    url = "/healthcheck" ∨ url = "/readiness" ∨ url = "/metrics" := by
  unfold isProbePath at h
  simpa [or_assoc] using h

/-- What holds of the rules that any method finds for a URL holds of the endpoint
    a request for it gets. -/
theorem endpoint_all {P : Endpoint → Bool} {req : Request} {res : Response} {ep : Endpoint}
    (hall : ∀ m, (router.endpoint ⟨(router.find m req.url).1, [], m⟩).all P = true)
    (h : router.endpoint (handleInitial router req res).1 = some ep) : P ep = true := by
  obtain ⟨m, hfound⟩ | ⟨hzero, -⟩ := handleInitial_found router req res
  · rw [hfound] at h
    have hm := hall m
    unfold Router.endpoint at h hm
    rw [h] at hm
    simpa using hm
  · exact absurd hzero (router.index_ne_zero h)

/-- No method leads from a probe path to an order handler. -/
theorem probe_rules (m : HttpMethod) {url : String} (h : isProbePath url = true) :
    (router.endpoint ⟨(router.find m url).1, [], m⟩).all (fun ep => !ep.isOrder) = true := by
  obtain rfl | rfl | rfl := isProbePath_cases h
  · cases m <;> decide +kernel
  · cases m <;> decide +kernel
  · cases m <;> decide +kernel

/-- A request for a probe path does not reach an order handler. -/
theorem probe_endpoint {req : Request} {res : Response} {ep : Endpoint}
    (hprobe : isProbePath req.url = true)
    (h : router.endpoint (handleInitial router req res).1 = some ep) : ep.isOrder = false := by
  have hnot := endpoint_all (fun m => probe_rules m hprobe) h
  simpa using hnot

theorem readiness_rules (m : HttpMethod) :
    (router.endpoint ⟨(router.find m "/readiness").1, [], m⟩).all (· = .readiness) = true := by
  cases m <;> decide +kernel

/-- `/readiness` leads to its own handler. -/
theorem readiness_endpoint {req : Request} {res : Response} {ep : Endpoint}
    (hurl : req.url = "/readiness")
    (h : router.endpoint (handleInitial router req res).1 = some ep) : ep = .readiness := by
  have hall : ∀ m,
      (router.endpoint ⟨(router.find m req.url).1, [], m⟩).all (· = .readiness) = true := by
    intro m
    rw [hurl]
    exact readiness_rules m
  simpa using endpoint_all hall h

theorem readiness_paths (m : HttpMethod) :
    ∀ p ∈ (router m).trie.paths, router.endpoint ⟨p.1, [], m⟩ = some .readiness →
      literalOf p.2 = some "/readiness".toList := by
  cases m <;> decide +kernel

/-- Nothing else leads there. -/
theorem readiness_url {req : Request} {res : Response}
    (h : router.endpoint (handleInitial router req res).1 = some .readiness) :
    req.url = "/readiness" := by
  obtain ⟨m, hfound⟩ | ⟨hzero, -⟩ := handleInitial_found router req res
  · rw [hfound] at h
    obtain hzero | ⟨parts, hmem, hcovers⟩ := (router m).trie.find_reached [] req.url.toList
    · exact absurd hzero (router.index_ne_zero h)
    · have hliteral := readiness_paths m _ hmem h
      exact String.toList_inj.mp (hcovers.eq_literal _ hliteral)
  · exact absurd hzero (router.index_ne_zero h)

end OrderApi.Server
