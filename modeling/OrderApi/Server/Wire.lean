/-
  OrderApi.Server.Wire
  ────────────────────
  **FROM THE BYTES TO THE HANDLERS.**

  What the parser hands on becomes the request of the router, its query string the
  parameters of the handlers.  A client that asks for a call of one of the five handlers,
  in one of the ways that HTTP and the routes leave it, gets as far as `handle` with this
  call:

    • `requestOf_urlParam`   `url_params.get` of the request is the one on the raw URL;
    • `Asks.routedTo`        the router finds the handler, with its argument;
    • `RoutedTo.handles`     the connection enters `handle` with it;
    • `sent_calls_handled`   so it is for all that is sent over a connection.

  For static files it is what does not happen: no file outside their directory makes a
  difference to a connection (`serve_confined`).
-/
import OrderApi.Crow.Filename
import OrderApi.Crow.HttpRoundTrip
import OrderApi.Crow.QueryString
import OrderApi.Crow.Trie
import OrderApi.Server.Connection
import Mathlib.Data.List.Forall2

namespace OrderApi.Server

open OrderApi.Lib
open OrderApi.Crow
open OrderApi.Crow.HttpParser
open OrderApi.Model

/-! ## §1. The request that is handed on. -/

theorem noNul_of_urlText {cs : List Char} (h : UrlText cs) : NoNul (String.ofList cs) := by
  unfold NoNul
  rw [String.toList_ofList]
  intro hmem
  exact absurd (h _ hmem).1 (by decide)

/-- The `crow::request` that the parser hands to the connection.  The parser lets no NUL
    into a URL. -/
def requestOf (raw : RawRequest) (h : WellFormed raw) : Request where
  method := raw.method
  url := String.ofList raw.url
  urlNoNul := noNul_of_urlText h.url
  urlParams := (QueryString.params raw.rawUrl true).map (Prod.map String.ofList String.ofList)
  headers := raw.headers.map (Prod.map String.ofList String.ofList)
  body := String.ofList raw.body
  httpMajor := raw.httpMajor
  httpMinor := raw.httpMinor
  keepAlive := raw.keepAlive
  closeConnection := raw.closeConnection
  upgrade := raw.upgrade

/-- **`url_params.get`**: the pairs of a request are what a lookup in the query string of
    its raw URL finds, whatever lies behind the copy of the URL. -/
theorem requestOf_urlParam (beyond : List Char) {raw : RawRequest} (h : WellFormed raw)
    {name : String} (hname : QueryString.Plain name.toList) :
    (requestOf raw h).urlParam name
      = ((QueryString.ofUrl beyond raw.rawUrl true).value name.toList).map String.ofList := by
  have hkey : ∀ p : List Char × List Char,
      decide ((Prod.map String.ofList String.ofList p).1 = name) = decide (p.1 = name.toList) := by
    intro p
    rw [decide_eq_decide, Prod.map_fst, ← String.toList_inj, String.toList_ofList]
  rw [QueryString.value_url beyond _ hname]
  unfold Request.urlParam requestOf
  simp only [List.find?_map, Option.map_map, Function.comp_def, hkey, Prod.map_snd]

/-- `handle_url` finds a rule. -/
def isRouted (method : HttpMethod) (url : List Char) : Bool :=
  if h : NoNul (String.ofList url) then
    !unrouted { method := method, url := String.ofList url, urlNoNul := h }
  else false

/-! ## §2. What is sent is well formed. -/

/-- A header that comes through was sent. -/
theorem kept_of_field {fs : List Field} {f : List Char × List Char} (h : f ∈ kept fs) :
    ∃ g ∈ fs, f = (g.name, g.value) := by
  induction fs with
  | nil => cases h
  | cons g fs ih =>
      cases fs with
      | nil => exact ⟨g, List.mem_cons_self, List.mem_singleton.mp h⟩
      | cons g' fs =>
          rw [kept_cons, List.mem_append] at h
          obtain h | h := h
          · split at h
            · cases h
            · exact ⟨g, List.mem_cons_self, List.mem_singleton.mp h⟩
          · obtain ⟨g'', hmem, heq⟩ := ih h
            exact ⟨g'', List.mem_cons_of_mem _ hmem, heq⟩

/-- What may be sent as a URL is the text of one. -/
theorem urlText_of_isUrlChar {cs : List Char} (h : ∀ c ∈ cs, isUrlChar c = true ∨ c = '?') :
    UrlText cs := by
  intro c hc
  obtain hchar | rfl := h c hc
  · simp only [isUrlChar, Bool.and_eq_true, decide_eq_true_eq] at hchar
    exact ⟨hchar.1.1.1, hchar.1.1.2, hchar.1.2⟩
  · decide

/-- The request of a valid message is well formed. -/
theorem wellFormed_request {m : Message} (hm : m.Valid) (start : Nat) :
    WellFormed (m.request start) := by
  have hraw : UrlText m.rawUrl := by
    refine urlText_of_isUrlChar fun c hc => ?_
    obtain hc | hc := List.mem_append.mp hc
    · exact .inl (hm.path.2 c hc)
    · cases hquery : m.query with
      | none => rw [hquery] at hc; cases hc
      | some q =>
          rw [hquery] at hc
          obtain rfl | hc := List.mem_cons.mp hc
          · exact .inr rfl
          · exact hm.query q hquery c hc
  refine ⟨hraw, ?_, ?_, ?_⟩
  · show UrlText (m.url start)
    unfold Message.url
    split
    · exact urlText_of_isUrlChar fun c hc => .inl (hm.path.2 c hc)
    · exact fun c hc => hraw c (List.mem_of_mem_take hc)
  · intro f hf
    obtain ⟨g, hg, rfl⟩ := kept_of_field hf
    exact (hm.fields g hg).name.2
  · intro f hf
    obtain ⟨g, hg, rfl⟩ := kept_of_field hf
    exact fun c hc => ((hm.fields g hg).value c hc).2

/-! ## §3. Calls. -/

/-- The router finds a rule whose handler is the one of the call, and it takes the
    argument of the call from the request. -/
def RoutedTo (req : Request) (call : OrderCall) : Prop :=
  ∀ res, ∃ ep, router.endpoint (handleInitial router req res).1 = some ep
    ∧ ∀ svc inp res', handleRule svc req inp (pathParams req res) res' ep
      = handleRule.order inp res' call

/-- A message asks for a call of one of the five handlers: what it sends in its path, in
    its query string or as its body is the argument. -/
inductive Asks (m : Message) : OrderCall → Prop where
  | create (hmethod : m.method = .post) (hpath : m.path = "/order/create".toList) :
      Asks m (.createOrder (String.ofList m.payload.body))
  | get {o : PathParam} (hmethod : m.method = .get)
      (hpath : m.path = "/order/get/".toList ++ o.val.toList) (hsome : o.val ≠ "")
      (hslash : '/' ∉ o.val.toList) : Asks m (.getOrder o)
  | pay (hmethod : m.method = .post) (hpath : m.path = "/order/pay".toList) :
      Asks m (.payOrder (String.ofList m.payload.body))
  | listAll (hmethod : m.method = .get) (hpath : m.path = "/order/list".toList)
      (hquery : m.query = none) : Asks m (.listOrders none)
  | list {ps : List QueryString.Sent} (hmethod : m.method = .get)
      (hpath : m.path = "/order/list".toList)
      (hquery : m.query = some (QueryString.Sent.query ps)) (hsome : ps ≠ [])
      (hroom : ps.length ≤ QueryString.maxKeyValuePairsCount) :
      Asks m (.listOrders ((ps.find? (·.key = "status".toList)).map
        fun p => String.ofList (QueryString.cut p.value)))
  | delete {o : PathParam} (hmethod : m.method = .delete)
      (hpath : m.path = "/order/delete/".toList ++ o.val.toList) (hsome : o.val ≠ "")
      (hslash : '/' ∉ o.val.toList) : Asks m (.deleteOrder o)

/-! ## §4. The router. -/

/-- The router of the service finds the first rule that matches. -/
theorem find_rule (m : HttpMethod) (url : String) :
    router.find m url
      = (((routes.filter fun r => r.methods.contains m).zipIdx 2).findSome?
          (answer url.toList)).getD (0, []) := by
  refine find_built (fun r hr => ?_) ?_ ?_ ?_ url.toList
  · -- no rule ends in a slash, and there are nine
    have hslash : ∀ r ∈ routes, r.hasTrailingSlash = false := by decide +kernel
    have hle := List.length_filter_le (fun r : Rule Endpoint => r.methods.contains m) routes
    have hnine : routes.length = 9 := rfl
    have hlt := List.snd_lt_add_of_mem_zipIdx hr
    exact ⟨hslash r.1 (List.mem_of_mem_filter (List.fst_mem_of_mem_zipIdx hr)), by omega⟩
  · cases m <;> decide +kernel
  · cases m <;> decide +kernel
  · cases m <;> decide +kernel

/-- `get_order` has index 4 among the rules of `GET`. -/
theorem find_get {id : List Char} (hsome : id ≠ []) (hslash : '/' ∉ id) :
    router.find .get (String.ofList ("/order/get/".toList ++ id)) = (4, [String.ofList id]) := by
  have hrules : (routes.filter fun r => r.methods.contains .get).zipIdx 2
      = [(.mk "/healthcheck" [.get] .healthcheck, 2), (.mk "/readiness" [.get] .readiness, 3),
        (.mk "/order/get/<string>" [.get] .getOrder, 4), (.mk "/order/list" [.get] .listOrders, 5),
        (.mk "/metrics" [.get] .metrics, 6), (.mk "/static/<path>" [.get] .staticDir, 7)] := rfl
  rw [find_rule, String.toList_ofList, hrules]
  simp [answer, ruleParts, pieces, Piece.part, matchParts_char, matchParts_segment hsome hslash]

/-- `delete_order` has index 2 among those of `DELETE`. -/
theorem find_delete {id : List Char} (hsome : id ≠ []) (hslash : '/' ∉ id) :
    router.find .delete (String.ofList ("/order/delete/".toList ++ id))
      = (2, [String.ofList id]) := by
  have hrules : (routes.filter fun r => r.methods.contains .delete).zipIdx 2
      = [(.mk "/order/delete/<string>" [.delete] .deleteOrder, 2)] := rfl
  rw [find_rule, String.toList_ofList, hrules]
  simp [answer, ruleParts, pieces, Piece.part, matchParts_char, matchParts_segment hsome hslash]

theorem pathParams_val (req : Request) (res : Response) :
    (pathParams req res).map PathParam.val = (handleInitial router req res).1.params := by
  unfold pathParams
  rw [List.map_map]
  exact List.attachWith_map_subtype_val _

/-- A single parameter is the one with its text. -/
theorem params_one {params : List PathParam} {o : PathParam}
    (h : params.map PathParam.val = [o.val]) : params = [o] := by
  obtain ⟨p, rfl, hval⟩ := List.map_eq_singleton_iff.mp h
  obtain ⟨val, noNul⟩ := p
  dsimp only at hval
  subst hval
  rfl

/-- What a rule leads to that the router finds for the request's own method. -/
theorem routedTo_of {req : Request} {call : OrderCall} {m : HttpMethod} {x : Match} {ep : Endpoint}
    (hmethod : req.method = m) (hhead : m ≠ .head) (hoptions : m ≠ .options)
    (hfind : router.find m req.url = x) (hep : router.endpoint ⟨x.1, x.2, m⟩ = some ep)
    (hrun : ∀ params : List PathParam, params.map PathParam.val = x.2 → ∀ svc inp res,
      handleRule svc req inp params res ep = handleRule.order inp res call) : RoutedTo req call := by
  intro res
  have hfound : (handleInitial router req res).1 = ⟨x.1, x.2, m⟩ :=
    handleInitial_own router res hmethod hhead hoptions hfind (router.index_ne_zero hep)
  refine ⟨ep, by rw [hfound]; exact hep, fun svc inp res' => hrun _ ?_ svc inp res'⟩
  rw [pathParams_val, hfound]

/-- On any connection the request enters `handle` with a rule whose handler is given the
    call: it is what `handle` runs unless it refuses the request, takes its upgrade branch,
    or a middleware answers first. -/
def Handles (req : Request) (call : OrderCall) : Prop :=
  ∀ svc inp c, ∃ ep params c', dispatch svc c ⟨req, inp⟩ = handle svc req inp params ep c'
    ∧ ∀ res, handleRule svc req inp params res ep = handleRule.order inp res call

/-- A request that is routed to a handler is handed to it. -/
theorem RoutedTo.handles {req : Request} {call : OrderCall} (h : RoutedTo req call) :
    Handles req call := by
  intro svc inp c
  obtain ⟨ep, hep, hrun⟩ := h c.res
  refine ⟨ep, pathParams req c.res,
    handleHeader req { c with res := (handleInitial router req c.res).2 }, ?_, hrun svc inp⟩
  unfold dispatch
  dsimp only
  rw [if_neg (router.index_ne_zero hep), hep]

/-- It has a route. -/
theorem RoutedTo.isRouted {raw : RawRequest} {hraw : WellFormed raw} {call : OrderCall}
    (h : RoutedTo (requestOf raw hraw) call) : isRouted raw.method raw.url = true := by
  obtain ⟨ep, hep, -⟩ := h {}
  have hindex := router.index_ne_zero hep
  have hnul : NoNul (String.ofList raw.url) := noNul_of_urlText hraw.url
  unfold Server.isRouted
  rw [dif_pos hnul]
  show (!unrouted (requestOf raw hraw)) = true
  unfold unrouted
  rw [decide_eq_false hindex]
  rfl

/-- **What is asked for is found**, when the parser finds the end of the path. -/
theorem Asks.routedTo {m : Message} {call : OrderCall} (h : Asks m call) {start : Nat}
    (hpath : m.url start = m.path) (hraw : WellFormed (m.request start)) :
    RoutedTo (requestOf (m.request start) hraw) call := by
  have hurl : (requestOf (m.request start) hraw).url = String.ofList m.path :=
    congrArg String.ofList hpath
  cases h with
  | create hmethod hp =>
      rw [hp] at hurl
      exact routedTo_of (x := (2, [])) hmethod (by decide) (by decide)
        (by rw [hurl]; decide +kernel) rfl fun _ _ _ _ _ => rfl
  | pay hmethod hp =>
      rw [hp] at hurl
      exact routedTo_of (x := (3, [])) hmethod (by decide) (by decide)
        (by rw [hurl]; decide +kernel) rfl fun _ _ _ _ _ => rfl
  | @get o hmethod hp hsome hslash =>
      rw [hp] at hurl
      have hid : o.val.toList ≠ [] := fun h => hsome (String.toList_inj.mp h)
      have hfind := find_get hid hslash
      rw [← hurl, String.ofList_toList] at hfind
      exact routedTo_of hmethod (by decide) (by decide) hfind rfl fun params hparams _ _ _ => by
        rw [params_one hparams]
        rfl
  | @delete o hmethod hp hsome hslash =>
      rw [hp] at hurl
      have hid : o.val.toList ≠ [] := fun h => hsome (String.toList_inj.mp h)
      have hfind := find_delete hid hslash
      rw [← hurl, String.ofList_toList] at hfind
      exact routedTo_of hmethod (by decide) (by decide) hfind rfl fun params hparams _ _ _ => by
        rw [params_one hparams]
        rfl
  | listAll hmethod hp hquery =>
      have hstatus : (requestOf (m.request start) hraw).urlParam "status" = none := by
        rw [requestOf_urlParam [] hraw (by decide)]
        show ((QueryString.ofUrl [] m.rawUrl true).value "status".toList).map String.ofList = none
        rw [Message.rawUrl, hquery, hp]
        decide +kernel
      rw [hp] at hurl
      exact routedTo_of (x := (5, [])) hmethod (by decide) (by decide)
        (by rw [hurl]; decide +kernel) rfl fun _ _ _ _ _ => by
          unfold handleRule
          rw [hstatus]
  | @list ps hmethod hp hquery hsome hroom =>
      have hstatus : (requestOf (m.request start) hraw).urlParam "status"
          = (ps.find? (·.key = "status".toList)).map
              fun p => String.ofList (QueryString.cut p.value) := by
        have hplain : QueryString.Plain "status".toList := by
          simp [QueryString.Plain, QueryString.qsIsQsChr]
        have hin : ∀ c ∈ m.path, QueryString.inPath c = true ∧ c ≠ '\x00' := by
          rw [hp]
          simp [QueryString.inPath]
        have hwire : m.rawUrl = m.path ++ '?' :: QueryString.Sent.query ps := by
          rw [Message.rawUrl, hquery]
          rfl
        rw [requestOf_urlParam [] hraw hplain]
        show ((QueryString.ofUrl [] m.rawUrl true).value _).map String.ofList = _
        rw [QueryString.value_url [] _ hplain, hwire, QueryString.params_sent hin hsome hroom,
          List.find?_map, Option.map_map, Option.map_map]
        rfl
      rw [hp] at hurl
      exact routedTo_of (x := (5, [])) hmethod (by decide) (by decide)
        (by rw [hurl]; decide +kernel) rfl fun _ _ _ _ _ => by
          unfold handleRule
          rw [hstatus]

/-! ## §5. Connections. -/

/-- A request of a client that wants this call. -/
structure Asking where
  message : Message
  call : OrderCall
  valid : message.Valid
  asks : Asks message call

/-- The request that is handed on leads to the call. -/
def Serves (raw : RawRequest) (a : Asking) : Prop :=
  ∃ hraw : WellFormed raw, RoutedTo (requestOf raw hraw) a.call

/-- What a connection makes of the request that is handed on. -/
def Delivers (raw : RawRequest) (a : Asking) : Prop :=
  ∃ hraw : WellFormed raw, Handles (requestOf raw hraw) a.call

theorem Serves.delivers {raw : RawRequest} {a : Asking} (h : Serves raw a) : Delivers raw a := by
  obtain ⟨hraw, hrouted⟩ := h
  exact ⟨hraw, hrouted.handles⟩

theorem Serves.isRouted {raw : RawRequest} {a : Asking} (h : Serves raw a) :
    isRouted raw.method raw.url = true := by
  obtain ⟨hraw, hrouted⟩ := h
  exact hrouted.isRouted

/-- The parser finds the end of the path in the first request of a read, and in any other
    that has no query string. -/
theorem url_eq_path {m : Message} {start : Option Nat} (h : start = none ∨ m.query = none) :
    m.url (m.begins start) = m.path := by
  unfold Message.url
  cases hquery : m.query with
  | none => rfl
  | some q =>
      obtain rfl : start = none := h.resolve_right (by rw [hquery]; exact Option.some_ne_none q)
      dsimp only
      rw [Message.rawUrl, Message.begins, Option.elim_none, Nat.zero_add, List.take_left]

/-- **A call that is sent is served.** -/
theorem Asking.serves (a : Asking) {start : Option Nat}
    (h : start = none ∨ a.message.query = none) :
    Serves (a.message.request (a.message.begins start)) a :=
  ⟨wellFormed_request a.valid _, a.asks.routedTo (url_eq_path h) _⟩

/-- Behind another request nobody may have a query string. -/
theorem requests_serve_behind (start : Nat) {as : List Asking}
    (hquery : ∀ a ∈ as, a.message.query = none) :
    List.Forall₂ Serves (requests (some start) (as.map Asking.message)) as := by
  induction as generalizing start with
  | nil => exact .nil
  | cons a as ih =>
      exact .cons (a.serves (.inr (hquery a List.mem_cons_self)))
        (ih _ fun b hb => hquery b (List.mem_cons_of_mem _ hb))

/-- The calls of a read, one after the other. -/
theorem requests_serve {as : List Asking} (hquery : ∀ a ∈ as.tail, a.message.query = none) :
    List.Forall₂ Serves (requests none (as.map Asking.message)) as := by
  cases as with
  | nil => exact .nil
  | cons a as => exact .cons (a.serves (.inl rfl)) (requests_serve_behind _ hquery)

/-- Those of all reads. -/
theorem reads_serve {reads : List (List Asking)}
    (hquery : ∀ as ∈ reads, ∀ a ∈ as.tail, a.message.query = none) :
    List.Forall₂ Serves ((reads.map (·.map Asking.message)).flatMap (requests none))
      reads.flatten := by
  induction reads with
  | nil => exact .nil
  | cons as reads ih =>
      rw [List.map_cons, List.flatMap_cons, List.flatten_cons]
      exact List.rel_append (requests_serve (hquery as List.mem_cons_self))
        (ih fun bs hbs => hquery bs (List.mem_cons_of_mem _ hbs))

/-- **Every call that a client asks for gets to its handler's rule**: of the requests it
    writes onto a new connection, any number in each read and each of them whole in one read,
    the parser hands on one after the other, and with each of them the connection enters
    `handle` with the rule of the call and its argument.  Behind another request of its read
    a request may have no query string; and the service reads on as long as it has not closed
    the connection, as it does behind a request that does not keep it alive. -/
theorem sent_calls_handled (buffer : Nat) (reads : List (List Asking))
    (hquery : ∀ as ∈ reads, ∀ a ∈ as.tail, a.message.query = none) :
    ∃ h raws, receive isRouted buffer {} (reads.map (·.flatMap (·.message.wire)))
        = .ok h (raws.map .handled)
      ∧ List.Forall₂ Delivers raws reads.flatten := by
  have hserves := reads_serve hquery
  have hvalid : ∀ ms ∈ reads.map (·.map Asking.message), ∀ m ∈ ms, m.Valid := by
    intro ms hms m hm
    obtain ⟨as, -, rfl⟩ := List.mem_map.mp hms
    obtain ⟨a, -, rfl⟩ := List.mem_map.mp hm
    exact a.valid
  have hrouted : ∀ ms ∈ reads.map (·.map Asking.message), ∀ req ∈ requests none ms,
      isRouted req.method req.url = true := by
    intro ms hms req hreq
    have hall := (List.forall₂_and_left _ _).mp (hserves.imp fun raw a hs => ⟨hs.isRouted, hs⟩)
    exact hall.1 req (List.mem_flatMap.mpr ⟨ms, hms, hreq⟩)
  obtain ⟨h, hreceive⟩ := @receive_idle isRouted buffer _ _ idle_new hvalid hrouted
  refine ⟨h, _, ?_, hserves.imp fun _ _ hs => hs.delivers⟩
  rw [← hreceive, List.map_map]
  congr 2
  funext as
  simp [List.flatMap_map]

/-- A host and the key. -/
def sampleFields : List Field :=
  [⟨"Host".toList, "a".toList⟩, ⟨"Authorization".toList, "1234567".toList⟩]

/-- `GET /order/list?st%61tus=PA%49D`. -/
def sampleListing : Asking where
  message :=
    { method := .get, path := "/order/list".toList
      query := some (QueryString.Sent.query [QueryString.sampleSent])
      fields := sampleFields }
  call := .listOrders (some "PAID")
  valid := by decide
  asks := .list rfl rfl rfl (List.cons_ne_nil QueryString.sampleSent []) (by decide)

/-- `GET /order/get/ORD1`. -/
def sampleFetch : Asking where
  message := { method := .get, path := "/order/get/ORD1".toList, fields := sampleFields }
  call := .getOrder ⟨"ORD1", by decide⟩
  valid := by decide
  asks := .get rfl rfl (by decide) (by decide)

/-- Two calls in one read, and one in the next. -/
theorem sent_calls_handled_pipelined :
    (∀ as ∈ [[sampleListing, sampleFetch], [sampleFetch]], ∀ a ∈ as.tail,
      a.message.query = none) ∧
    ∃ h raws, receive isRouted 1000 {}
        ([[sampleListing, sampleFetch], [sampleFetch]].map (·.flatMap (·.message.wire)))
        = .ok h (raws.map .handled)
      ∧ List.Forall₂ Delivers raws [sampleListing, sampleFetch, sampleFetch] := by
  have hquery : ∀ as ∈ [[sampleListing, sampleFetch], [sampleFetch]], ∀ a ∈ as.tail,
      a.message.query = none := by simp [sampleFetch]
  exact ⟨hquery, sent_calls_handled 1000 _ hquery⟩

/-! ## §6. Static files. -/

/-- The service on a file system: the route for static files looks up sanitized paths. -/
def Service.onFiles (svc : Service) (files : String → Option StaticFile) : Service :=
  { svc with staticFile := fun path => files (String.ofList (staticPath path.toList)) }

/-- **No file outside the directory is ever looked up**: on file systems that agree about
    the files under `static`, their headers and their contents, a connection does the same
    with any requests and gives the same answers.  A file system separates by slashes, or by
    backslashes too. -/
theorem serve_confined (svc : Service) {sep : Char → Bool}
    (hsep : ∀ c, sep c = true → isSlash c = true) (hslash : sep '/' = true)
    {files files' : String → Option StaticFile}
    (hagree : ∀ file, Under sep file.toList → files file = files' file) (c : ConnState)
    (vs : List Visit) : serve (svc.onFiles files) c vs = serve (svc.onFiles files') c vs := by
  have hsame : svc.onFiles files = svc.onFiles files' := by
    unfold Service.onFiles
    congr 1
    funext path
    refine hagree _ ?_
    rw [String.toList_ofList]
    exact static_path_stays path.toList hsep hslash
  rw [hsame]

/-- A file of passwords, and nothing else. -/
def passwordFile (file : String) : Option StaticFile :=
  if file = "/etc/passwd" then some ⟨[], "root:x:0:0:root:/root:/bin/sh"⟩ else none

/-- `GET /static/../../etc/passwd`. -/
def passwordRequest : Request where
  method := .get
  url := "/static/../../etc/passwd"
  urlNoNul := by decide

/-- A file outside the directory, and a request for it. -/
theorem serve_confined_passwd :
    (∀ file, Under (· = '/') file.toList → passwordFile file = none) ∧
    serve (sampleService.onFiles passwordFile) {} [⟨passwordRequest, {}⟩]
      = serve (sampleService.onFiles fun _ => none) {} [⟨passwordRequest, {}⟩] := by
  have hsep : ∀ c, decide (c = '/') = true → isSlash c = true := by
    intro c hc
    rw [of_decide_eq_true hc]
    rfl
  have hnone : ∀ file, Under (· = '/') file.toList → passwordFile file = none := by
    intro file hunder
    unfold passwordFile
    refine if_neg fun hfile => ?_
    subst hfile
    exact absurd (hunder.relative '/' rfl) (by decide)
  exact ⟨hnone, serve_confined sampleService hsep rfl hnone {} _⟩

end OrderApi.Server
