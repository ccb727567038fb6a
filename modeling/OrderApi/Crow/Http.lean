/-
  OrderApi.Crow.Http
  ──────────────────
  **REQUESTS AND RESPONSES** (`crow::request`, `crow::response`).

  A response object outlives the request it answers: the connection owns one
  and moves new contents into it (`assign`), so the flags that the move leaves
  alone (`skipBody`, `manualLengthHeader`) are part of the model.
-/
import OrderApi.Crow.Json

namespace OrderApi.Crow

/-! ## §1. Methods. -/

/-- `crow::HTTPMethod`, in the order of the enumeration. -/
inductive HttpMethod where
  | delete | get | head | post | put
  | connect | options | trace
  | patch | purge
  | copy | lock | mkcol | move | propfind | proppatch | search | unlock
  | bind | rebind | unbind | acl
  | report | mkactivity | checkout | merge
  | msearch | notify | subscribe | unsubscribe
  | mkcalendar
  | link | unlink
  | source
  deriving DecidableEq

/-- Every method below `InternalMethodCount`, in index order. -/
def HttpMethod.all : List HttpMethod :=
  [.delete, .get, .head, .post, .put, .connect, .options, .trace, .patch, .purge, .copy, .lock,
    .mkcol, .move, .propfind, .proppatch, .search, .unlock, .bind, .rebind, .unbind, .acl, .report,
    .mkactivity, .checkout, .merge, .msearch, .notify, .subscribe, .unsubscribe, .mkcalendar,
    .link, .unlink, .source]

/-- `crow::method_name`. -/
def HttpMethod.name : HttpMethod → String
  | .delete => "DELETE" | .get => "GET" | .head => "HEAD" | .post => "POST" | .put => "PUT"
  | .connect => "CONNECT" | .options => "OPTIONS" | .trace => "TRACE"
  | .patch => "PATCH" | .purge => "PURGE"
  | .copy => "COPY" | .lock => "LOCK" | .mkcol => "MKCOL" | .move => "MOVE"
  | .propfind => "PROPFIND" | .proppatch => "PROPPATCH" | .search => "SEARCH"
  | .unlock => "UNLOCK" | .bind => "BIND" | .rebind => "REBIND" | .unbind => "UNBIND"
  | .acl => "ACL"
  | .report => "REPORT" | .mkactivity => "MKACTIVITY" | .checkout => "CHECKOUT"
  | .merge => "MERGE"
  | .msearch => "M-SEARCH" | .notify => "NOTIFY" | .subscribe => "SUBSCRIBE"
  | .unsubscribe => "UNSUBSCRIBE"
  | .mkcalendar => "MKCALENDAR"
  | .link => "LINK" | .unlink => "UNLINK"
  | .source => "SOURCE"

/-! ## §2. Headers. -/

/-- `ci_map`: a `std::unordered_multimap` with case-insensitive keys, as the list of its
    pairs in the order in which they were emplaced. -/
abbrev Headers := List (String × String)

/-- `ci_key_eq`. -/
def ciEq (a b : String) : Bool := a.toList.map Char.toLower = b.toList.map Char.toLower

/-- `headers.count(key)`, as a test. -/
def Headers.has (hs : Headers) (key : String) : Bool := hs.any (fun h => ciEq h.1 key)

/-- `crow::get_header_value`: the value found, or the empty string.  Of several pairs with
    equal keys the `find` of the `unordered_multimap` comes to the one emplaced last. -/
def getHeaderValue (hs : Headers) (key : String) : String :=
  match hs.findRev? (fun h => ciEq h.1 key) with
  | some h => h.2
  | none => ""

/-- The headers under a key. -/
def Headers.named (hs : Headers) (key : String) : Headers := hs.filter (fun h => ciEq h.1 key)

theorem ciEq_self (a : String) : ciEq a a = true := by simp [ciEq]

theorem ciEq_trans {a b c : String} (h : ciEq a b = true) (h' : ciEq a c = true) :
    ciEq b c = true := by
  simp only [ciEq, decide_eq_true_eq] at h h' ⊢
  rw [← h, h']

/-! ## §3. Requests. -/

/-- A byte string without a NUL. -/
def NoNul (s : String) : Prop := '\x00' ∉ s.toList

instance (s : String) : Decidable (NoNul s) := inferInstanceAs (Decidable (_ ∉ _))

/-- A request as the HTTP parser delivers it.  The parser refuses a URL with a
    NUL in it, so the path carries that fact. -/
structure Request where
  method : HttpMethod
  /-- `req.url`: the path, without the query string. -/
  url : String
  urlNoNul : NoNul url
  /-- The pairs of `req.url_params`. -/
  urlParams : List (String × String) := []
  headers : Headers := []
  body : String := ""
  httpMajor : Nat := 1
  httpMinor : Nat := 1
  keepAlive : Bool := true
  closeConnection : Bool := false
  upgrade : Bool := false
  deriving DecidableEq

/-- `req.url_params.get(name)`: the first value, if any. -/
def Request.urlParam (req : Request) (name : String) : Option String :=
  (req.urlParams.find? (fun p => p.1 = name)).map Prod.snd

/-! ## §4. Responses. -/

/-- `crow::response`. -/
structure Response where
  code : Int := 200
  body : String := ""
  headers : Headers := []
  completed : Bool := false
  skipBody : Bool := false
  manualLengthHeader : Bool := false
  /-- The contents of the file `file_info` names, which `do_write_static` sends. -/
  file : Option String := none
  deriving DecidableEq

namespace Response

/-- `response::set_header`. -/
def setHeader (res : Response) (key value : String) : Response :=
  { res with headers := res.headers.filter (fun h => !ciEq h.1 key) ++ [(key, value)] }

/-- `response(int code)`. -/
def ofCode (code : Int) : Response := { code := code }

/-- `response(std::string body)`. -/
def ofBody (body : String) : Response := { body := body }

/-- `response(int code, returnable& value)` for a `wvalue` dumped to `body`. -/
def ofJson (code : Int) (body : String) : Response :=
  ({ code := code, body := body } : Response).setHeader "Content-Type" "application/json"

/-- `response& operator=(response&& r)`: what the move leaves alone stays. -/
def assign (res r : Response) : Response :=
  { res with
    code := r.code, body := r.body, headers := r.headers, completed := r.completed, file := r.file }

/-- `response::clear`. -/
def clear (res : Response) : Response :=
  { res with code := 200, body := "", headers := [], completed := false, file := none }

/-- `response::write`. -/
def write (res : Response) (part : String) : Response := { res with body := res.body ++ part }

/-- The part of `response::end` before the completion handler: set the flag,
    and turn a HEAD answer into its length. -/
def finish (res : Response) : Response :=
  if res.completed then res
  -- `skip_body` is set for a HEAD
  else if res.skipBody then
    { ({ res with completed := true }.setHeader "Content-Length" (toString res.body.length)) with
      body := "", manualLengthHeader := true }
  else { res with completed := true }

@[simp] theorem finish_completed (res : Response) : res.finish.completed = true := by
  unfold finish
  split
  · assumption
  · split <;> rfl

@[simp] theorem finish_code (res : Response) : res.finish.code = res.code := by
  unfold finish
  split
  · rfl
  · split <;> rfl

@[simp] theorem finish_skipBody (res : Response) : res.finish.skipBody = res.skipBody := by
  unfold finish
  split
  · rfl
  · split <;> rfl

/-- Unless it answers a HEAD, `end` leaves body and headers alone. -/
theorem finish_plain {res : Response} (h : res.skipBody = false) :
    res.finish.body = res.body ∧ res.finish.headers = res.headers := by
  unfold finish
  split
  · exact ⟨rfl, rfl⟩
  · rw [if_neg (by simp [h])]
    exact ⟨rfl, rfl⟩

theorem named_setHeader (res : Response) (key value : String) :
    (res.setHeader key value).headers.named key = [(key, value)] := by
  unfold setHeader Headers.named
  simp [List.filter_append, List.filter_filter, ciEq_self]

/-- Other names are left alone. -/
theorem named_setHeader_other {key key' : String} (hne : ciEq key' key = false) (res : Response)
    (value : String) : (res.setHeader key' value).headers.named key = res.headers.named key := by
  unfold setHeader Headers.named
  -- a header under `key` is not one under `key'`
  have hkeep : ∀ h : String × String, (ciEq h.1 key && !ciEq h.1 key') = ciEq h.1 key := by
    intro h
    cases hkey : ciEq h.1 key with
    | false => rfl
    | true =>
        cases hkey' : ciEq h.1 key' with
        | false => rfl
        | true =>
            rw [ciEq_trans hkey' hkey] at hne
            cases hne
  simp [List.filter_append, List.filter_filter, hkeep, hne]

end Response

end OrderApi.Crow
