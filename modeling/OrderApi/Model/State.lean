/-
  OrderApi.Model.State
  ────────────────────
  **WHAT THE REQUESTS SHARE.**

  The `orders` table behind the one SQLite connection `db`, the Redis server,
  the atomics of `metrics.h` and `service_state.h`, and a clock.  `Env` collects
  what is fixed after startup or lies outside the repository: the JSON reader
  and writer, `strftime`, the definition of `is_valid_order_no` the linker
  picked, whether `redis` is null, and the configuration.
-/
import OrderApi.Lib.Keyed
import OrderApi.Crow.Http
import Mathlib.Algebra.Group.Int.Defs
import Mathlib.Data.Int.Basic
import Mathlib.Logic.Function.Basic
import Mathlib.Data.List.TakeWhile

namespace OrderApi.Model

open OrderApi.Lib
open OrderApi.Crow

/-! ## §1. The orders table. -/

/-- A row of `orders`.  `rowid` is SQLite's own. -/
structure Row where
  rowid : Nat
  orderNo : String
  amount : Double
  status : String
  createdAt : Int
  paidAt : Int
  deriving DecidableEq

/-- The `orders` table: `order_no TEXT PRIMARY KEY`. -/
abbrev Table := Keyed Row.orderNo

namespace Table

/-- The rowid SQLite gives to the next row: one more than the largest in use. -/
def nextRowid (t : Table) : Nat := (t.rows.map Row.rowid).foldr max 0 + 1

/-- `INSERT INTO orders (...) VALUES (?, ?, ?, ?, ?)`; `none` is the primary-key
    conflict. -/
def insertOrder (t : Table) (orderNo : String) (amount : Double) (createdAt : Int) :
    Option Table :=
  t.insert? { rowid := t.nextRowid, orderNo, amount, status := "PENDING", createdAt, paidAt := 0 }

/-- A row after `SET status = 'PAID', paid_at = ?`. -/
def markPaid (now : Int) (r : Row) : Row := { r with status := "PAID", paidAt := now }

/-- `UPDATE orders SET status = 'PAID', paid_at = ? WHERE order_no = ?`. -/
def updatePaid (t : Table) (orderNo : String) (now : Int) : Table :=
  t.modify orderNo (markPaid now) (fun _ => rfl)

/-- `DELETE FROM orders WHERE order_no = ?`. -/
def deleteOrder (t : Table) (orderNo : String) : Table := t.erase orderNo

/-- The next row of a scan in rowid order that stands at `cursor`, of the rows
    with a given status or of all rows. -/
def nextRow (t : Table) (status : Option String) (cursor : Nat) : Option Row :=
  t.rows.find? (fun r => cursor < r.rowid && status.all (r.status = ·))

/-- The new row is PENDING, with a rowid of its own; the others are as before. -/
theorem find_insertOrder {t t' : Table} {o : String} {a : Double} {c : Int}
    (h : t.insertOrder o a c = some t') (k : String) :
    t'.find k = if o = k then
      some { rowid := t.nextRowid, orderNo := o, amount := a, status := "PENDING",
             createdAt := c, paidAt := 0 } else t.find k :=
  Keyed.find_insert? h k

/-- An INSERT fails on an order number that is there. -/
theorem insertOrder_eq_none {t : Table} {o : String} {a : Double} {c : Int} :
    t.insertOrder o a c = none ↔ ∃ r, t.find o = some r :=
  Keyed.insert?_eq_none

/-- One that succeeds found none. -/
theorem find_none_of_insertOrder {t t' : Table} {o : String} {a : Double} {c : Int}
    (h : t.insertOrder o a c = some t') : t.find o = none := by
  cases hf : t.find o with
  | none => rfl
  | some r =>
      rw [insertOrder_eq_none.mpr ⟨r, hf⟩] at h
      cases h

theorem find_updatePaid (t : Table) (o : String) (now : Int) (k : String) :
    (t.updatePaid o now).find k = if k = o then (t.find o).map (markPaid now) else t.find k :=
  Keyed.find_modify t o _ _ k

theorem find_deleteOrder (t : Table) (o k : String) :
    (t.deleteOrder o).find k = if k = o then none else t.find k :=
  Keyed.find_erase t o k

/-- A payment gives no row another rowid. -/
theorem nextRowid_updatePaid (t : Table) (o : String) (now : Int) :
    (t.updatePaid o now).nextRowid = t.nextRowid := by
  unfold nextRowid
  -- the UPDATE leaves every rowid alone
  congr 2
  show (t.rows.map _).map Row.rowid = _
  rw [List.map_map]
  refine List.map_congr_left fun r _ => ?_
  simp only [Function.comp_apply]
  split <;> rfl

/-- An INSERT under another key does not see the UPDATE. -/
theorem insertOrder_updatePaid {t t' : Table} {o k : String} {a : Double} {c : Int} (hne : o ≠ k)
    (n : Int) (h : t.insertOrder o a c = some t') :
    (t.updatePaid k n).insertOrder o a c = some (t'.updatePaid k n) := by
  unfold insertOrder
  rw [nextRowid_updatePaid]
  exact Keyed.insert?_modify hne _ _ h

/-- The later of two payments of a row is the one that stays. -/
theorem updatePaid_self (t : Table) (k : String) (n m : Int) :
    (t.updatePaid k n).updatePaid k m = t.updatePaid k m :=
  Keyed.modify_modify_self t k _ _ _ _ fun _ => rfl

theorem updatePaid_comm (t : Table) {k k' : String} (hne : k ≠ k') (n m : Int) :
    (t.updatePaid k n).updatePaid k' m = (t.updatePaid k' m).updatePaid k n :=
  Keyed.modify_comm t hne _ _ _ _

theorem deleteOrder_updatePaid (t : Table) (k o : String) (n : Int) :
    (t.updatePaid k n).deleteOrder o = (t.deleteOrder o).updatePaid k n :=
  Keyed.erase_modify t k o _ _

theorem updatePaid_of_find_none {t : Table} {k : String} (n : Int) (h : t.find k = none) :
    t.updatePaid k n = t :=
  Keyed.modify_of_find_none _ _ h

theorem deleteOrder_of_find_none {t : Table} {k : String} (h : t.find k = none) :
    t.deleteOrder k = t :=
  Keyed.erase_of_find_none h

end Table

/-- There is a row `k`. -/
def Present (k : String) (t : Table) : Prop := (t.find k).isSome = true

/-- The row `k` is there and not PAID. -/
def UnpaidRow (k : String) (t : Table) : Prop := ∃ r, t.find k = some r ∧ r.status ≠ "PAID"

/-- The row `k` is there and PAID. -/
def PaidRow (k : String) (t : Table) : Prop := ∃ r, t.find k = some r ∧ r.status = "PAID"

theorem present_of_paidRow {k : String} {t : Table} (h : PaidRow k t) : Present k t := by
  obtain ⟨r, hr, -⟩ := h
  simp [Present, hr]

theorem present_of_unpaidRow {k : String} {t : Table} (h : UnpaidRow k t) : Present k t := by
  obtain ⟨r, hr, -⟩ := h
  simp [Present, hr]

/-- A row is one of the two. -/
theorem paidRow_or_unpaidRow {k : String} {t : Table} (h : Present k t) :
    PaidRow k t ∨ UnpaidRow k t := by
  obtain ⟨r, hr⟩ := Option.isSome_iff_exists.mp h
  by_cases hst : r.status = "PAID"
  · exact .inl ⟨r, hr, hst⟩
  · exact .inr ⟨r, hr, hst⟩

/-! ## §2. Redis. -/

/-- A string value with its time to live. -/
structure Entry where
  payload : String
  /-- The moment (in ms) from which the entry is gone. -/
  expires : Int
  deriving DecidableEq

/-- The keys of the Redis server. -/
abbrev Cache := String → Option Entry

/-- `GET key` at a moment. -/
def Cache.get (c : Cache) (clock : Int) (key : String) : Option String :=
  match c key with
  | some e => if clock < e.expires then some e.payload else none
  | none => none

/-- What Redis answers has not expired. -/
theorem Cache.get_eq_some {c : Cache} {clock : Int} {key payload : String} :
    c.get clock key = some payload ↔
      ∃ e, c key = some e ∧ clock < e.expires ∧ e.payload = payload := by
  unfold Cache.get
  cases c key with
  | none => simp
  | some e => by_cases h : clock < e.expires <;> simp [h]

/-! ## §3. The atomics. -/

/-- `fetch_add(1)` on an `std::atomic<int>`: two's complement arithmetic in 32 bits. -/
def inc32 (x : Int) : Int := Int.bmod (x + 1) (2 ^ 32)

/-- `fetch_sub(1)`. -/
def dec32 (x : Int) : Int := Int.bmod (x - 1) (2 ^ 32)

/-- The number is one of an `int`. -/
def IsInt32 (x : Int) : Prop := -2 ^ 31 ≤ x ∧ x < 2 ^ 31

instance (x : Int) : Decidable (IsInt32 x) := inferInstanceAs (Decidable (_ ∧ _))

theorem bmod_of_isInt32 {x : Int} (h : IsInt32 x) : Int.bmod x (2 ^ 32) = x := by
  unfold IsInt32 at h
  apply Int.bmod_eq_of_le_mul_two
  · omega
  · omega

/-- A sum that an `int` can hold is the one that is stored. -/
theorem inc32_exact {x : Int} (h : IsInt32 (x + 1)) : inc32 x = x + 1 := bmod_of_isInt32 h

/-- So it is with a difference. -/
theorem dec32_exact {x : Int} (h : IsInt32 (x - 1)) : dec32 x = x - 1 := bmod_of_isInt32 h

/-- The counters of `metrics.h`. -/
structure Metrics where
  totalRequests : Int := 0
  ordersCreated : Int := 0
  ordersPaid : Int := 0
  cacheHits : Int := 0
  cacheMisses : Int := 0
  overloadRejections : Int := 0
  shutdownRejections : Int := 0
  redisErrors : Int := 0
  sqliteErrors : Int := 0
  /-- A gauge: it goes up and down with the requests being served. -/
  inFlightRequests : Int := 0
  requestDurationMsTotal : Int := 0
  requestDurationMsMax : Int := 0
  requestDurationSamples : Int := 0
  deriving DecidableEq

/-- Everything two requests can meet in. -/
structure World where
  table : Table := Keyed.empty
  /-- `sqlite3_changes(db)`: the row count of the last write, 0 if it failed. -/
  changes : Nat := 0
  cache : Cache := fun _ => none
  metrics : Metrics := {}
  shuttingDown : Bool := false
  dbReady : Bool := true
  redisAvailable : Bool := false
  /-- Time since startup, in ms. -/
  clock : Int := 0

/-! ## §4. What is fixed. -/

/-- Startup configuration and the code the service only calls. -/
structure Env where
  /-- `crow::json::load`; `none` when the error bit is set. -/
  load : String → Option RValue
  /-- `std::sort` on the members of an object. -/
  memberSort : MemberSort := .insertion
  /-- `wvalue::dump`. -/
  dump : WValue → String
  /-- `strftime(.., "%Y-%m-%d %H:%M:%S", localtime(&t))`. -/
  strftime : Int → String
  /-- The definition of `is_valid_order_no` that got linked. -/
  isValidOrderNo : RValue → Bool
  /-- `redis != nullptr`. -/
  redis : Bool
  cacheTtlSeconds : Int
  apiKey : String
  maxInflightRequests : Int

/-- `std::string(s.c_str())`: what `sqlite3_bind_text(.., -1, ..)` binds. -/
def cStr (s : String) : String := String.ofList (s.toList.takeWhile (· ≠ '\x00'))

/-- A string without a NUL is bound whole. -/
theorem cStr_eq_self {s : String} (h : NoNul s) : cStr s = s := by
  have htake : s.toList.takeWhile (· ≠ '\x00') = s.toList := by
    rw [List.takeWhile_eq_self_iff]
    intro c hc
    have : c ≠ '\x00' := fun he => h (he ▸ hc)
    simpa using this
  rw [cStr, htake, String.ofList_toList]

/-- `format_time`. -/
def formatTime (env : Env) (t : Int) : String := if t = 0 then "N/A" else env.strftime t

/-- `json_error`. -/
def jsonError (env : Env) (code : Int) (message : String) : Response :=
  Response.ofJson code (env.dump (.object [("error", .str message)]))

@[simp] theorem jsonError_code (env : Env) (code : Int) (message : String) :
    (jsonError env code message).code = code := rfl

/-- `service_state::is_probe_path`. -/
def isProbePath (path : String) : Bool :=
  path = "/healthcheck" || path = "/readiness" || path = "/metrics"

end OrderApi.Model
