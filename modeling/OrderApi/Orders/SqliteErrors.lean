/-
  OrderApi.Orders.SqliteErrors
  ────────────────────────────
  **WHAT BECOMES OF A FAILED SQLITE CALL.**

  A prepare that fails, and a step of the INSERT or the UPDATE that fails, is
  counted in `sqlite_errors` and answered with 500.  A step of a SELECT or of the
  DELETE is compared with the one code the handler hopes for, and every other code
  is taken for "no row": `get_order`, `pay_order` and `delete_order` answer 404,
  `list_orders` ends its loop and answers with the rows it has so far.

  `undisguised_iff` says for every request, every table and every sequence of
  return codes that this is the whole list.  The argument runs the handler
  forward, call by call, with the number of failed calls at its side
  (`EndsWith`); the loop of `list_orders` is an induction on the rows ahead of
  the cursor.
-/
import OrderApi.Orders.Solo
import Mathlib.Data.List.Sort

namespace OrderApi.Orders

open OrderApi.Lib
open OrderApi.Crow
open OrderApi.Model

/-! ## §1. Counting the failed calls. -/

/-- The call at this point returns an error code: other than `SQLITE_OK` from a
    prepare, other than `SQLITE_ROW` and `SQLITE_DONE` from a step. -/
def callFails (out : Outcome) : Pc → World → Bool
  | .insertStep o a n, w => out ≠ .ok || (w.table.insertOrder (cStr o) a n).isNone
  | pc, _ => callsSqlite pc && out ≠ .ok

/-- A request on its way, with the number of its SQLite calls that failed. -/
structure Tally where
  flight : Flight
  failed : Nat

/-- One call, counted. -/
def Tally.advance (env : Env) (f : Fate) (x : Tally) : Tally where
  flight := Orders.advance env f x.flight
  failed := x.failed + (callFails (f.next x.flight) x.flight.pc x.flight.world).toNat

/-- From `x` on, the request comes to an answer with a property of the answer,
    the world it leaves and the number of failed calls. -/
def EndsWith (env : Env) (f : Fate) (x : Tally) (Q : Reply → World → Nat → Prop) : Prop :=
  ∃ n reply, ((Tally.advance env f)^[n] x).flight.pc = .done reply
    ∧ Q reply ((Tally.advance env f)^[n] x).flight.world ((Tally.advance env f)^[n] x).failed

/-- The flight of a tally is the request on its way. -/
theorem tally_flight (env : Env) (f : Fate) (job : Job) (w : World) (n : Nat) :
    ((Tally.advance env f)^[n] ⟨start job w, 0⟩).flight = flight env f job w n := by
  induction n with
  | zero => rfl
  | succ n ih =>
      rw [Function.iterate_succ_apply', flight_succ, ← ih]
      rfl

/-- A handler that ends with its failed calls counted ends. -/
theorem ends_of_endsWith {env : Env} {f : Fate} {job : Job} {w : World}
    {Q : Reply → World → Nat → Prop} (h : EndsWith env f ⟨start job w, 0⟩ Q) :
    ∃ reply w' failed, Ends env f job w reply w' ∧ Q reply w' failed := by
  obtain ⟨n, reply, hpc, hQ⟩ := h
  rw [tally_flight] at hpc hQ
  exact ⟨reply, _, _, ⟨n, hpc, rfl⟩, hQ⟩

section
variable {env : Env} {f : Fate} {Q : Reply → World → Nat → Prop}

/-- Behind its reply a handler makes no call. -/
theorem advance_done (env : Env) (f : Fate) {x : Tally} {reply : Reply}
    (h : x.flight.pc = .done reply) :
    (x.advance env f).flight.pc = .done reply
      ∧ (x.advance env f).flight.world = x.flight.world
      ∧ (x.advance env f).failed = x.failed := by
  unfold Tally.advance Orders.advance
  rw [h]
  exact ⟨rfl, rfl, rfl⟩

/-- However long one waits. -/
theorem tally_done (env : Env) (f : Fate) {x : Tally} {reply : Reply}
    (h : x.flight.pc = .done reply) (n : Nat) :
    ((Tally.advance env f)^[n] x).flight.pc = .done reply
      ∧ ((Tally.advance env f)^[n] x).flight.world = x.flight.world
      ∧ ((Tally.advance env f)^[n] x).failed = x.failed := by
  induction n with
  | zero => exact ⟨h, rfl, rfl⟩
  | succ n ih =>
      obtain ⟨hpc, hworld, hfailed⟩ := ih
      rw [Function.iterate_succ_apply']
      obtain ⟨hpc', hworld', hfailed'⟩ := advance_done env f hpc
      exact ⟨hpc', hworld'.trans hworld, hfailed'.trans hfailed⟩

/-- An answered request has ended. -/
theorem endsWith_done (reply : Reply) (w : World) (s r failed : Nat) :
    EndsWith env f ⟨⟨.done reply, w, s, r⟩, failed⟩ Q ↔ Q reply w failed := by
  constructor
  · rintro ⟨n, reply', hpc, hQ⟩
    obtain ⟨hpc', hworld, hfailed⟩ :=
      tally_done env f (x := ⟨⟨.done reply, w, s, r⟩, failed⟩) rfl n
    obtain rfl := Pc.done.inj (hpc'.symm.trans hpc)
    rwa [hworld, hfailed] at hQ
  · exact fun hQ => ⟨0, reply, rfl, hQ⟩

/-- A request ends once. -/
theorem endsWith_iff {x : Tally} {P : Reply → World → Nat → Prop} (h : EndsWith env f x P) :
    ∃ reply w failed, P reply w failed ∧ ∀ Q, EndsWith env f x Q ↔ Q reply w failed := by
  obtain ⟨n, reply, hpc, hP⟩ := h
  refine ⟨reply, _, _, hP, fun Q => ⟨?_, fun hQ => ⟨n, reply, hpc, hQ⟩⟩⟩
  rintro ⟨m, reply', hpc', hQ⟩
  -- the later of the two moments is an answered request that stayed as it was
  obtain hle | hle := Nat.le_total m n
  · obtain ⟨k, rfl⟩ := Nat.exists_eq_add_of_le' hle
    rw [Function.iterate_add_apply] at hpc ⊢
    obtain ⟨hdone, hworld, hfailed⟩ := tally_done env f hpc' k
    obtain rfl := Pc.done.inj (hdone.symm.trans hpc)
    rw [hworld, hfailed]
    exact hQ
  · obtain ⟨k, rfl⟩ := Nat.exists_eq_add_of_le' hle
    rw [Function.iterate_add_apply] at hpc' hQ
    obtain ⟨hdone, hworld, hfailed⟩ := tally_done env f hpc k
    obtain rfl := Pc.done.inj (hdone.symm.trans hpc')
    rw [hworld, hfailed] at hQ
    exact hQ

/-- A request that is not answered makes its next call. -/
theorem endsWith_advance {x : Tally} (hx : ∀ reply, x.flight.pc ≠ .done reply) :
    EndsWith env f x Q ↔ EndsWith env f (x.advance env f) Q := by
  constructor
  · rintro ⟨n, reply, hpc, hQ⟩
    cases n with
    | zero => exact absurd hpc (hx reply)
    | succ n => exact ⟨n, reply, by simpa using hpc, by simpa using hQ⟩
  · rintro ⟨n, reply, hpc, hQ⟩
    exact ⟨n + 1, reply, by simpa using hpc, by simpa using hQ⟩

/-- A call to SQLite. -/
theorem endsWith_sqlite {pc : Pc} {w : World} {s r failed : Nat} (hsql : callsSqlite pc = true)
    (hredis : callsRedis pc = false) :
    EndsWith env f ⟨⟨pc, w, s, r⟩, failed⟩ Q ↔
      EndsWith env f ⟨⟨(step env (f.sqlite s) pc w).1, (step env (f.sqlite s) pc w).2, s + 1, r⟩,
        failed + (callFails (f.sqlite s) pc w).toNat⟩ Q := by
  have hnot : ∀ reply, pc ≠ .done reply := by
    rintro reply rfl
    cases hsql
  rw [endsWith_advance hnot]
  unfold Tally.advance Orders.advance Fate.next
  simp only [hredis, hsql]
  exact Iff.rfl

/-- A call to Redis. -/
theorem endsWith_redis {pc : Pc} {w : World} {s r failed : Nat} (hredis : callsRedis pc = true) :
    EndsWith env f ⟨⟨pc, w, s, r⟩, failed⟩ Q ↔
      EndsWith env f ⟨⟨(step env (f.redis r) pc w).1, (step env (f.redis r) pc w).2, s, r + 1⟩,
        failed⟩ Q := by
  have hnot : ∀ reply, pc ≠ .done reply := by
    rintro reply rfl
    cases hredis
  have hsql : callsSqlite pc = false := by
    cases pc <;> first | rfl | cases hredis
  have hfails : callFails (f.redis r) pc w = false := by
    cases pc <;> first | rfl | cases hredis
  rw [endsWith_advance hnot]
  unfold Tally.advance Orders.advance Fate.next
  simp only [hredis, hsql, hfails, if_true]
  exact Iff.rfl

/-- The entry of the handler, which calls nothing. -/
theorem endsWith_start {job : Job} {w : World} :
    EndsWith env f ⟨start job w, 0⟩ Q ↔
      EndsWith env f ⟨⟨enter env job.inp job.call, w, 0, 0⟩, 0⟩ Q :=
  endsWith_advance fun _ => Pc.noConfusion

/-- `sqlite3_changes`, which cannot fail. -/
theorem endsWith_changes {o : String} {w : World} {s r failed : Nat} :
    EndsWith env f ⟨⟨.deleteChanges o, w, s, r⟩, failed⟩ Q ↔
      if w.changes = 0 then Q (errorReply env 404 "Order not found") w failed
      else EndsWith env f ⟨⟨.deleteInvalidate o, w, s, r⟩, failed⟩ Q := by
  have hnot : ∀ reply, Pc.deleteChanges o ≠ .done reply := by
    rintro reply h
    cases h
  rw [endsWith_advance hnot]
  simp only [Tally.advance, Orders.advance, step]
  split
  · exact endsWith_done ..
  · exact Iff.rfl

/-- The prepare of a statement. -/
theorem endsWith_prepare {pc next : Pc} {w : World} {s r failed : Nat}
    (hpc : ∀ out, step env out pc w = prepare env out next w) (hsql : callsSqlite pc = true)
    (hredis : callsRedis pc = false) (hfails : ∀ out, callFails out pc w = decide (out ≠ .ok)) :
    EndsWith env f ⟨⟨pc, w, s, r⟩, failed⟩ Q ↔
      match f.sqlite s with
      | .ok => EndsWith env f ⟨⟨next, w, s + 1, r⟩, failed⟩ Q
      | .fail _ => Q (errorReply env 500 "Internal DB error") (recordSqliteFailure w)
          (failed + 1) := by
  rw [endsWith_sqlite hsql hredis, hpc, hfails]
  cases f.sqlite s with
  | ok => exact Iff.rfl
  | fail applied => exact endsWith_done ..

/-! ## §2. The property. -/

end

/-- **The property**: every failed call is counted once and answered with 500, a
    404 says that there is no such row, and a list is complete. -/
structure Undisguised (env : Env) (job : Job) (w : World) (reply : Reply) (w' : World)
    (failed : Nat) : Prop where
  counted : w'.metrics.sqliteErrors = inc32^[failed] w.metrics.sqliteErrors
  answered : 0 < failed → (Pc.done reply).answer = some 500
  missing : (Pc.done reply).answer = some 404 →
    ∀ o, (Pc.enter job.call job.inp).names env = some o → w.table.find (cStr o) = none
  complete : ∀ status, job.call = .listOrders status → (Pc.done reply).answer = some 200 →
    ∃ arr, reply = jsonReply env (listJson arr) ∧ ∀ r ∈ w.table.rows,
      (listFilter (status.getD "")).all (r.status = ·) = true → rowJson env r.orderNo r ∈ arr

/-- The request ends with this property, or it is lost on entry and makes no call. -/
def NotDisguised (env : Env) (f : Fate) (job : Job) (w : World) : Prop :=
  enter env job.inp job.call = .lost ∨ EndsWith env f ⟨start job w, 0⟩ (Undisguised env job w)

/-- The rows of a table that match a filter and lie ahead of a cursor. -/
def ahead (t : Table) (status : Option String) (cursor : Nat) : List Row :=
  t.rows.filter (fun r => cursor < r.rowid && status.all (r.status = ·))

/-- `get_order` is answered out of the cache. -/
def hitsCache (env : Env) (f : Fate) (o : String) (w : World) : Bool :=
  env.redis && f.redis 0 = .ok && (w.cache.get w.clock (cacheKey o)).isSome

/-- No step of a SELECT or of the DELETE fails that the request comes to. -/
def StepsSucceed (env : Env) (f : Fate) (job : Job) (w : World) : Prop :=
  match job.call with
  | .createOrder _ => True
  | .getOrder o => hitsCache env f o.val w = false → f.sqlite 0 = .ok → f.sqlite 1 = .ok
  | .payOrder body =>
      (∃ o, payOrderNo env body = .ok o) → f.sqlite 0 = .ok → f.sqlite 1 = .ok
  -- one step for each row, and one that says there are no more
  | .listOrders status => f.sqlite 0 = .ok →
      ∀ n ≤ (ahead w.table (listFilter (status.getD "")) 0).length, f.sqlite (n + 1) = .ok
  | .deleteOrder _ => f.sqlite 0 = .ok → f.sqlite 1 = .ok

/-- The rows stand in the order of their rowids, which are positive: the way a
    scan of SQLite finds them. -/
def InRowidOrder (t : Table) : Prop := (0 :: t.rows.map Row.rowid).Pairwise (· < ·)

section
variable {env : Env} {f : Fate} {job : Job} {w w' : World}

/-! ## §3. Answers. -/

/-- A failed call that is counted and answered with 500. -/
theorem undisguised_counted (message : String)
    (herrors : w'.metrics.sqliteErrors = w.metrics.sqliteErrors) :
    Undisguised env job w (errorReply env 500 message) (recordSqliteFailure w') 1 where
  counted := by
    show inc32 _ = inc32 _
    rw [herrors]
  answered _ := rfl
  missing h := by simp at h
  complete _ _ h := by simp at h

/-- No call failed, the answer is not 404, and the request is not a list. -/
theorem undisguised_clean {reply : Reply}
    (herrors : w'.metrics.sqliteErrors = w.metrics.sqliteErrors)
    (hreply : (Pc.done reply).answer ≠ some 404) (hlist : ∀ status, job.call ≠ .listOrders status) :
    Undisguised env job w reply w' 0 where
  counted := herrors
  answered h := absurd h (Nat.lt_irrefl 0)
  missing h := absurd h hreply
  complete status h _ := absurd h (hlist status)

/-- No call failed, and the row is missing indeed. -/
theorem undisguised_missing {message o : String}
    (herrors : w'.metrics.sqliteErrors = w.metrics.sqliteErrors)
    (hnames : (Pc.enter job.call job.inp).names env = some o)
    (hnone : w.table.find (cStr o) = none) :
    Undisguised env job w (errorReply env 404 message) w' 0 where
  counted := herrors
  answered h := absurd h (Nat.lt_irrefl 0)
  missing _ o' ho' := by
    obtain rfl := Option.some.inj (hnames.symm.trans ho')
    exact hnone
  complete _ _ h := by simp at h

/-- A failed call behind an answer that is not 500. -/
theorem not_undisguised {reply : Reply} {failed : Nat}
    (hreply : (Pc.done reply).answer ≠ some 500) :
    ¬ Undisguised env job w reply w' (failed + 1) :=
  fun h => hreply (h.answered (Nat.succ_pos failed))

theorem notDisguised_iff (hin : enter env job.inp job.call ≠ .lost) :
    NotDisguised env f job w ↔ EndsWith env f ⟨start job w, 0⟩ (Undisguised env job w) :=
  or_iff_right hin

theorem refused_not_404 {reply : Reply} (h : Refused env (.answered reply)) :
    (Pc.done reply).answer ≠ some 404 := by
  cases h with
  | message text => simp
  | thrown what => simp [Pc.answer]

/-- A request that is refused on entry makes no call. -/
theorem refused_undisguised {early : Early} (hearly : Refused env early)
    (henter : enter env job.inp job.call = early.pc)
    (hlist : ∀ status, job.call ≠ .listOrders status) : NotDisguised env f job w := by
  cases early with
  | undefined => exact .inl henter
  | answered reply =>
      have hin : enter env job.inp job.call ≠ .lost := by
        rw [henter]
        exact Pc.noConfusion
      rw [notDisguised_iff hin, endsWith_start, henter, Early.pc, endsWith_done]
      exact undisguised_clean rfl (refused_not_404 hearly) hlist

/-- Redis does not touch `sqlite_errors`. -/
theorem redisWrite_sqliteErrors (out : Outcome) {command : World → World}
    (hcommand : (command w).metrics.sqliteErrors = w.metrics.sqliteErrors) :
    (redisWrite env out command w).metrics.sqliteErrors = w.metrics.sqliteErrors :=
  redisWrite_frame env out (fun w => w.metrics.sqliteErrors) (fun _ => rfl) (fun _ => rfl) hcommand

/-! ## §4. The handlers one by one. -/

/-- How a creation of `o` ends that got past the checks of its body. -/
inductive CreateEnds (env : Env) (f : Fate) (o : String) (amount : Double) (now : Int) (w : World) :
    Reply → World → Nat → Prop where
  /-- The prepare or the step of the INSERT fails. -/
  | failed (message : String)
      (cause : f.sqlite 0 ≠ .ok ∨ f.sqlite 1 ≠ .ok ∨ w.table.insertOrder (cStr o) amount now = none)
      (w' : World) (tried : w' = w ∨ w' = w.writeFailed) :
      CreateEnds env f o amount now w (errorReply env 500 message) (recordSqliteFailure w') 1
  | committed (table : Table) (row : w.table.insertOrder (cStr o) amount now = some table) :
      CreateEnds env f o amount now w (jsonReply env (createdJson env o amount now))
        (tryCacheOrder env (f.redis 0) o (env.dump (createdJson env o amount now)) { w with
          table, changes := 1, metrics.ordersCreated := inc32 w.metrics.ordersCreated }) 0

/-- `create_order`, call by call. -/
theorem create_ends {body : String} {amount : Double} (inp : Inputs)
    (hbody : createAmount env body = .ok amount) :
    EndsWith env f ⟨start ⟨.createOrder body, inp⟩ w, 0⟩
      (CreateEnds env f (generateOrderNo inp) amount inp.now w) := by
  rw [endsWith_start]
  simp only [enter, hbody]
  rw [endsWith_prepare (fun _ => rfl) rfl rfl (fun _ => rfl)]
  cases h0 : f.sqlite 0 with
  | fail applied => exact .failed _ (.inl (by simp [h0])) _ (.inl rfl)
  | ok =>
  dsimp only
  rw [endsWith_sqlite rfl rfl]
  simp only [step, callFails]
  cases h1 : f.sqlite 1 with
  | fail applied =>
      rw [endsWith_done]
      exact .failed _ (.inr (.inl (by simp [h1]))) _ (.inr rfl)
  | ok =>
  cases hins : w.table.insertOrder (cStr (generateOrderNo inp)) amount inp.now with
  | none =>
      rw [endsWith_done]
      exact .failed _ (.inr (.inr hins)) _ (.inr rfl)
  | some table =>
      dsimp only
      rw [endsWith_redis rfl]
      simp only [step]
      rw [endsWith_done]
      exact .committed table hins

/-- **`create_order`** never disguises a failure. -/
theorem create_undisguised (body : String) (inp : Inputs) :
    NotDisguised env f ⟨.createOrder body, inp⟩ w := by
  cases hbody : createAmount env body with
  | error early =>
      have henter : enter env inp (.createOrder body) = early.pc := by simp only [enter, hbody]
      exact refused_undisguised (refuses_createAmount env body early hbody) henter (by simp)
  | ok amount =>
      obtain ⟨reply, w', failed, hends, hiff⟩ :=
        endsWith_iff (create_ends (f := f) (w := w) inp hbody)
      rw [notDisguised_iff (by simp [enter, hbody]), hiff]
      cases hends with
      | failed message cause w₀ tried =>
          rcases tried with rfl | rfl <;> exact undisguised_counted _ rfl
      | committed table row =>
          exact undisguised_clean (redisWrite_sqliteErrors _ rfl) (by simp) (by simp)

/-- How a payment of `o` ends that got past the checks of its body. -/
inductive PayEnds (env : Env) (f : Fate) (o : String) (now : Int) (w : World) :
    Reply → World → Nat → Prop where
  /-- A prepare or the step of the UPDATE fails. -/
  | failed (n : Nat) (message : String) (lt : n < 4) (fails : f.sqlite n ≠ .ok)
      (select : f.sqlite 0 = .ok → f.sqlite 1 = .ok)
      (w' : World) (tried : w' = w ∨ w' = w.writeFailed) :
      PayEnds env f o now w (errorReply env 500 message) (recordSqliteFailure w') 1
  /-- The step of the SELECT fails, which is taken for SQLITE_DONE. -/
  | disguised (prepared : f.sqlite 0 = .ok) (fails : f.sqlite 1 ≠ .ok) :
      PayEnds env f o now w (errorReply env 404 "Order not found") w 1
  | missing (select : f.sqlite 1 = .ok) (row : w.table.find (cStr o) = none) :
      PayEnds env f o now w (errorReply env 404 "Order not found") w 0
  | paid (select : f.sqlite 1 = .ok) (row : PaidRow (cStr o) w.table) :
      PayEnds env f o now w (errorReply env 400 "Already paid") w 0
  | committed (calls : ∀ n < 4, f.sqlite n = .ok) (row : UnpaidRow (cStr o) w.table)
      (amount : Double) (createdAt : Int) :
      PayEnds env f o now w (jsonReply env (paidJson env o amount createdAt now))
        (invalidateCachedOrder env (f.redis 0) o { w with
          table := w.table.updatePaid (cStr o) now
          changes := w.table.count (cStr o)
          metrics.ordersPaid := inc32 w.metrics.ordersPaid }) 0

/-- `pay_order`, call by call. -/
theorem pay_ends {body o : String} (inp : Inputs) (hbody : payOrderNo env body = .ok o) :
    EndsWith env f ⟨start ⟨.payOrder body, inp⟩ w, 0⟩ (PayEnds env f o inp.now w) := by
  rw [endsWith_start]
  simp only [enter, hbody]
  rw [endsWith_prepare (fun _ => rfl) rfl rfl (fun _ => rfl)]
  cases h0 : f.sqlite 0 with
  | fail applied => exact .failed 0 _ (by decide) (by simp [h0]) (by simp [h0]) _ (.inl rfl)
  | ok =>
  dsimp only
  rw [endsWith_sqlite rfl rfl]
  simp only [step, callFails]
  cases h1 : f.sqlite 1 with
  | fail applied =>
      rw [endsWith_done]
      exact .disguised h0 (by simp [h1])
  | ok =>
  cases hrow : w.table.find (cStr o) with
  | none =>
      rw [endsWith_done]
      exact .missing h1 hrow
  | some r =>
  dsimp only
  by_cases hstatus : r.status = "PAID"
  · rw [if_pos hstatus, endsWith_done]
    exact .paid h1 ⟨r, hrow, hstatus⟩
  rw [if_neg hstatus, endsWith_prepare (fun _ => rfl) rfl rfl (fun _ => rfl)]
  cases h2 : f.sqlite 2 with
  | fail applied => exact .failed 2 _ (by decide) (by simp [h2]) (fun _ => h1) _ (.inl rfl)
  | ok =>
  dsimp only
  rw [endsWith_sqlite rfl rfl]
  simp only [step, callFails]
  cases h3 : f.sqlite 3 with
  | fail applied =>
      rw [endsWith_done]
      exact .failed 3 _ (by decide) (by simp [h3]) (fun _ => h1) _ (.inr rfl)
  | ok =>
      dsimp only
      rw [endsWith_redis rfl]
      simp only [step]
      rw [endsWith_done]
      refine .committed ?_ ⟨r, hrow, hstatus⟩ r.amount r.createdAt
      intro n hn
      have hcases : n = 0 ∨ n = 1 ∨ n = 2 ∨ n = 3 := by omega
      rcases hcases with rfl | rfl | rfl | rfl
      · exact h0
      · exact h1
      · exact h2
      · exact h3

/-- **`pay_order`** does when the step of its SELECT fails. -/
theorem pay_undisguised_iff (body : String) (inp : Inputs) :
    NotDisguised env f ⟨.payOrder body, inp⟩ w ↔
      ((∃ o, payOrderNo env body = .ok o) → f.sqlite 0 = .ok → f.sqlite 1 = .ok) := by
  cases hbody : payOrderNo env body with
  | error early =>
      refine iff_of_true ?_ (by simp)
      have henter : enter env inp (.payOrder body) = early.pc := by simp only [enter, hbody]
      exact refused_undisguised (refuses_payOrderNo env body early hbody) henter (by simp)
  | ok o =>
      have hnames : (Pc.enter (.payOrder body) inp).names env = some o := by
        simp [Pc.names, enter, hbody, Pc.orderNo]
      obtain ⟨reply, w', failed, hends, hiff⟩ := endsWith_iff (pay_ends (f := f) (w := w) inp hbody)
      rw [notDisguised_iff (by simp [enter, hbody]), hiff]
      cases hends with
      | failed n message lt fails select w₀ tried =>
          refine iff_of_true ?_ fun _ => select
          rcases tried with rfl | rfl <;> exact undisguised_counted _ rfl
      | disguised prepared fails =>
          exact iff_of_false (not_undisguised (by simp)) fun h => fails (h ⟨o, rfl⟩ prepared)
      | missing select row =>
          exact iff_of_true (undisguised_missing rfl hnames row) fun _ _ => select
      | paid select row =>
          exact iff_of_true (undisguised_clean rfl (by simp) (by simp)) fun _ _ => select
      | committed calls row amount createdAt =>
          refine iff_of_true ?_ fun _ _ => calls 1 (by decide)
          exact undisguised_clean (redisWrite_sqliteErrors _ rfl) (by simp) (by simp)

/-- How a deletion of `o` ends. -/
inductive DeleteEnds (env : Env) (f : Fate) (o : String) (w : World) :
    Reply → World → Nat → Prop where
  | failed (fails : f.sqlite 0 ≠ .ok) :
      DeleteEnds env f o w (errorReply env 500 "Internal DB error") (recordSqliteFailure w) 1
  /-- The step of the DELETE fails. -/
  | disguised (prepared : f.sqlite 0 = .ok) (fails : f.sqlite 1 ≠ .ok) :
      DeleteEnds env f o w (errorReply env 404 "Order not found or could not delete")
        w.writeFailed 1
  | missing (prepared : f.sqlite 0 = .ok) (deleted : f.sqlite 1 = .ok)
      (row : w.table.find (cStr o) = none) (w' : World)
      (world : w' = { w with table := w.table.deleteOrder (cStr o), changes := 0 }) :
      DeleteEnds env f o w (errorReply env 404 "Order not found") w' 0
  | committed (prepared : f.sqlite 0 = .ok) (deleted : f.sqlite 1 = .ok)
      (row : Present (cStr o) w.table) :
      DeleteEnds env f o w (jsonReply env (deletedJson o))
        (invalidateCachedOrder env (f.redis 0) o { w with
          table := w.table.deleteOrder (cStr o)
          changes := w.table.count (cStr o) }) 0

/-- `delete_order`, call by call. -/
theorem delete_ends (o : PathParam) (inp : Inputs) :
    EndsWith env f ⟨start ⟨.deleteOrder o, inp⟩ w, 0⟩ (DeleteEnds env f o.val w) := by
  rw [endsWith_start]
  simp only [enter]
  rw [endsWith_prepare (fun _ => rfl) rfl rfl (fun _ => rfl)]
  cases h0 : f.sqlite 0 with
  | fail applied => exact .failed (by simp [h0])
  | ok =>
  dsimp only
  rw [endsWith_sqlite rfl rfl]
  simp only [step, callFails]
  cases h1 : f.sqlite 1 with
  | fail applied =>
      rw [endsWith_done]
      exact .disguised h0 (by simp [h1])
  | ok =>
  dsimp only
  rw [endsWith_changes]
  split
  · next hzero =>
      have hcount : w.table.count (cStr o.val) = 0 := hzero
      refine .missing h0 h1 (Keyed.count_eq_zero.mp hcount) _ ?_
      rw [hcount]
  · next hcount =>
      rw [endsWith_redis rfl]
      simp only [step]
      rw [endsWith_done]
      refine .committed h0 h1 ?_
      cases hrow : w.table.find (cStr o.val) with
      | none => exact absurd (Keyed.count_eq_zero.mpr hrow) hcount
      | some r => simp [Present, hrow]

/-- **`delete_order`** does when its step fails. -/
theorem delete_undisguised_iff (o : PathParam) (inp : Inputs) :
    NotDisguised env f ⟨.deleteOrder o, inp⟩ w ↔ (f.sqlite 0 = .ok → f.sqlite 1 = .ok) := by
  obtain ⟨reply, w', failed, hends, hiff⟩ := endsWith_iff (delete_ends (f := f) (w := w) o inp)
  rw [notDisguised_iff (by simp [enter]), hiff]
  cases hends with
  | failed fails => exact iff_of_true (undisguised_counted _ rfl) fun h => absurd h fails
  | disguised prepared fails =>
      -- "not found or could not delete"
      exact iff_of_false (not_undisguised (by simp)) fun h => fails (h prepared)
  | missing prepared deleted row w' world =>
      refine iff_of_true ?_ fun _ => deleted
      exact undisguised_missing (by rw [world]) rfl row
  | committed prepared deleted row =>
      refine iff_of_true ?_ fun _ => deleted
      exact undisguised_clean (redisWrite_sqliteErrors _ rfl) (by simp) (by simp)

/-- What `get_order` hears from the cache. -/
theorem tryGetCachedOrder_isSome (o : String) :
    (tryGetCachedOrder env (f.redis 0) o w).1.isSome = hitsCache env f o w := by
  unfold tryGetCachedOrder hitsCache
  cases env.redis with
  | false => rfl
  | true =>
      cases f.redis 0 with
      | fail applied => rfl
      | ok => cases w.cache.get w.clock (cacheKey o) <;> rfl

/-- A lookup in the cache is no failure of SQLite. -/
theorem tryGetCachedOrder_sqliteErrors (env : Env) (out : Outcome) (o : String) (w : World) :
    (tryGetCachedOrder env out o w).2.metrics.sqliteErrors = w.metrics.sqliteErrors := by
  unfold tryGetCachedOrder
  split
  · cases out with
    | ok => dsimp only; split <;> rfl
    | fail applied => rfl
  · rfl

/-- **`get_order`** does when the step of its SELECT fails. -/
theorem get_undisguised_iff (o : PathParam) (inp : Inputs) :
    NotDisguised env f ⟨.getOrder o, inp⟩ w ↔
      (hitsCache env f o.val w = false → f.sqlite 0 = .ok → f.sqlite 1 = .ok) := by
  have herrors := tryGetCachedOrder_sqliteErrors env (f.redis 0) o.val w
  have htable := tryGetCachedOrder_table env (f.redis 0) o.val w
  rw [notDisguised_iff (by simp [enter]), endsWith_start]
  simp only [enter]
  rw [endsWith_redis rfl, ← tryGetCachedOrder_isSome]
  simp only [step]
  generalize hget : tryGetCachedOrder env (f.redis 0) o.val w = answer at herrors htable ⊢
  obtain ⟨cached, w'⟩ := answer
  cases cached with
  | some payload =>
      dsimp only
      rw [endsWith_done]
      exact iff_of_true (undisguised_clean herrors (by simp [Pc.answer, Response.ofBody])
        (by simp)) (by simp)
  | none =>
      dsimp only at herrors htable ⊢
      rw [endsWith_prepare (fun _ => rfl) rfl rfl (fun _ => rfl)]
      cases h0 : f.sqlite 0 with
      | fail applied =>
          exact iff_of_true (undisguised_counted _ herrors) (by simp)
      | ok =>
          dsimp only
          rw [endsWith_sqlite rfl rfl]
          simp only [step, callFails]
          cases h1 : f.sqlite 1 with
          | fail applied =>
              -- taken for SQLITE_DONE
              rw [endsWith_done]
              exact iff_of_false (not_undisguised (by simp)) (by simp)
          | ok =>
              refine iff_of_true ?_ (fun _ _ => rfl)
              cases hrow : w'.table.find (cStr o.val) with
              | none =>
                  rw [endsWith_done]
                  exact undisguised_missing herrors rfl (htable ▸ hrow)
              | some r =>
                  rw [endsWith_done]
                  exact undisguised_clean herrors (by simp) (by simp)

/-! ## §5. The loop of `list_orders`. -/

theorem nextRow_eq_head? (t : Table) (status : Option String) (cursor : Nat) :
    t.nextRow status cursor = (ahead t status cursor).head? :=
  List.head?_filter.symm

/-- Behind the row it returned, the scan has the others ahead. -/
theorem ahead_next {t : Table} (ht : InRowidOrder t) {status : Option String} {cursor : Nat}
    {r : Row} {rest : List Row} (h : ahead t status cursor = r :: rest) :
    ahead t status r.rowid = rest := by
  have hcursor : cursor < r.rowid := by
    have hmem : r ∈ ahead t status cursor := h ▸ List.mem_cons_self
    have hp := (List.mem_filter.mp hmem).2
    simp only [Bool.and_eq_true, decide_eq_true_eq] at hp
    exact hp.1
  have hnarrow : ahead t status r.rowid
      = (ahead t status cursor).filter (fun x => r.rowid < x.rowid) := by
    unfold ahead
    rw [List.filter_filter]
    refine List.filter_congr fun x _ => ?_
    by_cases hx : r.rowid < x.rowid
    · simp [hx, hcursor.trans hx]
    · simp [hx]
  have hsorted : (r :: rest).Pairwise (fun x y => x.rowid < y.rowid) := by
    have hrows := List.pairwise_map.mp (List.pairwise_cons.mp ht).2
    exact h ▸ hrows.sublist List.filter_sublist
  rw [hnarrow, h, List.filter_cons_of_neg (by simp)]
  refine List.filter_eq_self.mpr fun x hx => ?_
  simpa using (List.pairwise_cons.mp hsorted).1 x hx

/-- The object `list_orders` writes for a row. -/
def listed (env : Env) (r : Row) : WValue := rowJson env r.orderNo r

variable {Q : Reply → World → Nat → Prop}

/-- One turn of the loop. -/
theorem endsWith_listStep (q : String) (cursor : Nat) (arr : List WValue) (s r failed : Nat) :
    EndsWith env f ⟨⟨.listStep q cursor arr, w, s, r⟩, failed⟩ Q ↔
      match f.sqlite s, (ahead w.table (listFilter q) cursor).head? with
      | .ok, some row => EndsWith env f
          ⟨⟨.listStep q row.rowid (arr ++ [listed env row]), w, s + 1, r⟩, failed⟩ Q
      | .ok, none => Q (jsonReply env (listJson arr)) w failed
      | .fail _, _ => Q (jsonReply env (listJson arr)) w (failed + 1) := by
  rw [endsWith_sqlite rfl rfl]
  simp only [step, callFails, nextRow_eq_head?]
  cases f.sqlite s with
  | fail applied => exact endsWith_done ..
  | ok =>
      cases (ahead w.table (listFilter q) cursor).head? with
      | none => exact endsWith_done ..
      | some row => exact Iff.rfl

/-- With no failing step the loop writes every row ahead of it. -/
theorem loop_complete (ht : InRowidOrder w.table) (q : String) (r failed : Nat) {rows : List Row} :
    ∀ {cursor : Nat} {arr : List WValue} {s : Nat},
      ahead w.table (listFilter q) cursor = rows → (∀ n ≤ rows.length, f.sqlite (s + n) = .ok) →
        (EndsWith env f ⟨⟨.listStep q cursor arr, w, s, r⟩, failed⟩ Q ↔
          Q (jsonReply env (listJson (arr ++ rows.map (listed env)))) w failed) := by
  induction rows with
  | nil =>
      intro cursor arr s hahead hok
      have hnow : f.sqlite s = .ok := hok 0 (Nat.zero_le _)
      rw [endsWith_listStep, hahead, hnow]
      simp
  | cons row rest ih =>
      intro cursor arr s hahead hok
      have hrest : ∀ n ≤ rest.length, f.sqlite (s + 1 + n) = .ok := by
        intro n hn
        rw [Nat.add_right_comm]
        exact hok (n + 1) (Nat.succ_le_succ hn)
      have hnow : f.sqlite s = .ok := hok 0 (Nat.zero_le _)
      rw [endsWith_listStep, hahead, hnow]
      simp only [List.head?_cons]
      rw [ih (ahead_next ht hahead) hrest, List.append_assoc]
      rfl

/-- A failing step ends the loop like the last row. -/
theorem loop_cut (ht : InRowidOrder w.table) (q : String) (r failed : Nat) {rows : List Row} :
    ∀ {cursor : Nat} {arr : List WValue} {s : Nat},
      ahead w.table (listFilter q) cursor = rows → (∃ n ≤ rows.length, f.sqlite (s + n) ≠ .ok) →
        EndsWith env f ⟨⟨.listStep q cursor arr, w, s, r⟩, failed⟩ Q →
          ∃ arr', Q (jsonReply env (listJson arr')) w (failed + 1) := by
  induction rows with
  | nil =>
      rintro cursor arr s hahead ⟨n, hn, hfail⟩ h
      obtain rfl := Nat.le_zero.mp hn
      rw [endsWith_listStep] at h
      cases hs : f.sqlite s with
      | ok => exact absurd hs hfail
      | fail applied =>
          rw [hs] at h
          exact ⟨arr, h⟩
  | cons row rest ih =>
      rintro cursor arr s hahead ⟨n, hn, hfail⟩ h
      rw [endsWith_listStep, hahead] at h
      cases hs : f.sqlite s with
      | fail applied =>
          rw [hs] at h
          exact ⟨arr, h⟩
      | ok =>
          rw [hs] at h
          -- the failing step is further on
          cases n with
          | zero => exact absurd hs hfail
          | succ n =>
              refine ih (ahead_next ht hahead) ⟨n, Nat.le_of_succ_le_succ hn, ?_⟩ h
              rwa [Nat.add_right_comm]

/-- **`list_orders`** does when one of the steps for its rows fails. -/
theorem list_undisguised_iff (ht : InRowidOrder w.table) (status : Option String) (inp : Inputs) :
    NotDisguised env f ⟨.listOrders status, inp⟩ w ↔ (f.sqlite 0 = .ok →
      ∀ n ≤ (ahead w.table (listFilter (status.getD "")) 0).length, f.sqlite (n + 1) = .ok) := by
  rw [notDisguised_iff (by simp [enter]), endsWith_start]
  simp only [enter]
  rw [endsWith_prepare (fun _ => rfl) rfl rfl (fun _ => rfl)]
  cases h0 : f.sqlite 0 with
  | fail applied => exact iff_of_true (undisguised_counted _ rfl) (by simp)
  | ok =>
      dsimp only
      by_cases hok : ∀ n ≤ (ahead w.table (listFilter (status.getD "")) 0).length,
          f.sqlite (n + 1) = .ok
      · refine iff_of_true ?_ (fun _ => hok)
        rw [loop_complete ht _ _ _ rfl fun n hn => Nat.add_comm 1 n ▸ hok n hn]
        refine ⟨rfl, fun h => absurd h (Nat.lt_irrefl 0), fun h => by simp at h, ?_⟩
        intro status' hstatus _
        obtain rfl := OrderCall.listOrders.inj hstatus
        refine ⟨_, rfl, fun row hrow hmatch => ?_⟩
        -- every rowid is positive, so the scan starts before all rows
        have hpos : 0 < row.rowid :=
          (List.pairwise_cons.mp ht).1 _ (List.mem_map_of_mem hrow)
        rw [List.nil_append]
        refine List.mem_map_of_mem (List.mem_filter.mpr ⟨hrow, ?_⟩)
        simp only [hpos, hmatch, decide_true, Bool.and_self]
      · refine iff_of_false ?_ (fun h => hok (h rfl))
        intro h
        push Not at hok
        obtain ⟨n, hn, hfail⟩ := hok
        obtain ⟨arr', hQ⟩ := loop_cut ht _ _ _ rfl ⟨n, hn, by rwa [Nat.add_comm 1 n]⟩ h
        exact not_undisguised (by simp) hQ

/-! ## §6. Tables are in rowid order. -/

/-- No rowid is larger than the largest. -/
theorem le_foldr_max {l : List Nat} {x : Nat} (h : x ∈ l) : x ≤ l.foldr max 0 := by
  induction l with
  | nil => cases h
  | cons y l ih =>
      rw [List.foldr_cons]
      rcases List.mem_cons.mp h with rfl | hl
      · exact Nat.le_max_left ..
      · exact (ih hl).trans (Nat.le_max_right ..)

theorem inRowidOrder_empty : InRowidOrder Keyed.empty := List.pairwise_singleton _ _

/-- A new row goes behind the others. -/
theorem inRowidOrder_insert {t t' : Table} {o : String} {a : Double} {c : Int}
    (ht : InRowidOrder t) (h : t.insertOrder o a c = some t') : InRowidOrder t' := by
  unfold InRowidOrder at ht ⊢
  rw [Keyed.rows_of_insert? h, List.map_append, ← List.cons_append, List.pairwise_append]
  refine ⟨ht, List.pairwise_singleton _ _, fun x hx y hy => ?_⟩
  -- the new rowid is above all others, and above 0
  obtain rfl := List.mem_singleton.mp hy
  show x < t.nextRowid
  unfold Table.nextRowid
  rcases List.mem_cons.mp hx with rfl | hmem
  · exact Nat.succ_pos _
  · exact Nat.lt_succ_of_le (le_foldr_max hmem)

/-- A payment moves no row. -/
theorem inRowidOrder_update {t : Table} (ht : InRowidOrder t) (o : String) (now : Int) :
    InRowidOrder (t.updatePaid o now) := by
  have hrowids : (t.updatePaid o now).rows.map Row.rowid = t.rows.map Row.rowid := by
    show (t.rows.map _).map Row.rowid = _
    rw [List.map_map]
    refine List.map_congr_left fun r _ => ?_
    simp only [Function.comp_apply]
    split <;> rfl
  unfold InRowidOrder
  rw [hrowids]
  exact ht

theorem inRowidOrder_delete {t : Table} (ht : InRowidOrder t) (o : String) :
    InRowidOrder (t.deleteOrder o) :=
  ht.sublist ((List.filter_sublist.map Row.rowid).cons_cons 0)

/-- No call disturbs the order. -/
theorem inRowidOrder_step (out : Outcome) (pc : Pc) (h : InRowidOrder w.table) :
    InRowidOrder (step env out pc w).2.table := by
  cases step_table env out pc w with
  | keep table changes next => rw [table]; exact h
  | failed at_ table changes next => rw [table]; exact h
  | insert o a c at_ ok next table changes => exact inRowidOrder_insert h table
  | update o a c n at_ ok next table changes => rw [table]; exact inRowidOrder_update h _ _
  | delete o at_ ok next table changes => rw [table]; exact inRowidOrder_delete h _

/-- **Whatever requests run, in any interleaving**, the table stays in the order a
    scan relies on. -/
theorem inRowidOrder_run {ι : Type*} [DecidableEq ι] (s : Pool ι World Pc)
    (evs : List (Event ι Outcome EnvEvent)) (h : InRowidOrder s.world.table) :
    InRowidOrder ((handlers env).run s evs).world.table := by
  refine (handlers env).run_inv_all (I := fun s => InRowidOrder s.world.table) ?_ evs s h
  intro s e hs
  cases e with
  | proc i out =>
      rw [Machine.fire_proc_world]
      exact inRowidOrder_step out _ hs
  | env x =>
      rw [Machine.fire_env_world, handlers_env, apply_table]
      exact hs

end

/-! ## §7. The whole list. -/

/-- **When SQLite failures show.**  For every request, every table and every
    sequence of return codes: each failed call is counted once and answered with
    500, no 404 hides a row and no list lacks one, if and only if no step of a
    SELECT or of the DELETE fails. -/
theorem undisguised_iff (env : Env) (f : Fate) (job : Job) (w : World)
    (ht : InRowidOrder w.table) : NotDisguised env f job w ↔ StepsSucceed env f job w := by
  obtain ⟨call, inp⟩ := job
  cases call with
  | createOrder body => exact iff_of_true (create_undisguised body inp) trivial
  | getOrder o => exact get_undisguised_iff o inp
  | payOrder body => exact pay_undisguised_iff body inp
  | listOrders status => exact list_undisguised_iff ht status inp
  | deleteOrder o => exact delete_undisguised_iff o inp

/-- The world after the order `ORD17000000007` has been created, without Redis. -/
def sampleStored : World :=
  (flight { sampleEnv with redis := false } .allOk sampleCreate {} 4).world

/-- A read that goes well. -/
theorem undisguised_iff_sampleGet : InRowidOrder sampleStored.table ∧
    (NotDisguised sampleEnv .allOk sampleGet sampleStored ↔
      StepsSucceed sampleEnv .allOk sampleGet sampleStored) := by
  have horder : InRowidOrder sampleStored.table := by
    show List.Pairwise (· < ·) [0, 1]
    decide
  exact ⟨horder, undisguised_iff sampleEnv .allOk sampleGet sampleStored horder⟩

/-- The step of the SELECT returns `SQLITE_BUSY`. -/
def busyStep : Fate := ⟨fun n => if n = 1 then .fail false else .ok, fun _ => .ok⟩

/-- An order that is there is reported missing, and nobody counts it. -/
theorem busy_read_disguised :
    ¬ ∀ (env : Env) (f : Fate) (job : Job) (w : World), InRowidOrder w.table →
      NotDisguised env f job w := by
  intro hall
  have horder : InRowidOrder sampleStored.table := by
    show List.Pairwise (· < ·) [0, 1]
    decide
  have h := (get_undisguised_iff ⟨"ORD17000000007", by decide⟩ {}).mp
    (hall sampleEnv busyStep sampleGet sampleStored horder)
  exact absurd (h (by decide) (by decide)) (by decide)

end OrderApi.Orders
