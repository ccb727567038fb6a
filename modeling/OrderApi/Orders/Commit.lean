/-
  OrderApi.Orders.Commit
  ──────────────────────
  **COMMIT IF AND ONLY IF 200.**

  A writing handler that runs with nobody in between answers 200 and has done
  what it is for, or answers 400 and more and has done nothing: table, Redis and
  the two order counters are as before.  The one request of which this cannot be
  said is a body that is a list with elements.

  `Progress` says for every program point how much of this has happened when the
  handler stands there.  Up to the writing statement nothing has; behind it
  everything has, and only Redis is left, whose failures the helpers swallow.
  `delete_order` is the exception: its statement goes through whether or not the
  row was there, and `sqlite3_changes` tells it afterwards.
-/
import OrderApi.Orders.Accelerator
import OrderApi.Orders.Bodies
import OrderApi.Orders.CacheCoherence

namespace OrderApi.Orders

open OrderApi.Lib
open OrderApi.Crow
open OrderApi.Model

/-! ## §1. All or nothing. -/

/-- Nothing has happened: table, Redis and the order counters are the same. -/
structure Untouched (w w' : World) : Prop where
  table : w'.table = w.table
  cache : w'.cache = w.cache
  created : w'.metrics.ordersCreated = w.metrics.ordersCreated
  paid : w'.metrics.ordersPaid = w.metrics.ordersPaid

theorem Untouched.refl (w : World) : Untouched w w := ⟨rfl, rfl, rfl, rfl⟩

/-- `create_order` took effect: one new PENDING row under a fresh key. -/
structure Created (orderNo : String) (amount : Double) (now : Int) (w w' : World) : Prop where
  fresh : w.table.find orderNo = none
  table : ∃ rowid, ∀ k, w'.table.find k = if k = orderNo then
    some { rowid, orderNo, amount, status := "PENDING", createdAt := now, paidAt := 0 }
    else w.table.find k
  created : w'.metrics.ordersCreated = inc32 w.metrics.ordersCreated
  paid : w'.metrics.ordersPaid = w.metrics.ordersPaid

/-- `pay_order` took effect: the row `k` was not PAID and now is. -/
structure PaidNow (k : String) (now : Int) (w w' : World) : Prop where
  table : ∃ r, w.table.find k = some r ∧ r.status ≠ "PAID" ∧
    ∀ k', w'.table.find k' = if k' = k then some { r with status := "PAID", paidAt := now }
      else w.table.find k'
  created : w'.metrics.ordersCreated = w.metrics.ordersCreated
  paid : w'.metrics.ordersPaid = inc32 w.metrics.ordersPaid

/-- `delete_order` took effect: the row `k` was there and is gone. -/
structure Removed (k : String) (w w' : World) : Prop where
  present : Present k w.table
  table : ∀ k', w'.table.find k' = if k' = k then none else w.table.find k'
  created : w'.metrics.ordersCreated = w.metrics.ordersCreated
  paid : w'.metrics.ordersPaid = w.metrics.ordersPaid

/-- The effect a writing request is for. -/
def Committed (env : Env) (job : Job) (w w' : World) : Prop :=
  match job.call with
  | .createOrder body => ∃ amount, createAmount env body = .ok amount ∧
      Created (generateOrderNo job.inp) amount job.inp.now w w'
  | .payOrder body => ∃ o, payOrderNo env body = .ok o ∧ PaidNow (cStr o) job.inp.now w w'
  | .deleteOrder o => Removed o.val w w'
  | .getOrder _ => False
  | .listOrders _ => False

/-- The request is a `create_order`, `pay_order` or `delete_order`. -/
def writes : OrderCall → Bool
  | .createOrder _ => true
  | .payOrder _ => true
  | .deleteOrder _ => true
  | _ => false

/-- **The law**: 200 and the effect, or an error and nothing. -/
def AllOrNothing (env : Env) (job : Job) (w : World) (reply : Reply) (w' : World) : Prop :=
  ((Pc.done reply).answer = some 200 ∧ Committed env job w w') ∨
    (∃ code, (Pc.done reply).answer = some code ∧ 400 ≤ code) ∧ Untouched w w'

/-! ## §2. How far a handler has come. -/

/-- What has happened when a writing handler stands at a point. -/
def Progress (env : Env) (job : Job) (w : World) : Pc → World → Prop
  | .enter call inp, w' => call = job.call ∧ inp = job.inp ∧ writes call = true ∧ Untouched w w'
  -- create_order
  | .insertPrepare o a n, w' => InsertAhead o a n w'
  | .insertStep o a n, w' => InsertAhead o a n w'
  | .createCache _ _ _, w' => Committed env job w w'
  -- pay_order
  | .payPrepare o n, w' => SelectAhead o n w'
  | .payStep o n, w' => SelectAhead o n w'
  | .updatePrepare o _ _ n, w' => UpdateAhead o n w'
  | .updateStep o _ _ n, w' => UpdateAhead o n w'
  | .payInvalidate _ _ _ _, w' => Committed env job w w'
  -- delete_order
  | .deletePrepare o, w' => DeleteAhead o ∧ Untouched w w'
  | .deleteStep o, w' => DeleteAhead o ∧ Untouched w w'
  -- the statement is through, and nobody has asked how many rows it hit
  | .deleteChanges o, w' => DeleteAhead o ∧ w'.changes = w.table.count (cStr o)
      ∧ Untouched { w with table := w.table.deleteOrder (cStr o) } w'
  | .deleteInvalidate _, w' => Committed env job w w'
  | .done reply, w' => AllOrNothing env job w reply w'
  | .lost, w' => Untouched w w'
  | _, _ => False
where
  /-- The INSERT is ahead. -/
  InsertAhead (o : String) (a : Double) (n : Int) (w' : World) : Prop :=
    (∃ body, job.call = .createOrder body ∧ createAmount env body = .ok a)
      ∧ o = generateOrderNo job.inp ∧ n = job.inp.now ∧ Untouched w w'
  /-- The SELECT of `pay_order` is ahead. -/
  SelectAhead (o : String) (n : Int) (w' : World) : Prop :=
    (∃ body, job.call = .payOrder body ∧ payOrderNo env body = .ok o)
      ∧ n = job.inp.now ∧ Untouched w w'
  /-- The UPDATE is ahead; the row has been seen and was not PAID. -/
  UpdateAhead (o : String) (n : Int) (w' : World) : Prop :=
    SelectAhead o n w' ∧ UnpaidRow (cStr o) w.table
  /-- The request is the `delete_order` of `o`. -/
  DeleteAhead (o : String) : Prop := ∃ p, job.call = .deleteOrder p ∧ p.val = o

section
variable {env : Env} {job : Job} {w w' : World}

theorem untouched_recordSqliteFailure (h : Untouched w w') :
    Untouched w (recordSqliteFailure w') := ⟨h.table, h.cache, h.created, h.paid⟩

theorem untouched_writeFailed (h : Untouched w w') : Untouched w w'.writeFailed :=
  ⟨h.table, h.cache, h.created, h.paid⟩

/-- A handler that gives up before its writing statement. -/
theorem progress_error (code : Int) (message : String) (hcode : 400 ≤ code)
    (h : Untouched w w') : Progress env job w (.done (errorReply env code message)) w' :=
  .inr ⟨⟨code, rfl, hcode⟩, h⟩

theorem progress_refused {early : Early} (hearly : Refused env early) (h : Untouched w w') :
    Progress env job w early.pc w' := by
  cases early with
  | answered reply => exact .inr ⟨refused_answer env hearly, h⟩
  | undefined => exact h

/-- A prepare that fails ends a request that has done nothing yet. -/
theorem progress_prepare {out : Outcome} {next : Pc} (hnext : Progress env job w next w')
    (h : Untouched w w') :
    Progress env job w (prepare env out next w').1 (prepare env out next w').2 := by
  cases out with
  | ok => exact hnext
  | fail applied =>
      exact progress_error 500 _ (by decide) (untouched_recordSqliteFailure h)

/-- What is committed stays so as long as the table and the two counters do. -/
theorem committed_frame {v : World} (h : Committed env job w w') (htable : v.table = w'.table)
    (hcreated : v.metrics.ordersCreated = w'.metrics.ordersCreated)
    (hpaid : v.metrics.ordersPaid = w'.metrics.ordersPaid) : Committed env job w v := by
  unfold Committed at h ⊢
  cases hcall : job.call with
  | createOrder body =>
      rw [hcall] at h
      obtain ⟨amount, hbody, hc⟩ := h
      exact ⟨amount, hbody, hc.fresh, by rw [htable]; exact hc.table, hcreated.trans hc.created,
        hpaid.trans hc.paid⟩
  | payOrder body =>
      rw [hcall] at h
      obtain ⟨o, hbody, hp⟩ := h
      exact ⟨o, hbody, by rw [htable]; exact hp.table, hcreated.trans hp.created,
        hpaid.trans hp.paid⟩
  | deleteOrder o =>
      rw [hcall] at h
      exact ⟨h.present, by rw [htable]; exact h.table, hcreated.trans h.created,
        hpaid.trans h.paid⟩
  | getOrder o => rw [hcall] at h; exact h.elim
  | listOrders q => rw [hcall] at h; exact h.elim

/-- Whatever Redis does, an effect stays an effect and the answer is 200. -/
theorem progress_redis {out : Outcome} {command : World → World} {v : WValue}
    (hcommand : ∀ w, SameButRedis false w (command w)) (h : Committed env job w w') :
    Progress env job w (.done (jsonReply env v)) (redisWrite env out command w') := by
  have hsame := same_redisWrite env out (hcommand w')
  exact .inl ⟨rfl, committed_frame h hsame.table.symm hsame.created.symm hsame.paid.symm⟩

/-! ## §3. The three statements. -/

/-- The entry. -/
theorem progress_enter {call : OrderCall} {inp : Inputs} (out : Outcome)
    (h : Progress env job w (.enter call inp) w') :
    Progress env job w (step env out (.enter call inp) w').1
      (step env out (.enter call inp) w').2 := by
  obtain ⟨rfl, rfl, hwrites, hun⟩ := h
  simp only [step]
  cases hcall : job.call with
  | createOrder body =>
      simp only [enter]
      cases hbody : createAmount env body with
      | ok amount => exact ⟨⟨body, hcall, hbody⟩, rfl, rfl, hun⟩
      | error early => exact progress_refused (refuses_createAmount env body early hbody) hun
  | payOrder body =>
      simp only [enter]
      cases hbody : payOrderNo env body with
      | ok o => exact ⟨⟨body, hcall, hbody⟩, rfl, hun⟩
      | error early => exact progress_refused (refuses_payOrderNo env body early hbody) hun
  | deleteOrder p => exact ⟨⟨p, hcall, rfl⟩, hun⟩
  | getOrder p => rw [hcall] at hwrites; cases hwrites
  | listOrders q => rw [hcall] at hwrites; cases hwrites

/-- **INSERT**: the row and its counter come together. -/
theorem progress_insertStep {o : String} {a : Double} {n : Int} (out : Outcome)
    (h : Progress env job w (.insertStep o a n) w') :
    Progress env job w (step env out (.insertStep o a n) w').1
      (step env out (.insertStep o a n) w').2 := by
  obtain ⟨⟨body, hcall, hbody⟩, rfl, rfl, hun⟩ := h
  simp only [step]
  split
  · next t ht =>
      rw [cStr_eq_self (generateOrderNo_noNul _), hun.table] at ht
      show Committed env job w _
      unfold Committed
      rw [hcall]
      refine ⟨a, hbody, Table.find_none_of_insertOrder ht, ⟨w.table.nextRowid, fun k => ?_⟩, ?_,
        hun.paid⟩
      · rw [Table.find_insertOrder ht k]
        simp only [eq_comm]
      · show inc32 _ = _
        rw [hun.created]
  · exact progress_error 500 _ (by decide)
      (untouched_recordSqliteFailure (untouched_writeFailed hun))

/-- **UPDATE**: so do the payment and its counter. -/
theorem progress_updateStep {o : String} {a : Double} {c n : Int} (out : Outcome)
    (h : Progress env job w (.updateStep o a c n) w') :
    Progress env job w (step env out (.updateStep o a c n) w').1
      (step env out (.updateStep o a c n) w').2 := by
  obtain ⟨⟨⟨body, hcall, hbody⟩, rfl, hun⟩, r, hr, hst⟩ := h
  cases out with
  | fail applied =>
      exact progress_error 500 _ (by decide)
        (untouched_recordSqliteFailure (untouched_writeFailed hun))
  | ok =>
      show Committed env job w _
      unfold Committed
      rw [hcall]
      refine ⟨o, hbody, ⟨r, hr, hst, fun k => ?_⟩, hun.created, ?_⟩
      · show (w'.table.updatePaid (cStr o) job.inp.now).find k = _
        rw [hun.table, Table.find_updatePaid, hr]
        rfl
      · show inc32 _ = _
        rw [hun.paid]

/-- The DELETE goes through whether or not there was a row; how many it hit is
    asked next. -/
theorem progress_deleteStep {o : String} (out : Outcome)
    (h : Progress env job w (.deleteStep o) w') :
    Progress env job w (step env out (.deleteStep o) w').1
      (step env out (.deleteStep o) w').2 := by
  obtain ⟨hjob, hun⟩ := h
  cases out with
  | fail applied => exact progress_error 404 _ (by decide) (untouched_writeFailed hun)
  | ok =>
      refine ⟨hjob, ?_, ?_, hun.cache, hun.created, hun.paid⟩
      · show w'.table.count (cStr o) = _
        rw [hun.table]
      · show w'.table.deleteOrder (cStr o) = _
        rw [hun.table]

/-- **DELETE**: the count decides about the answer. -/
theorem progress_deleteChanges {o : String} (out : Outcome)
    (h : Progress env job w (.deleteChanges o) w') :
    Progress env job w (step env out (.deleteChanges o) w').1
      (step env out (.deleteChanges o) w').2 := by
  obtain ⟨⟨p, hcall, rfl⟩, hchanges, hun⟩ := h
  have hkey : cStr p.val = p.val := cStr_eq_self p.noNul
  rw [hkey] at hchanges hun
  simp only [step]
  split
  · next hzero =>
      -- no row was hit, so the table is the one from before
      have hnone : w.table.find p.val = none := Keyed.count_eq_zero.mp (hchanges ▸ hzero)
      refine progress_error 404 _ (by decide) ⟨?_, hun.cache, hun.created, hun.paid⟩
      rw [hun.table]
      exact Table.deleteOrder_of_find_none hnone
  · next hhit =>
      show Committed env job w w'
      unfold Committed
      rw [hcall]
      refine ⟨?_, fun k => ?_, hun.created, hun.paid⟩
      · refine Option.isSome_iff_ne_none.mpr fun hnone => hhit ?_
        rw [hchanges]
        exact Keyed.count_eq_zero.mpr hnone
      · rw [hun.table]
        exact Table.find_deleteOrder _ _ _

/-! ## §4. A whole request. -/

/-- **One call keeps the account.** -/
theorem progress_step (out : Outcome) (pc : Pc) (w' : World) (h : Progress env job w pc w') :
    Progress env job w (step env out pc w').1 (step env out pc w').2 := by
  cases pc with
  | enter call inp => exact progress_enter out h
  | insertPrepare o a n => exact progress_prepare h h.2.2.2
  | insertStep o a n => exact progress_insertStep out h
  | payPrepare o n => exact progress_prepare h h.2.2
  | payStep o n =>
      simp only [step]
      split
      · next r hr =>
          split
          · exact progress_error 400 _ (by decide) h.2.2
          · next hst => exact ⟨h, r, h.2.2.table ▸ hr, hst⟩
      · exact progress_error 404 _ (by decide) h.2.2
  | updatePrepare o a c n => exact progress_prepare h h.1.2.2
  | updateStep o a c n => exact progress_updateStep out h
  | deletePrepare o => exact progress_prepare h h.2
  | deleteStep o => exact progress_deleteStep out h
  | deleteChanges o => exact progress_deleteChanges out h
  | createCache o a n => exact progress_redis (fun w => same_cache w _) h
  | payInvalidate o a c n => exact progress_redis (fun w => same_cache w _) h
  | deleteInvalidate o => exact progress_redis (fun w => same_cache w _) h
  | done reply => exact h
  | lost => exact h
  | _ => exact h.elim

theorem ends_allOrNothing {f : Fate} (hwrites : writes job.call = true) {reply : Reply}
    (h : Ends env f job w reply w') : AllOrNothing env job w reply w' :=
  ends_inv (I := Progress env job w) ⟨rfl, rfl, hwrites, .refl w⟩ progress_step h

theorem notGet_of_writes {call : OrderCall} {inp : Inputs} (h : writes call = true) :
    notGet (.enter call inp) = true := by
  cases call <;> first | rfl | cases h

end

/-- However its SQLite and Redis calls end, the request comes to an answer; it is
    200 and the effect is there, or an error and nothing is.  With the same SQLite
    outcomes every other Redis, its client missing, its keys changed or its calls
    failing, gives the same answer. -/
def CommitIff200 (env : Env) (f : Fate) (job : Job) (w : World) : Prop :=
  ∃ reply w', Ends env f job w reply w' ∧ AllOrNothing env job w reply w'
    ∧ ∀ (client : Bool) (redis : Nat → Outcome) (v : World), SameButRedis true w v →
      ∃ v', Ends { env with redis := client } ⟨f.sqlite, redis⟩ job v reply v'
        ∧ SameButRedis true w' v' ∧ AllOrNothing { env with redis := client } job v reply v'

/-- **Commit if and only if 200**, for every writing request whose body is not a
    list with elements, and for no other. -/
theorem commit_iff_200 (env : Env) (f : Fate) (job : Job) (w : World)
    (hwrites : writes job.call = true) :
    CommitIff200 env f job w ↔ ¬ SearchesList env job.call := by
  rw [← enter_eq_lost_iff job.inp]
  constructor
  · rintro ⟨reply, w', hends, -⟩ hlost
    exact not_ends_of_lost hlost hends
  · intro hin
    obtain ⟨reply, w', hends⟩ := exists_ends env f job w hin
    refine ⟨reply, w', hends, ends_allOrNothing hwrites hends, ?_⟩
    intro client redis v hsame
    obtain ⟨reply', v', hends'⟩ :=
      exists_ends { env with redis := client } ⟨f.sqlite, redis⟩ job v hin
    obtain ⟨rfl, hsame'⟩ :=
      ends_same env client (by rfl) (notGet_of_writes hwrites) hsame hends hends'
    exact ⟨v', hends', hsame', ends_allOrNothing hwrites hends'⟩

/-- A payment that fails at its UPDATE, after the SELECT went through. -/
theorem commit_iff_200_samplePay : writes (samplePay 5).call = true ∧
    CommitIff200 sampleEnv ⟨fun n => if n = 3 then .fail false else .ok, fun _ => .ok⟩
      (samplePay 5) (flight sampleEnv .allOk sampleCreate {} 4).world := by
  have hobject : ¬ SearchesList sampleEnv (samplePay 5).call :=
    not_listBody (v := .object [("order_no", .string "ORD17000000007")]) rfl rfl
  exact ⟨rfl, (commit_iff_200 sampleEnv ⟨fun n => if n = 3 then .fail false else .ok, fun _ => .ok⟩
    (samplePay 5) (flight sampleEnv .allOk sampleCreate {} 4).world rfl).mpr hobject⟩

/-- The body `["abcdefgh"]`. -/
def listBody : String := "[\"abcdefgh\"]"

/-- The elements of `listBody` are compared by keys they do not have. -/
theorem list_body_lost :
    ¬ ∀ (env : Env) (f : Fate) (job : Job) (w : World), writes job.call = true →
      CommitIff200 env f job w := by
  intro hall
  obtain ⟨reply, w', hends, -⟩ := hall readingEnv .allOk ⟨.createOrder listBody, {}⟩ {} rfl
  exact not_ends_of_lost rfl hends

end OrderApi.Orders
