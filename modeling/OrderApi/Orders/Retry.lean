/-
  OrderApi.Orders.Retry
  ─────────────────────
  **DOES A RETRY HEAL A STALE CACHE?**

  An invalidation that Redis missed leaves an entry behind.  The client, or an
  operator, tries again; but `pay_order` returns with "Already paid" and both
  handlers with "Order not found" before they come to `invalidate_cached_order`.
  So an answer that tells the order is paid or gone leaves no entry behind in two
  cases only: the call itself did the write, or there was no entry to begin with.
  That is shown here for every state, whatever Redis calls failed before.
-/
import OrderApi.Crow.JsonDump
import OrderApi.Orders.CachedRead

namespace OrderApi.Orders

open OrderApi.Lib
open OrderApi.Crow
open OrderApi.Model

/-! ## §1. The property. -/

/-- The answer tells that the order is paid, or gone. -/
inductive Tells (env : Env) : Reply → Prop where
  | success (res : Response) (code : res.code = 200) : Tells env (.returned res)
  | paid : Tells env (errorReply env 400 "Already paid")
  | absent : Tells env (errorReply env 404 "Order not found")

/-- If the answer tells so, Redis holds no entry for `o` afterwards, and the next
    `get_order(o)` answers from the table. -/
def Heals (env : Env) (f : Fate) (job : Job) (o : PathParam) (w : World) : Prop :=
  ∀ reply w', Ends env f job w reply w' → Tells env reply →
    w'.cache.get w'.clock (cacheKey o.val) = none
      ∧ ∀ inp, ∃ w'', Ends env .allOk ⟨.getOrder o, inp⟩ w' (storedReply env o.val w'.table) w''

/-- Redis holds no entry for `o`. -/
def NotHeld (o : String) (w : World) : Prop := w.cache.get w.clock (cacheKey o) = none

section
variable {env : Env} {f : Fate} {w w' : World} {job : Job} {o : PathParam} {reply : Reply}

theorem tells_code (h : Tells env reply) : (Pc.done reply).answer ≠ some 500 := by
  cases h with
  | success res code => simp [Pc.answer, code]
  | paid => simp
  | absent => simp

/-- An answer that tells nothing. -/
theorem heals_silent (h : Ends env f job w reply w') (hsilent : ¬ Tells env reply) :
    Heals env f job o w := by
  intro reply' w'' h' htells
  obtain ⟨rfl, -⟩ := h'.unique h
  exact absurd htells hsilent

/-- An answer that tells something heals if and only if the entry is gone. -/
theorem heals_iff (hredis : env.redis = true) (h : Ends env f job w reply w')
    (htells : Tells env reply) : Heals env f job o w ↔ NotHeld o.val w' := by
  constructor
  · intro hheals
    exact (hheals reply w' h htells).1
  · intro hgone reply' w'' h' _
    obtain ⟨-, rfl⟩ := h'.unique h
    exact ⟨hgone, fun inp => get_miss inp hredis hgone⟩

/-- A DEL that reaches Redis. -/
theorem notHeld_invalidate (hredis : env.redis = true) (out : Outcome) (hout : out = .ok)
    (w : World) : NotHeld o.val (invalidateCachedOrder env out o.val w) := by
  unfold NotHeld invalidateCachedOrder redisWrite
  rw [hredis, hout]
  simp [recordRedisSuccess, World.redisDel, Cache.get]

/-! ## §2. A payment. -/

/-- A payment that does not get to its UPDATE changes nothing. -/
theorem pay_early {body : String} (inp : Inputs) (hbody : payOrderNo env body = .ok o.val)
    (h0 : f.sqlite 0 = .ok) (hrow : ¬ (f.sqlite 1 = .ok ∧ UnpaidRow o.val w.table)) :
    ∃ reply, Tells env reply ∧ Ends env f ⟨.payOrder body, inp⟩ w reply w := by
  have hends : EndsWith env f ⟨start ⟨.payOrder body, inp⟩ w, 0⟩
      (fun reply w' _ => Tells env reply ∧ w' = w) := by
    rw [endsWith_start]
    simp only [enter, hbody]
    rw [endsWith_prepare (fun _ => rfl) rfl rfl (fun _ => rfl), h0]
    dsimp only
    rw [endsWith_sqlite rfl rfl]
    simp only [step, cStr_eq_self o.noNul]
    cases h1 : f.sqlite 1 with
    | fail applied =>
        rw [endsWith_done]
        exact ⟨.absent, rfl⟩
    | ok =>
        cases hfind : w.table.find o.val with
        | none =>
            rw [endsWith_done]
            exact ⟨.absent, rfl⟩
        | some r =>
            have hpaid : r.status = "PAID" := by
              by_contra hst
              exact hrow ⟨h1, r, hfind, hst⟩
            dsimp only
            rw [if_pos hpaid, endsWith_done]
            exact ⟨.paid, rfl⟩
  obtain ⟨reply, w', -, h, htells, rfl⟩ := ends_of_endsWith hends
  exact ⟨reply, htells, h⟩

/-- A payment whose first prepare fails tells nothing. -/
theorem pay_unprepared {body : String} (inp : Inputs) (hbody : payOrderNo env body = .ok o.val)
    (h0 : f.sqlite 0 ≠ .ok) : Heals env f ⟨.payOrder body, inp⟩ o w := by
  have hends : EndsWith env f ⟨start ⟨.payOrder body, inp⟩ w, 0⟩
      (fun reply _ _ => (Pc.done reply).answer = some 500) := by
    rw [endsWith_start]
    simp only [enter, hbody]
    rw [endsWith_prepare (fun _ => rfl) rfl rfl (fun _ => rfl)]
    cases hout : f.sqlite 0 with
    | ok => exact absurd hout h0
    | fail applied => rfl
  obtain ⟨reply, w', -, h, h500⟩ := ends_of_endsWith hends
  exact heals_silent h fun htells => tells_code htells h500

/-- A payment of a PENDING row fails without telling anything, or it deletes the
    entry. -/
theorem pay_unpaid_heals (hredis : env.redis = true) (hcalls : ∀ n, f.redis n = .ok)
    {body : String} (inp : Inputs) (hbody : payOrderNo env body = .ok o.val)
    (h1 : f.sqlite 1 = .ok) (hrow : UnpaidRow o.val w.table) :
    Heals env f ⟨.payOrder body, inp⟩ o w := by
  obtain ⟨r, hr, hst⟩ := hrow
  obtain ⟨reply, w', failed, hends, hpay⟩ :=
    ends_of_endsWith (pay_ends (f := f) (w := w) inp hbody)
  cases hpay with
  | failed n message lt fails select w₀ tried =>
      exact heals_silent hends fun h => tells_code h rfl
  | disguised prepared fails => exact absurd h1 fails
  | missing select row =>
      rw [cStr_eq_self o.noNul, hr] at row
      cases row
  | paid select row =>
      obtain ⟨r', hr', hpaid⟩ := row
      rw [cStr_eq_self o.noNul, hr] at hr'
      obtain rfl := Option.some.inj hr'
      exact absurd hpaid hst
  | committed calls row amount createdAt =>
      refine (heals_iff hredis hends (.success _ rfl)).mpr ?_
      exact notHeld_invalidate hredis _ (hcalls 0) _

/-- **The condition for a payment.** -/
theorem pay_heals_iff (hredis : env.redis = true) (hcalls : ∀ n, f.redis n = .ok) {body : String}
    (inp : Inputs) (hbody : payOrderNo env body = .ok o.val) :
    Heals env f ⟨.payOrder body, inp⟩ o w ↔ f.sqlite 0 ≠ .ok
      ∨ (f.sqlite 1 = .ok ∧ UnpaidRow o.val w.table) ∨ NotHeld o.val w := by
  by_cases h0 : f.sqlite 0 = .ok
  · by_cases hrow : f.sqlite 1 = .ok ∧ UnpaidRow o.val w.table
    · exact iff_of_true (pay_unpaid_heals hredis hcalls inp hbody hrow.1 hrow.2)
        (.inr (.inl hrow))
    · obtain ⟨reply, htells, hends⟩ := pay_early inp hbody h0 hrow
      rw [heals_iff hredis hends htells]
      simp [h0, hrow]
  · exact iff_of_true (pay_unprepared inp hbody h0) (.inl h0)

/-! ## §3. A deletion. -/

/-- The two 404s of `delete_order` are told apart by their texts. -/
theorem could_not_delete_silent (hdump : SoleDump env.dump) :
    ¬ Tells env (errorReply env 404 "Order not found or could not delete") := by
  have hbody : ∀ m, (jsonError env 404 m).body = env.dump (.object [("error", .str m)]) :=
    fun _ => rfl
  intro h
  generalize hreply : errorReply env 404 "Order not found or could not delete" = reply at h
  cases h with
  | success res code =>
      have hres := Reply.returned.inj hreply
      rw [← hres] at code
      exact absurd code (by simp)
  | paid =>
      have hcode := congrArg (fun r => (Pc.done r).answer) hreply
      simp at hcode
  | absent =>
      have hsame := congrArg Response.body (Reply.returned.inj hreply)
      rw [hbody, hbody] at hsame
      refine @SoleDump.ne _ hdump "error" (.str _) (.str _) trivial trivial
        (fun fmt fmt' => ?_) hsame
      simp only [WValue.dump]
      decide

/-- **The condition for a deletion.** -/
theorem delete_heals_iff (hdump : SoleDump env.dump)
    (hredis : env.redis = true) (hcalls : ∀ n, f.redis n = .ok) (inp : Inputs) :
    Heals env f ⟨.deleteOrder o, inp⟩ o w ↔ f.sqlite 0 ≠ .ok ∨ f.sqlite 1 ≠ .ok
      ∨ Present o.val w.table ∨ NotHeld o.val w := by
  obtain ⟨reply, w', failed, hends, hdelete⟩ :=
    ends_of_endsWith (delete_ends (f := f) (w := w) o inp)
  cases hdelete with
  | failed fails =>
      exact iff_of_true (heals_silent hends fun h => tells_code h rfl) (.inl fails)
  | disguised prepared fails =>
      exact iff_of_true (heals_silent hends (could_not_delete_silent hdump)) (.inr (.inl fails))
  | missing prepared deleted row w' world =>
      rw [cStr_eq_self o.noNul] at row
      rw [heals_iff hredis hends .absent, world]
      simp [prepared, deleted, Present, row, NotHeld]
  | committed prepared deleted row =>
      rw [cStr_eq_self o.noNul] at row
      refine iff_of_true ?_ (.inr (.inr (.inl row)))
      refine (heals_iff hredis hends (.success _ rfl)).mpr ?_
      exact notHeld_invalidate hredis _ (hcalls 0) _

end

/-! ## §4. The whole list. -/

/-- **When a retry heals.**  In every state, however it came about, and for every
    payment or deletion of `o` with Redis at hand: an answer that tells the order
    is paid or gone leaves no entry for `o` behind if and only if the call does
    the write itself (or fails in SQLite and tells nothing), or there was no entry
    before. -/
theorem retry_heals_iff (env : Env) (hdump : SoleDump env.dump) (hredis : env.redis = true)
    (f : Fate) (hcalls : ∀ n, f.redis n = .ok) (w : World) (o : PathParam) :
    (∀ body inp, payOrderNo env body = .ok o.val →
      (Heals env f ⟨.payOrder body, inp⟩ o w ↔ f.sqlite 0 ≠ .ok
        ∨ (f.sqlite 1 = .ok ∧ UnpaidRow o.val w.table) ∨ NotHeld o.val w))
      ∧ ∀ inp, Heals env f ⟨.deleteOrder o, inp⟩ o w ↔ f.sqlite 0 ≠ .ok ∨ f.sqlite 1 ≠ .ok
        ∨ Present o.val w.table ∨ NotHeld o.val w :=
  ⟨fun _ inp hbody => pay_heals_iff hredis hcalls inp hbody,
    fun inp => delete_heals_iff hdump hredis hcalls inp⟩

/-- A creation, and a payment whose DEL never reaches Redis. -/
def lostDel : List (Event (Fin 2) Outcome EnvEvent) :=
  schedule (turns [0, 0, 0, 0, 1, 1, 1, 1, 1]) ++ (turns [1]).map (.proc · (.fail false))

/-- The two requests. -/
def createAndPay (i : Fin 2) : Job := if i.val = 0 then sampleCreate else samplePay 1

/-- The order is PAID, and Redis still shows it PENDING. -/
def staleWorld : World := ((handlers sampleEnv).run (initial {} createAndPay) lostDel).world

theorem staleWorld_held : ¬ NotHeld "ORD17000000007" staleWorld := by
  unfold NotHeld
  decide

/-- The row is paid. -/
theorem staleWorld_paid : ¬ UnpaidRow "ORD17000000007" staleWorld.table := by
  rintro ⟨r, hr, hst⟩
  have hpaid : (staleWorld.table.find "ORD17000000007").all (fun r => r.status = "PAID") = true := by
    decide
  rw [hr] at hpaid
  exact hst (by simpa using hpaid)

/-- The entry outlives a payment that is tried again. -/
theorem retry_heals_iff_stale : SoleDump sampleEnv.dump ∧ sampleEnv.redis = true ∧ (∀ n, Fate.allOk.redis n = .ok) ∧
    ¬ Heals sampleEnv .allOk (samplePay 2) ⟨"ORD17000000007", by decide⟩ staleWorld := by
  refine ⟨soleDump_dump _, rfl, fun _ => rfl, ?_⟩
  rw [samplePay, (retry_heals_iff sampleEnv (soleDump_dump _) rfl .allOk (fun _ => rfl) staleWorld
    ⟨"ORD17000000007", by decide⟩).1 _ _ (by rfl)]
  rintro (h | h | h)
  · exact h rfl
  · exact staleWorld_paid h.2
  · exact staleWorld_held h

/-- A second payment, with Redis back, is answered "Already paid" and leaves the
    entry where it is. -/
theorem retry_leaves_stale_entry :
    ¬ ∀ (env : Env) (jobs : Fin 2 → Job) (evs : List (Event (Fin 2) Outcome EnvEvent))
      (body : String) (inp : Inputs) (o : PathParam) (f : Fate), env.redis = true →
      (handlers env).RunOk Alone (initial {} jobs) evs →
      Quiescent ((handlers env).run (initial {} jobs) evs) →
      payOrderNo env body = .ok o.val → (∀ n, f.redis n = .ok) →
      Heals env f ⟨.payOrder body, inp⟩ o ((handlers env).run (initial {} jobs) evs).world := by
  intro hall
  have h := hall sampleEnv createAndPay lostDel samplePayBody ⟨0, 0, 1700000002⟩
    ⟨"ORD17000000007", by decide⟩ .allOk rfl (by decide) (by intro i; fin_cases i <;> rfl) (by rfl)
    fun _ => rfl
  obtain ⟨hgone, -⟩ :=
    h (errorReply sampleEnv 400 "Already paid") staleWorld ⟨3, by rfl, by rfl⟩ .paid
  exact staleWorld_held hgone

end OrderApi.Orders
