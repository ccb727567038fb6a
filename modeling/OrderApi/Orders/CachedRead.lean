/-
  OrderApi.Orders.CachedRead
  ──────────────────────────
  **THE CACHED READ AND THE DATABASE READ.**

  `get_order` answers a hit with `crow::response(std::string)`: the payload that
  `create_order` left, and no header.  A miss is answered with a `wvalue` built
  from the row, which sets the content type.  So the two never answer alike
  (`cached_read_differs`).  In a sequential run they do agree in the status code
  and in the four members the payload has; the row has a fifth, `paid_at`
  (`cached_read_agrees`).
-/
import OrderApi.Orders.SqliteErrors
import OrderApi.Orders.Sequential

namespace OrderApi.Orders

open OrderApi.Lib
open OrderApi.Crow
open OrderApi.Model

/-- The header a client sees. -/
def contentType (res : Response) : String := getHeaderValue res.headers "Content-Type"

/-- Two answers that a client cannot tell apart: status code, content type, and
    JSON objects with the same members. -/
def SameRead (env : Env) (a b : Reply) : Prop :=
  ∃ ra rb va vb, a = .returned ra ∧ b = .returned rb ∧ ra.code = rb.code
    ∧ contentType ra = contentType rb ∧ ra.body = env.dump va ∧ rb.body = env.dump vb
    ∧ ∀ k, va.member k = vb.member k

/-- Redis drops the entry for `o`. -/
def forget (o : String) (w : World) : World :=
  { w with cache := Function.update w.cache (cacheKey o) none }

/-- The answer built from the table. -/
def storedReply (env : Env) (o : String) (t : Table) : Reply :=
  match t.find o with
  | some r => jsonReply env (rowJson env o r)
  | none => errorReply env 404 "Order not found"

section
variable {env : Env} {o : PathParam} (inp : Inputs) {w : World} {payload : String}

/-- A hit is answered with the entry. -/
theorem get_hit (hredis : env.redis = true)
    (hheld : w.cache.get w.clock (cacheKey o.val) = some payload) :
    ∃ w', Ends env .allOk ⟨.getOrder o, inp⟩ w (.returned (Response.ofBody payload)) w' := by
  have h : EndsWith env .allOk ⟨start ⟨.getOrder o, inp⟩ w, 0⟩
      (fun reply _ _ => reply = .returned (Response.ofBody payload)) := by
    rw [endsWith_start]
    simp only [enter]
    rw [endsWith_redis rfl]
    simp only [step, tryGetCachedOrder, hredis, Fate.allOk, hheld, if_true]
    rw [endsWith_done]
  obtain ⟨reply, w', -, hends, rfl⟩ := ends_of_endsWith h
  exact ⟨w', hends⟩

/-- A miss is answered from the row. -/
theorem get_miss (hredis : env.redis = true)
    (hheld : w.cache.get w.clock (cacheKey o.val) = none) :
    ∃ w', Ends env .allOk ⟨.getOrder o, inp⟩ w (storedReply env o.val w.table) w' := by
  have h : EndsWith env .allOk ⟨start ⟨.getOrder o, inp⟩ w, 0⟩
      (fun reply _ _ => reply = storedReply env o.val w.table) := by
    rw [endsWith_start]
    simp only [enter]
    rw [endsWith_redis rfl]
    simp only [step, tryGetCachedOrder, hredis, Fate.allOk, hheld, if_true]
    rw [endsWith_prepare (fun _ => rfl) rfl rfl (fun _ => rfl)]
    dsimp only
    rw [endsWith_sqlite rfl rfl]
    simp only [step, cStr_eq_self o.noNul, recordRedisSuccess, storedReply]
    cases w.table.find o.val with
    | none => exact (endsWith_done ..).mpr rfl
    | some r => exact (endsWith_done ..).mpr rfl
  obtain ⟨reply, w', -, hends, rfl⟩ := ends_of_endsWith h
  exact ⟨w', hends⟩

/-- Whatever the table holds, its answer is typed. -/
theorem storedReply_contentType {t : Table} {res : Response}
    (h : storedReply env o.val t = .returned res) : contentType res = "application/json" := by
  unfold storedReply at h
  split at h <;> cases h <;> rfl

theorem get_forget (o : String) : (forget o w).cache.get w.clock (cacheKey o) = none := by
  simp [forget, Cache.get]

end

/-- **The cached read is never the database read.**  In every state in which Redis
    holds an entry for `o`, `get_order(o)` answers from it and, once the entry is
    gone, from the table, and the two answers are not the same. -/
theorem cached_read_differs (env : Env) (hredis : env.redis = true) (w : World) (o : PathParam)
    (inp : Inputs) (payload : String)
    (hheld : w.cache.get w.clock (cacheKey o.val) = some payload) :
    ∃ cached stored w₁ w₂, Ends env .allOk ⟨.getOrder o, inp⟩ w cached w₁
      ∧ Ends env .allOk ⟨.getOrder o, inp⟩ (forget o.val w) stored w₂
      ∧ ¬ SameRead env cached stored := by
  obtain ⟨w₁, hhit⟩ := get_hit inp hredis hheld
  obtain ⟨w₂, hmiss⟩ := get_miss inp (w := forget o.val w) hredis (get_forget o.val)
  refine ⟨_, _, w₁, w₂, hhit, hmiss, ?_⟩
  rintro ⟨ra, rb, va, vb, hra, hrb, -, htype, -⟩
  cases hra
  rw [storedReply_contentType hrb] at htype
  have hbare : contentType (Response.ofBody payload) = "" := rfl
  rw [hbare] at htype
  exact absurd htype (by decide)

/-- The order has been created and Redis holds it. -/
def sampleCached : World := (flight sampleEnv .allOk sampleCreate {} 4).world

/-- The order that was created, read with its entry and without it. -/
theorem cached_read_differs_sample : sampleEnv.redis = true ∧
    (sampleCached.cache.get sampleCached.clock (cacheKey "ORD17000000007")).isSome = true ∧
    ∃ cached stored w₁ w₂, Ends sampleEnv .allOk sampleGet sampleCached cached w₁
      ∧ Ends sampleEnv .allOk sampleGet (forget "ORD17000000007" sampleCached) stored w₂
      ∧ ¬ SameRead sampleEnv cached stored :=
  ⟨rfl, rfl, cached_read_differs sampleEnv rfl sampleCached ⟨"ORD17000000007", by decide⟩ {} _ rfl⟩

/-- One creation is enough to see it. -/
theorem cached_read_told_apart :
    ¬ ∀ (env : Env) (jobs : Fin 1 → Job) (evs : List (Event (Fin 1) Outcome EnvEvent))
      (o : PathParam) (inp : Inputs) (cached stored : Reply) (w₁ w₂ : World),
      env.redis = true → (handlers env).RunOk CallsSucceed (initial {} jobs) evs →
      (handlers env).RunOk Alone (initial {} jobs) evs →
      Quiescent ((handlers env).run (initial {} jobs) evs) →
      (((handlers env).run (initial {} jobs) evs).world.cache.get
        ((handlers env).run (initial {} jobs) evs).world.clock (cacheKey o.val)).isSome = true →
      Ends env .allOk ⟨.getOrder o, inp⟩ ((handlers env).run (initial {} jobs) evs).world
        cached w₁ →
      Ends env .allOk ⟨.getOrder o, inp⟩
        (forget o.val ((handlers env).run (initial {} jobs) evs).world) stored w₂ →
      SameRead env cached stored := by
  intro hall
  have hsame := hall sampleEnv (fun _ => sampleCreate) (schedule [0, 0, 0, 0])
    ⟨"ORD17000000007", by decide⟩ {} _ _ _ _ rfl (schedule_succeeds _ _ _) (by decide)
    (by intro i; fin_cases i; rfl) rfl ⟨2, rfl, rfl⟩ ⟨4, rfl, rfl⟩
  obtain ⟨ra, rb, va, vb, hra, hrb, -, htype, -⟩ := hsame
  cases hra
  cases hrb
  exact absurd htype (by decide)

/-- What the two do agree in: at rest in a sequential run the entry describes a
    PENDING row, both answers are 200, and the payload shows the row. -/
theorem cached_read_agrees {ι : Type*} [DecidableEq ι] (env : Env) (hredis : env.redis = true)
    (w : World) (hcache : w.cache = fun _ => none) (jobs : ι → Job)
    (hnul : PayBodiesNoNul env jobs) (evs : List (Event ι Outcome EnvEvent))
    (hcalls : (handlers env).RunOk CallsSucceed (initial w jobs) evs)
    (halone : (handlers env).RunOk Alone (initial w jobs) evs)
    (hrest : Quiescent ((handlers env).run (initial w jobs) evs)) (o payload : String)
    (hheld : ((handlers env).run (initial w jobs) evs).world.cache.get
      ((handlers env).run (initial w jobs) evs).world.clock (cacheKey o) = some payload) :
    ∃ r v, ((handlers env).run (initial w jobs) evs).world.table.find o = some r
      ∧ payload = env.dump v
      ∧ storedReply env o ((handlers env).run (initial w jobs) evs).world.table
        = jsonReply env (rowJson env o r)
      ∧ ∀ k, k ≠ "paid_at" → v.member k = (rowJson env o r).member k := by
  obtain ⟨a, c, ⟨r, hr, hst, rfl, rfl⟩, rfl⟩ := cache_coherent_at_rest env hredis w
    (coherent_of_no_cache env hcache) jobs hnul evs hcalls
    (halone.mono (handlers env) fun s e h => h.cacheUndisturbed) hrest o payload hheld
  have hr : ((handlers env).run (initial w jobs) evs).world.table.find o = some r := hr
  refine ⟨r, createdJson env o r.amount r.createdAt, hr, rfl, by rw [storedReply, hr], ?_⟩
  intro k hk
  simp only [WValue.member, createdJson, rowJson, List.find?, hst, Ne.symm hk, decide_false]

end OrderApi.Orders
