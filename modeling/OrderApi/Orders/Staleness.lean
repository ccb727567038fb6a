/-
  OrderApi.Orders.Staleness
  ─────────────────────────
  **STALENESS IS BOUNDED BY THE TTL.**

  An entry comes into Redis by one command only, the SET of a `create_order`
  behind its INSERT, and nothing refreshes it.  So every entry remembers the
  request that wrote it and the moment it did (`Origin`), whatever invalidations
  failed, were lost or came too early, and a hit is younger than
  `cache_ttl_seconds`.  The argument never looks at a DEL.
-/
import OrderApi.Orders.CacheCoherence

namespace OrderApi.Orders

open OrderApi.Lib
open OrderApi.Crow
open OrderApi.Model

/-! ## §1. Where an entry comes from. -/

section
variable {ι : Type*}

/-- The INSERT of request `j` stores the row `o`. -/
def InsertsRow (j : ι) (o : String) (amount : Double) (now : Int) (s : Pool ι World Pc)
    (e : Event ι Outcome EnvEvent) : Prop :=
  e = .proc j .ok ∧ s.proc j = .insertStep o amount now
    ∧ ∃ t, s.world.table.insertOrder (cStr o) amount now = some t

/-- Request `j` issues its SET for `o` at the moment `at_`, however it ends. -/
def IssuesSet (j : ι) (o : String) (amount : Double) (now at_ : Int) (s : Pool ι World Pc)
    (e : Event ι Outcome EnvEvent) : Prop :=
  (∃ out, e = .proc j out) ∧ s.proc j = .createCache o amount now ∧ s.world.clock = at_

end

variable {ι : Type*} [DecidableEq ι]

/-- **The origin of an entry**: a request inserted the row, issued its SET at a
    moment that is past, the entry is that request's payload with the time to live
    counted from then, and the request has answered with the same payload. -/
def Origin (env : Env) (s₀ : Pool ι World Pc) (evs : List (Event ι Outcome EnvEvent)) (o : String)
    (entry : Entry) : Prop :=
  ∃ j amount now at_, (handlers env).Happened (InsertsRow j o amount now) s₀ evs
    ∧ (handlers env).Happened (IssuesSet j o amount now at_) s₀ evs
    ∧ at_ ≤ ((handlers env).run s₀ evs).world.clock
    ∧ entry = ⟨env.dump (createdJson env o amount now), at_ + env.cacheTtlSeconds * 1000⟩
    ∧ ((handlers env).run s₀ evs).proc j = .done (jsonReply env (createdJson env o amount now))

/-- What is known of the past at every moment. -/
structure Remembered (env : Env) (s₀ : Pool ι World Pc) (evs : List (Event ι Outcome EnvEvent)) :
    Prop where
  entries : ∀ o entry, ((handlers env).run s₀ evs).world.cache (cacheKey o) = some entry →
    Origin env s₀ evs o entry
  creates : ∀ j o amount now, ((handlers env).run s₀ evs).proc j = .createCache o amount now →
    (handlers env).Happened (InsertsRow j o amount now) s₀ evs

/-! ## §2. One event. -/

section
variable {env : Env} {s₀ : Pool ι World Pc} {evs : List (Event ι Outcome EnvEvent)}
  {e : Event ι Outcome EnvEvent}

theorem happened_later {P : Pool ι World Pc → Event ι Outcome EnvEvent → Prop}
    (h : (handlers env).Happened P s₀ evs) : (handlers env).Happened P s₀ (evs ++ [e]) :=
  ((handlers env).happened_concat).mpr (.inl h)

/-- Time does not go back. -/
theorem clock_fire (env : Env) (s : Pool ι World Pc) (e : Event ι Outcome EnvEvent) :
    s.world.clock ≤ ((handlers env).fire s e).world.clock := by
  cases e with
  | proc i out =>
      rw [Machine.fire_proc_world, handlers_step, step_clock]
  | env x =>
      rw [Machine.fire_env_world]
      cases x with
      | tick ms => exact Int.le_add_of_nonneg_right (Int.natCast_nonneg ms)
      | drop key => exact Int.le_refl _
      | shutdown => exact Int.le_refl _

/-- A request that has answered stays answered. -/
theorem done_fire {s : Pool ι World Pc} {j : ι} {reply : Reply} (h : s.proc j = .done reply)
    (e : Event ι Outcome EnvEvent) : ((handlers env).fire s e).proc j = .done reply := by
  refine (handlers env).fire_local (P := (· = .done reply)) ?_ h e
  intro out pc w hpc
  rw [handlers_step, hpc]
  rfl

/-- An origin is not forgotten. -/
theorem Origin.later {o : String} {entry : Entry} (h : Origin env s₀ evs o entry) :
    Origin env s₀ (evs ++ [e]) o entry := by
  obtain ⟨j, a, n, at_, hins, hset, hle, hentry, hdone⟩ := h
  refine ⟨j, a, n, at_, happened_later hins, happened_later hset, ?_, hentry, ?_⟩
  · rw [Machine.run_concat]
    exact hle.trans (clock_fire env _ e)
  · rw [Machine.run_concat]
    exact done_fire hdone e

/-- What an event that writes no entry leaves of the entries. -/
theorem entries_later (h : Remembered env s₀ evs)
    (hcache : ∀ o entry, ((handlers env).run s₀ (evs ++ [e])).world.cache (cacheKey o) = some entry →
      ((handlers env).run s₀ evs).world.cache (cacheKey o) = some entry) :
    ∀ o entry, ((handlers env).run s₀ (evs ++ [e])).world.cache (cacheKey o) = some entry →
      Origin env s₀ (evs ++ [e]) o entry :=
  fun o entry hentry => (h.entries o entry (hcache o entry hentry)).later

/-- The SET itself. -/
theorem origin_set (h : Remembered env s₀ evs) {i : ι} {out : Outcome} {o : String} {a : Double}
    {n : Int} (hpc : ((handlers env).run s₀ evs).proc i = .createCache o a n) :
    Origin env s₀ (evs ++ [.proc i out]) o ⟨env.dump (createdJson env o a n),
      ((handlers env).run s₀ evs).world.clock + env.cacheTtlSeconds * 1000⟩ := by
  refine ⟨i, a, n, _, happened_later (h.creates i o a n hpc),
    ((handlers env).happened_concat).mpr (.inr ⟨⟨out, rfl⟩, hpc, rfl⟩), ?_, rfl, ?_⟩
  · rw [Machine.run_concat]
    exact clock_fire env _ _
  · rw [Machine.run_concat, Machine.fire_proc_self, hpc]
    rfl

/-- After a step of a request every entry still has its origin. -/
theorem entries_proc (h : Remembered env s₀ evs) (i : ι) (out : Outcome) (o : String)
    (entry : Entry)
    (hentry :
      ((handlers env).run s₀ (evs ++ [.proc i out])).world.cache (cacheKey o) = some entry) :
    Origin env s₀ (evs ++ [.proc i out]) o entry := by
  have hentry' := hentry
  rw [Machine.run_concat, Machine.fire_proc_world] at hentry'
  cases step_cache env out (((handlers env).run s₀ evs).proc i)
      ((handlers env).run s₀ evs).world with
  | keep cache quiet =>
      rw [handlers_step, cache] at hentry'
      exact (h.entries o entry hentry').later
  | set o' a n at_ cache =>
      rw [handlers_step, cache] at hentry'
      by_cases ho : o = o'
      · subst ho
        rw [Function.update_self] at hentry'
        obtain rfl := Option.some.inj hentry'
        exact origin_set h at_
      · rw [Function.update_of_ne fun hk => ho (cacheKey_inj hk)] at hentry'
        exact (h.entries o entry hentry').later
  -- a DEL can only take an entry away
  | del o' at_ cache =>
      rw [handlers_step, cache] at hentry'
      by_cases ho : o = o'
      · subst ho
        rw [Function.update_self] at hentry'
        cases hentry'
      · rw [Function.update_of_ne fun hk => ho (cacheKey_inj hk)] at hentry'
        exact (h.entries o entry hentry').later

/-- A request comes before its SET by its INSERT. -/
theorem creates_proc (h : Remembered env s₀ evs) (i : ι) (out : Outcome) (j : ι) (o : String)
    (a : Double) (n : Int)
    (hj : ((handlers env).run s₀ (evs ++ [.proc i out])).proc j = .createCache o a n) :
    (handlers env).Happened (InsertsRow j o a n) s₀ (evs ++ [.proc i out]) := by
  rw [Machine.run_concat] at hj
  by_cases hij : j = i
  · subst hij
    rw [Machine.fire_proc_self, handlers_step] at hj
    refine ((handlers env).happened_concat).mpr (.inr ?_)
    cases step_table env out (((handlers env).run s₀ evs).proc j)
        ((handlers env).run s₀ evs).world with
    | insert o' a' n' at_ ok next table changes =>
        rw [next] at hj
        cases hj
        exact ⟨by rw [ok], at_, _, table⟩
    | keep table changes next =>
        rw [hj] at next
        cases next
    | failed at_ table changes next =>
        rw [hj] at next
        cases next
    | update o' a' c' n' at_ ok next table changes =>
        rw [next] at hj
        cases hj
    | delete o' at_ ok next table changes =>
        rw [next] at hj
        cases hj
  · rw [Machine.fire_proc_other _ _ hij] at hj
    exact happened_later (h.creates j o a n hj)

/-- **One event**, of a request or of the environment. -/
theorem remembered_concat (h : Remembered env s₀ evs) (e : Event ι Outcome EnvEvent) :
    Remembered env s₀ (evs ++ [e]) := by
  cases e with
  | proc i out => exact ⟨entries_proc h i out, creates_proc h i out⟩
  | env x =>
      constructor
      · refine entries_later h fun o entry hentry => ?_
        rw [Machine.run_concat, Machine.fire_env_world, handlers_env] at hentry
        cases x with
        | tick ms => exact hentry
        | shutdown => exact hentry
        | drop key =>
            -- Redis loses a key
            by_cases hk : cacheKey o = key
            · subst hk
              simp [EnvEvent.apply] at hentry
            · simpa [EnvEvent.apply, Function.update_of_ne hk] using hentry
      · intro j o a n hj
        rw [Machine.run_concat] at hj
        exact happened_later (h.creates j o a n hj)

end

/-! ## §3. Every run. -/

/-- **Every entry of every run has an origin**; the induction is on the run. -/
theorem remembered_run (env : Env) (w : World) (hcache : ∀ o, w.cache (cacheKey o) = none)
    (jobs : ι → Job) (evs : List (Event ι Outcome EnvEvent)) :
    Remembered env (initial w jobs) evs := by
  induction evs using List.reverseRecOn with
  | nil =>
      refine ⟨fun o entry h => ?_, fun j o a n h => ?_⟩
      · exact absurd ((hcache o).symm.trans h) (by simp)
      · cases h
  | append_singleton evs e ih => exact remembered_concat ih e

/-- A hit returns what `GET` found, and the call did not fail. -/
theorem getCache_hit {env : Env} {out : Outcome} {o : String} {w : World} {reply : Reply}
    (h : (step env out (.getCache o) w).1 = .done reply) :
    ∃ payload, w.cache.get w.clock (cacheKey o) = some payload
      ∧ reply = .returned (Response.ofBody payload) := by
  simp only [step] at h
  split at h
  · next payload w' hhit =>
      cases h
      refine ⟨payload, ?_, rfl⟩
      unfold tryGetCachedOrder at hhit
      split at hhit
      · cases out with
        | ok =>
            dsimp only at hhit
            split at hhit
            · next p hp => rw [hp, (Prod.mk.inj hhit).1]
            · cases (Prod.mk.inj hhit).1
        | fail applied => cases (Prod.mk.inj hhit).1
      · cases (Prod.mk.inj hhit).1
  · cases h

/-- **Staleness is bounded by the TTL.**  From a Redis without `order:` keys, in
    every interleaving and with any calls failing, executed by the server or not:
    if the GET of a `get_order(o)` answers the request, then some `create_order`
    inserted the row `o` and issued its SET less than `cache_ttl_seconds` ago, and
    the answer is the payload that request answered with. -/
theorem staleness_bounded (env : Env) (w : World) (hcache : ∀ o, w.cache (cacheKey o) = none)
    (jobs : ι → Job) (evs : List (Event ι Outcome EnvEvent)) (i : ι) (out : Outcome) (o : String)
    (reply : Reply) (hpc : ((handlers env).run (initial w jobs) evs).proc i = .getCache o)
    (hhit : ((handlers env).run (initial w jobs) (evs ++ [.proc i out])).proc i = .done reply) :
    ∃ j body amount now at_, (jobs j).call = .createOrder body
      ∧ (handlers env).Happened (InsertsRow j o amount now) (initial w jobs) evs
      ∧ (handlers env).Happened (IssuesSet j o amount now at_) (initial w jobs) evs
      ∧ at_ ≤ ((handlers env).run (initial w jobs) evs).world.clock
      ∧ ((handlers env).run (initial w jobs) evs).world.clock < at_ + env.cacheTtlSeconds * 1000
      ∧ reply = .returned (Response.ofBody (env.dump (createdJson env o amount now)))
      ∧ ((handlers env).run (initial w jobs) evs).proc j
        = .done (jsonReply env (createdJson env o amount now)) := by
  rw [Machine.run_concat, Machine.fire_proc_self, hpc, handlers_step] at hhit
  obtain ⟨payload, hget, rfl⟩ := getCache_hit hhit
  obtain ⟨entry, hentry, hfresh, rfl⟩ := Cache.get_eq_some.mp hget
  obtain ⟨j, a, n, at_, hins, hset, hle, rfl, hdone⟩ :=
    (remembered_run env w hcache jobs evs).entries o entry hentry
  -- the request that stands before its INSERT is a `create_order`
  have hcreate : ∃ body, (jobs j).call = .createOrder body := by
    obtain ⟨pre, e, post, -, -, hstep, -⟩ := hins
    have hcarries := carries_run env w jobs pre j
    rw [hstep] at hcarries
    obtain ⟨body, hbody, -⟩ := hcarries
    exact ⟨body, hbody⟩
  obtain ⟨body, hbody⟩ := hcreate
  exact ⟨j, body, a, n, at_, hbody, hins, hset, hle, hfresh, rfl, hdone⟩

/-- A creation and a payment whose DEL fails; then 299 seconds pass and the order
    is read. -/
def staleRun : List (Event (Fin 3) Outcome EnvEvent) :=
  schedule (turns [0, 0, 0, 0, 1, 1, 1, 1, 1])
    ++ [.proc 1 (.fail false), .env (.tick 299000), .proc 2 .ok]

/-- A creation, a payment and a reading of the same order. -/
def createPayRead : Fin 3 → Job
  | 0 => sampleCreate
  | 1 => samplePay 1
  | 2 => sampleGet

/-- An entry that is still there 299 seconds behind its SET. -/
theorem staleness_bounded_staleRun : (∀ o, ({} : World).cache (cacheKey o) = none) ∧
    ∃ j body amount now at_, (createPayRead j).call = .createOrder body
      ∧ (handlers sampleEnv).Happened (InsertsRow j "ORD17000000007" amount now)
        (initial {} createPayRead) staleRun
      ∧ (handlers sampleEnv).Happened (IssuesSet j "ORD17000000007" amount now at_)
        (initial {} createPayRead) staleRun
      ∧ at_ ≤ 299000 ∧ 299000 < at_ + 300 * 1000 := by
  refine ⟨fun _ => rfl, ?_⟩
  obtain ⟨j, body, a, n, at_, hbody, hins, hset, hle, hlt, -⟩ := staleness_bounded sampleEnv {}
    (fun _ => rfl) createPayRead staleRun 2 .ok "ORD17000000007" _ rfl rfl
  exact ⟨j, body, a, n, at_, hbody, hins, hset, hle, hlt⟩

end OrderApi.Orders
