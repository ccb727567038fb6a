/-
  OrderApi.Server.Scrape
  ──────────────────────
  **THE DERIVED METRICS OF ONE SCRAPE.**

  `/metrics` loads one counter after the other while other threads count.  For
  `cache_hit_ratio` it loads `cache_hits` twice, and for the average and the
  maximum duration it loads three counters that `observe_request_duration_ms`
  updates one by one.  A `Gaps` says which updates fall between which loads;
  `metricsText_gaps` says that every interleaving is of this form.

    • `derived_metrics_consistent`   the ratio lies in [0, 1] exactly when the hits
                              counted between the two loads are no more than the
                              misses counted before; the average is at most the
                              maximum as long as no call is caught between its
                              own updates;
    • `derived_metrics_inconsistent`   a scrape with ratio 2 and an average of 5
                              over a maximum of 0.
-/
import OrderApi.Server.Observe
import OrderApi.Server.Routes
import Mathlib.Algebra.Order.Field.Basic
import Mathlib.Data.Rat.Cast.Order
import Mathlib.Tactic.NormNum
import Mathlib.Tactic.Positivity

namespace OrderApi.Server

open OrderApi.Lib
open OrderApi.Lib.Prog
open OrderApi.Model

/-! ## §1. What the handler loads. -/

/-- The lines of single counters and flags. -/
def plainLines : Code String := do
  let total ← counterLine "total_requests" .totalRequests
  let created ← counterLine "orders_created" .ordersCreated
  let paid ← counterLine "orders_paid" .ordersPaid
  let hits ← counterLine "cache_hits" .cacheHits
  let misses ← counterLine "cache_misses" .cacheMisses
  let overload ← counterLine "overload_rejections" .overloadRejections
  let shutdown ← counterLine "shutdown_rejections" .shutdownRejections
  let redisErrors ← counterLine "redis_errors" .redisErrors
  let sqliteErrors ← counterLine "sqlite_errors" .sqliteErrors
  let inFlight ← counterLine "in_flight_requests" .inFlightRequests
  let redis : Bool ← perform .loadRedisAvailable
  let ready ← isReady
  pure ("# TYPE total_requests counter\n" ++ total ++ created ++ paid ++ hits ++ misses ++ overload
    ++ shutdown ++ redisErrors ++ sqliteErrors ++ inFlight
    ++ metricsLine "redis_available" (flag redis) ++ metricsLine "service_ready" (flag ready))

/-- What is loaded for the lines after them. -/
structure Derived where
  hits : Int
  misses : Int
  /-- The hits as loaded for the numerator; 0 where they are not loaded again. -/
  hitsAgain : Int
  samples : Int
  totalMs : Int
  maxMs : Int
  deriving DecidableEq

/-- These loads, in the order of the handler. -/
def derivedLoads : Code Derived := do
  let hits : Int ← perform (.load .cacheHits)
  let misses : Int ← perform (.load .cacheMisses)
  let hitsAgain : Int ← (if hits + misses = 0 then pure 0 else perform (.load .cacheHits))
  let samples : Int ← perform (.load .requestDurationSamples)
  let totalMs : Int ← perform (.load .requestDurationMsTotal)
  let maxMs : Int ← perform (.load .requestDurationMsMax)
  pure { hits, misses, hitsAgain, samples, totalMs, maxMs }

namespace Derived

/-- The lines. -/
def text (svc : Service) (d : Derived) : String :=
  metricsLine "cache_hit_ratio" (ratioOrZero svc d.hitsAgain (d.hits + d.misses))
    ++ metricsLine "http_request_duration_ms_total" (toString d.totalMs)
    ++ metricsLine "http_request_duration_ms_count" (toString d.samples)
    ++ metricsLine "http_request_duration_ms_avg" (ratioOrZero svc d.totalMs d.samples)
    ++ metricsLine "http_request_duration_ms_max" (toString d.maxMs)

/-- `cache_hit_ratio` as a number. -/
def cacheRatio (d : Derived) : ℚ :=
  if d.hits + d.misses = 0 then 0 else d.hitsAgain / (d.hits + d.misses)

/-- `http_request_duration_ms_avg` as a number. -/
def latencyAvg (d : Derived) : ℚ := if d.samples = 0 then 0 else d.totalMs / d.samples

end Derived

/-- The handler is the two parts one after the other. -/
theorem metricsText_eq (svc : Service) :
    metricsText svc = plainLines >>= fun head =>
      derivedLoads >>= fun d => pure (head ++ d.text svc) := by
  unfold metricsText plainLines derivedLoads cacheRatio counterLine
  simp only [bind_assoc, LawfulMonad.pure_bind, Derived.text]
  -- the same loads up to the ratio
  iterate 12 refine bind_congr fun _ => ?_
  refine bind_congr fun hits => ?_
  refine bind_congr fun misses => ?_
  by_cases hzero : hits + misses = 0
  · simp [hzero, ratioOrZero, String.append_assoc]
  · simp [hzero, ratioOrZero, String.append_assoc]

/-! ## §2. Where the updates fall. -/

/-- What an operation of the handler reads. -/
def loads (env : Env) : (o : Op) → World → Option (Op.Res o)
  | .atomic a, w => some (a.exec env w).1
  | .order _ _, _ => none

/-- A load and what follows it. -/
theorem follow_load {env : Env} {c : Counter} {β : Type} {k : Int → Code β} {w : World}
    {ws : List World} :
    (perform (.load c) >>= k).follow (loads env) (w :: ws)
      = (k (c.read w.metrics)).follow (loads env) ws := rfl

/-- An interleaving of the loads of one `/metrics` request with the updates of the
    counters: the updates that come before each load, after the load before it. -/
structure Gaps (ι : Type) where
  /-- Before each load of the plain lines. -/
  lines : List (List (Event ι Move Lookup))
  hits : List (Event ι Move Lookup)
  misses : List (Event ι Move Lookup)
  /-- Before `cache_hits` is loaded again; where it is not, the next load comes
      after these. -/
  again : List (Event ι Move Lookup)
  samples : List (Event ι Move Lookup)
  total : List (Event ι Move Lookup)
  max : List (Event ι Move Lookup)

namespace Gaps

variable {ι : Type} [DecidableEq ι] (w : World) (g : Gaps ι)

/-- The updates before the load of `cache_hits`, from startup on. -/
def upToHits : List (Event ι Move Lookup) := g.lines.flatten ++ g.hits

/-- The updates before the load of `cache_misses`. -/
def upToMisses : List (Event ι Move Lookup) := g.upToHits ++ g.misses

/-- The updates before the load of `request_duration_samples`. -/
def upToSamples : List (Event ι Move Lookup) := g.upToMisses ++ g.again ++ g.samples

/-- The state in which each of the derived loads is made. -/
def atHits : Observers ι :=
  observers.run (observers.run (noneObserving w) g.lines.flatten) g.hits
@[inherit_doc atHits]
def atMisses : Observers ι := observers.run (g.atHits w) g.misses
@[inherit_doc atHits]
def atAgain : Observers ι := observers.run (g.atMisses w) g.again
@[inherit_doc atHits]
def atSamples : Observers ι := observers.run (g.atAgain w) g.samples
@[inherit_doc atHits]
def atTotal : Observers ι := observers.run (g.atSamples w) g.total
@[inherit_doc atHits]
def atMax : Observers ι := observers.run (g.atTotal w) g.max

/-- The handler loads `cache_hits` a second time. -/
def loadsAgain : Prop :=
  (g.atHits w).world.metrics.cacheHits + (g.atMisses w).world.metrics.cacheMisses ≠ 0

instance : Decidable (g.loadsAgain w) := inferInstanceAs (Decidable (_ ≠ _))

/-- What it loads. -/
def derived : Derived where
  hits := (g.atHits w).world.metrics.cacheHits
  misses := (g.atMisses w).world.metrics.cacheMisses
  hitsAgain := if g.loadsAgain w then (g.atAgain w).world.metrics.cacheHits else 0
  samples := (g.atSamples w).world.metrics.requestDurationSamples
  totalMs := (g.atTotal w).world.metrics.requestDurationMsTotal
  maxMs := (g.atMax w).world.metrics.requestDurationMsMax

/-- The states in which it loads, one for each load. -/
def lineMoments : List World := (observers.pauses (noneObserving w) g.lines).map (·.world)
@[inherit_doc lineMoments]
def derivedMoments : List World :=
  [(g.atHits w).world, (g.atMisses w).world]
    ++ (if g.loadsAgain w then [(g.atAgain w).world] else [])
    ++ [(g.atSamples w).world, (g.atTotal w).world, (g.atMax w).world]

/-- The derived loads at their moments. -/
theorem follow_derivedLoads (env : Env) :
    derivedLoads.follow (loads env) (g.derivedMoments w) = some (g.derived w) := by
  unfold derivedMoments derived
  by_cases hagain : g.loadsAgain w
  · have hsum : ¬ Counter.cacheHits.read (g.atHits w).world.metrics
        + Counter.cacheMisses.read (g.atMisses w).world.metrics = 0 := hagain
    rw [if_pos hagain, if_pos hagain]
    show derivedLoads.follow (loads env) [_, _, _, _, _, _] = _
    rw [derivedLoads, follow_load, follow_load, if_neg hsum]
    rfl
  · have hsum : Counter.cacheHits.read (g.atHits w).world.metrics
        + Counter.cacheMisses.read (g.atMisses w).world.metrics = 0 := not_not.mp hagain
    rw [if_neg hagain, if_neg hagain]
    show derivedLoads.follow (loads env) [_, _, _, _, _] = _
    rw [derivedLoads, follow_load, follow_load, if_pos hsum]
    rfl

end Gaps

section
variable {ι : Type} [DecidableEq ι]

/-- A scrape at the moments of an interleaving. -/
theorem follow_metricsText (svc : Service) (w : World) (g : Gaps ι) {head : String}
    (hhead : plainLines.follow (loads svc.env) (g.lineMoments w) = some head) :
    (metricsText svc).follow (loads svc.env) (g.lineMoments w ++ g.derivedMoments w)
      = some (head ++ (g.derived w).text svc) := by
  rw [metricsText_eq, follow_bind]
  refine ⟨g.lineMoments w, g.derivedMoments w, head, rfl, hhead, ?_⟩
  rw [follow_bind]
  exact ⟨g.derivedMoments w, [], g.derived w, by simp, g.follow_derivedLoads w svc.env, rfl⟩

/-- The derived loads between some updates have their gaps. -/
theorem derivedLoads_gaps {env : Env} {w : World} {lines cs : List (List (Event ι Move Lookup))}
    {d : Derived}
    (h : derivedLoads.follow (loads env)
      ((observers.pauses (observers.run (noneObserving w) lines.flatten) cs).map (·.world))
        = some d) :
    ∃ g : Gaps ι, g.lines = lines ∧ d = g.derived w
      ∧ (observers.pauses (observers.run (noneObserving w) lines.flatten) cs).map (·.world)
        = g.derivedMoments w := by
  -- the moments decide what is loaded
  suffices hgaps : ∃ g : Gaps ι, g.lines = lines
      ∧ (observers.pauses (observers.run (noneObserving w) lines.flatten) cs).map (·.world)
        = g.derivedMoments w by
    obtain ⟨g, hlines, hmoments⟩ := hgaps
    rw [hmoments, g.follow_derivedLoads] at h
    exact ⟨g, hlines, (Option.some.inj h).symm, hmoments⟩
  obtain _ | ⟨c₁, _ | ⟨c₂, cs⟩⟩ := cs
  · cases h
  · cases h
  · simp only [Machine.pauses, List.map_cons] at h ⊢
    rw [derivedLoads, follow_load, follow_load] at h
    by_cases hsum : Counter.cacheHits.read
        (observers.run (observers.run (noneObserving w) lines.flatten) c₁).world.metrics
          + Counter.cacheMisses.read
            (observers.run (observers.run (observers.run (noneObserving w) lines.flatten) c₁)
              c₂).world.metrics = 0
    -- `cache_hits` is not loaded again: three loads are left
    · rw [if_pos hsum] at h
      obtain _ | ⟨c₃, _ | ⟨c₄, _ | ⟨c₅, _ | ⟨c₆, cs⟩⟩⟩⟩ := cs
      · cases h
      · cases h
      · cases h
      · have hagain : ¬ (⟨lines, c₁, c₂, [], c₃, c₄, c₅⟩ : Gaps ι).loadsAgain w :=
          not_not.mpr hsum
        refine ⟨⟨lines, c₁, c₂, [], c₃, c₄, c₅⟩, rfl, ?_⟩
        rw [Gaps.derivedMoments, if_neg hagain]
        rfl
      · cases h
    · rw [if_neg hsum] at h
      obtain _ | ⟨c₃, _ | ⟨c₄, _ | ⟨c₅, _ | ⟨c₆, _ | ⟨c₇, cs⟩⟩⟩⟩⟩ := cs
      · cases h
      · cases h
      · cases h
      · cases h
      · have hagain : (⟨lines, c₁, c₂, c₃, c₄, c₅, c₆⟩ : Gaps ι).loadsAgain w := hsum
        refine ⟨⟨lines, c₁, c₂, c₃, c₄, c₅, c₆⟩, rfl, ?_⟩
        rw [Gaps.derivedMoments, if_pos hagain]
        rfl
      · cases h

/-- **Every scrape is one of these**: whatever falls between the loads of a
    `/metrics` request, there is an interleaving with its moments and its page. -/
theorem metricsText_gaps (svc : Service) (w : World) (cs : List (List (Event ι Move Lookup)))
    {text : String}
    (h : (metricsText svc).follow (loads svc.env)
      ((observers.pauses (noneObserving w) cs).map (·.world)) = some text) :
    ∃ (g : Gaps ι) (head : String),
      plainLines.follow (loads svc.env) (g.lineMoments w) = some head
        ∧ (observers.pauses (noneObserving w) cs).map (·.world)
          = g.lineMoments w ++ g.derivedMoments w
        ∧ text = head ++ (g.derived w).text svc := by
  rw [metricsText_eq, follow_bind] at h
  obtain ⟨ws₁, ws₂, head, hws, hhead, hrest⟩ := h
  rw [follow_bind] at hrest
  obtain ⟨ws₃, ws₄, d, rfl, hd, hpure⟩ := hrest
  -- nothing is loaded after the derived loads
  have hlast : ws₄ = [] ∧ text = head ++ d.text svc := by
    cases ws₄ with
    | nil => exact ⟨rfl, (Option.some.inj hpure).symm⟩
    | cons w ws => cases hpure
  obtain ⟨rfl, rfl⟩ := hlast
  rw [List.append_nil] at hws
  obtain ⟨l₁, l₂, hsplit, rfl, rfl⟩ := List.map_eq_append_iff.mp hws
  obtain ⟨cs₁, cs₂, rfl, rfl, rfl⟩ := observers.pauses_eq_append hsplit
  obtain ⟨g, rfl, rfl, hmoments⟩ := derivedLoads_gaps hd
  refine ⟨g, head, hhead, ?_, rfl⟩
  rw [observers.pauses_append, List.map_append, hmoments]
  rfl

end

/-! ## §3. Hits and misses. -/

/-- The counter a lookup increments. -/
def Lookup.counter : Lookup → Counter
  | .hit => .cacheHits
  | .miss => .cacheMisses

/-- The event is such a lookup. -/
def isLookup {ι : Type} (l : Lookup) : Event ι Move Lookup → Bool
  | .env x => x = l
  | .proc _ _ => false

/-- How many of the updates are such lookups. -/
def lookupsIn {ι : Type} (l : Lookup) (evs : List (Event ι Move Lookup)) : Nat :=
  evs.countP (isLookup l)

section
variable {ι : Type} [DecidableEq ι] {l : Lookup} {s : Observers ι}

/-- No call of `observe_request_duration_ms` touches the cache counters. -/
theorem observes_lookups {move : Move} {p p' : ObservePoint} {w w' : World}
    (h : Observes move p w p' w') :
    l.counter.read w'.metrics = l.counter.read w.metrics := by
  cases h with
  | rests point proc uncalled world => rw [world]
  | calls d point called proc world => rw [world]
  | addsTotal d point proc world => rw [world]; cases l <;> rfl
  | addsSample d point proc world => rw [world]; cases l <;> rfl
  | reads d point proc world => rw [world]
  | raises d cur point found proc world => rw [world]; cases l <;> rfl

/-- An event adds its lookup, in 32 bits. -/
theorem lookups_fire {n : Int} (h : l.counter.read s.world.metrics = Int.bmod n (2 ^ 32))
    (e : Event ι Move Lookup) :
    l.counter.read (observers.fire s e).world.metrics
      = Int.bmod (n + (isLookup l e).toInt) (2 ^ 32) := by
  cases e with
  | proc i move =>
      rw [Machine.fire_proc_world, observes_lookups (observes move (s.proc i) s.world), h]
      exact congrArg (Int.bmod · (2 ^ 32)) (Int.add_zero n).symm
  | env x =>
      rw [Machine.fire_env_world]
      by_cases hx : x = l
      -- its own counter goes up
      · have hinc : l.counter.read (observers.env x s.world).metrics
            = inc32 (l.counter.read s.world.metrics) := by
          rw [hx]
          cases l <;> rfl
        have hone : (isLookup l (.env x : Event ι Move Lookup)).toInt = 1 := by
          simp [isLookup, hx]
        rw [hinc, h, hone, inc32]
        exact Int.bmod_add_bmod
      · have hkeep : l.counter.read (observers.env x s.world).metrics
            = l.counter.read s.world.metrics := by
          cases l <;> cases x <;> first | rfl | exact absurd rfl hx
        have hzero : (isLookup l (.env x : Event ι Move Lookup)).toInt = 0 := by
          simp [isLookup, hx]
        rw [hkeep, h, hzero, Int.add_zero]

/-- **A run adds its lookups**; the induction is on the run. -/
theorem lookups_run (evs : List (Event ι Move Lookup)) {n : Int}
    (h : l.counter.read s.world.metrics = Int.bmod n (2 ^ 32)) :
    l.counter.read (observers.run s evs).world.metrics
      = Int.bmod (n + lookupsIn l evs) (2 ^ 32) := by
  induction evs generalizing s n with
  | nil =>
      rw [Machine.run_nil, h]
      exact congrArg (Int.bmod · (2 ^ 32)) (Int.add_zero n).symm
  | cons e es ih =>
      rw [Machine.run_cons, ih (lookups_fire h e)]
      congr 1
      unfold lookupsIn
      rw [List.countP_cons]
      cases isLookup l e
      · simp
      · simp only [Bool.toInt_true, if_true]
        omega

/-- As long as it does not overflow, a cache counter counts the lookups. -/
theorem lookups_eq {w : World} (hw : w.metrics = {}) (evs : List (Event ι Move Lookup))
    (hlt : lookupsIn l evs < 2 ^ 31) :
    l.counter.read (observers.run (noneObserving w) evs).world.metrics = lookupsIn l evs := by
  have hstart : l.counter.read (noneObserving w : Observers ι).world.metrics
      = Int.bmod 0 (2 ^ 32) := by
    show l.counter.read w.metrics = _
    rw [hw]
    cases l <;> rfl
  rw [lookups_run evs hstart, Int.zero_add]
  apply Int.bmod_eq_of_le_mul_two
  · omega
  · omega

omit [DecidableEq ι] in
theorem lookupsIn_append {evs evs' : List (Event ι Move Lookup)} :
    lookupsIn l (evs ++ evs') = lookupsIn l evs + lookupsIn l evs' :=
  List.countP_append

end

namespace Gaps

variable {ι : Type} [DecidableEq ι] (w : World) (g : Gaps ι)

/-- The hits counted between the two loads of `cache_hits`. -/
def hitsBetween : Nat := lookupsIn .hit (g.misses ++ g.again)

theorem atHits_eq : g.atHits w = observers.run (noneObserving w) g.upToHits :=
  (observers.run_append _ _ _).symm

theorem atMisses_eq : g.atMisses w = observers.run (noneObserving w) g.upToMisses := by
  rw [upToMisses, observers.run_append, ← atHits_eq]
  rfl

theorem atAgain_eq : g.atAgain w = observers.run (noneObserving w) (g.upToMisses ++ g.again) := by
  rw [observers.run_append, ← atMisses_eq]
  rfl

theorem atSamples_eq : g.atSamples w = observers.run (noneObserving w) g.upToSamples := by
  rw [upToSamples, observers.run_append, ← atAgain_eq]
  rfl

variable {w g}

/-- The three loads for the ratio, while nothing overflows. -/
theorem derived_lookups (hw : w.metrics = {})
    (hlt : lookupsIn .hit (g.upToMisses ++ g.again) + lookupsIn .miss g.upToMisses < 2 ^ 31) :
    (g.derived w).hits = lookupsIn .hit g.upToHits
      ∧ (g.derived w).misses = lookupsIn .miss g.upToMisses
      ∧ (g.loadsAgain w →
          (g.derived w).hitsAgain = lookupsIn .hit g.upToHits + g.hitsBetween) := by
  have hsplit : lookupsIn .hit (g.upToMisses ++ g.again)
      = lookupsIn .hit g.upToHits + g.hitsBetween := by
    rw [hitsBetween, ← lookupsIn_append, upToMisses, List.append_assoc]
  refine ⟨?_, ?_, ?_⟩
  · show Lookup.hit.counter.read (g.atHits w).world.metrics = _
    rw [atHits_eq, lookups_eq hw _ (by omega)]
  · show Lookup.miss.counter.read (g.atMisses w).world.metrics = _
    rw [atMisses_eq, lookups_eq hw _ (by omega)]
  · intro hagain
    show (if g.loadsAgain w then Lookup.hit.counter.read (g.atAgain w).world.metrics else 0) = _
    rw [if_pos hagain, atAgain_eq, lookups_eq hw _ (by omega), hsplit]
    push_cast
    rfl

/-- **The hit ratio**, exactly: it lies in [0, 1] when nothing was counted at all, or
    no more hits between the two loads of `cache_hits` than misses before. -/
theorem cacheRatio_iff (hw : w.metrics = {})
    (hlt : lookupsIn .hit (g.upToMisses ++ g.again) + lookupsIn .miss g.upToMisses < 2 ^ 31) :
    (0 ≤ (g.derived w).cacheRatio ∧ (g.derived w).cacheRatio ≤ 1)
      ↔ (lookupsIn .hit g.upToHits + lookupsIn .miss g.upToMisses = 0
        ∨ g.hitsBetween ≤ lookupsIn .miss g.upToMisses) := by
  obtain ⟨hhits, hmisses, hagain⟩ := derived_lookups hw hlt
  have hloads : g.loadsAgain w ↔
      lookupsIn .hit g.upToHits + lookupsIn .miss g.upToMisses ≠ 0 := by
    show (g.derived w).hits + (g.derived w).misses ≠ 0 ↔ _
    rw [hhits, hmisses]
    omega
  unfold Derived.cacheRatio
  by_cases hzero : lookupsIn .hit g.upToHits + lookupsIn .miss g.upToMisses = 0
  · have hsum : (g.derived w).hits + (g.derived w).misses = 0 := by
      rw [hhits, hmisses]
      omega
    rw [if_pos hsum]
    simp [hzero]
  · have hsum : ¬ (g.derived w).hits + (g.derived w).misses = 0 := by
      rw [hhits, hmisses]
      omega
    rw [if_neg hsum, hhits, hmisses, hagain (hloads.mpr hzero)]
    have hpos : (0 : ℚ) < lookupsIn .hit g.upToHits + lookupsIn .miss g.upToMisses := by
      exact_mod_cast Nat.pos_of_ne_zero hzero
    push_cast
    rw [div_le_one hpos, add_le_add_iff_left, Nat.cast_le]
    constructor
    · intro h
      exact .inr h.2
    · intro h
      exact ⟨by positivity, h.resolve_left hzero⟩

end Gaps

/-! ## §4. Durations. -/

/-- The quotient of a sum by its length. -/
theorem quotient_le {t n m : Nat} (h : t ≤ n * m) :
    (if (n : Int) = 0 then (0 : ℚ) else ((t : Int) : ℚ) / ((n : Int) : ℚ)) ≤ ((m : Int) : ℚ) := by
  by_cases hzero : (n : Int) = 0
  · rw [if_pos hzero]
    exact_mod_cast Nat.zero_le m
  · rw [if_neg hzero]
    have hpos : (0 : ℚ) < ((n : Int) : ℚ) := by
      exact_mod_cast Nat.pos_of_ne_zero fun hn => hzero (by rw [hn]; rfl)
    rw [div_le_iff₀ hpos, mul_comm]
    exact_mod_cast h

/-- The durations counted as samples so far, as a bystander writes them down. -/
def noteCounted {ι : Type} (s : Observers ι) : Event ι Move Lookup → List Nat → List Nat
  | .proc i _, counted => counted ++ sampled (s.proc i)
  | .env _, counted => counted

/-- What a call has added to the total without having added its sample. -/
def ObservePoint.torn : ObservePoint → Int
  | .addSamples d => d
  | _ => 0

/-- The loop for the maximum tears nothing. -/
theorem loopTest_torn (d : Nat) (m : Int) : (loopTest d m).torn = 0 := by
  obtain ⟨heq, -⟩ | ⟨heq, -⟩ := loopTest_cases d m
  · rw [heq]
    rfl
  · rw [heq]
    rfl

/-- It is what its sample will say. -/
theorem torn_eq_sampled (p : ObservePoint) : p.torn = ((sampled p).sum : Nat) := by
  cases p <;> rfl

section
variable {move : Move} {p p' : ObservePoint} {w w' : World}

/-- A call is torn by its first addition and by nothing else. -/
theorem Observes.torn (h : Observes move p w p' w') : p'.torn = p.owedMs := by
  cases h with
  | rests point proc uncalled world => rw [proc, point]; rfl
  | calls d point called proc world => rw [proc, point]; rfl
  | addsTotal d point proc world => rw [proc, point]; rfl
  | addsSample d point proc world => rw [proc, point]; rfl
  | raises d cur point found proc world => rw [proc, point]; rfl
  | reads d point proc world =>
      rw [proc, loopTest_torn, (readsMax_adds (reads_point point).2 move).1]

/-- The call has its sample counted, and is in the loop for the maximum. -/
def ObservePoint.Raising (d : Nat) (p : ObservePoint) : Prop :=
  p.duration = some d ∧ p.readsMax = true

/-- A call leaves the loop when the maximum is at least its duration. -/
theorem Observes.raising (h : Observes move p w p' w') {d : Nat} (hp : p.Raising d) :
    p'.Raising d ∨ (d : Int) ≤ w'.metrics.requestDurationMsMax := by
  obtain hsame | hle := h.duration hp.1
  · refine .inl ⟨hsame, ?_⟩
    have hreads := hp.2
    cases h with
    | rests point proc uncalled world => rw [point] at hreads; cases hreads
    | calls d' point called proc world => rw [point] at hreads; cases hreads
    | addsTotal d' point proc world => rw [point] at hreads; cases hreads
    | addsSample d' point proc world => rw [point] at hreads; cases hreads
    | reads d' point proc world =>
        rw [proc] at hsame ⊢
        obtain ⟨heq, -⟩ | ⟨heq, -⟩ := loopTest_cases d' w.metrics.requestDurationMsMax
        · rw [heq]
          rfl
        · rw [heq] at hsame
          cases hsame
    | raises d' cur point found proc world => rw [proc] at hsame; cases hsame
  · exact .inr hle

/-- A sample that is counted has its call go into the loop. -/
theorem Observes.sampled (h : Observes move p w p' w') {d : Nat} (hd : d ∈ sampled p) :
    p'.Raising d := by
  cases h with
  | addsSample d' point proc world =>
      rw [point] at hd
      rw [proc, List.mem_singleton.mp hd]
      exact ⟨rfl, rfl⟩
  | rests point proc uncalled world => rw [point] at hd; cases hd
  | calls d' point called proc world => rw [point] at hd; cases hd
  | addsTotal d' point proc world => rw [point] at hd; cases hd
  | reads d' point proc world =>
      rw [(readsMax_adds (reads_point point).2 move).2.2.1] at hd
      cases hd
  | raises d' cur point found proc world => rw [point] at hd; cases hd

end

section
variable {ι : Type} [DecidableEq ι] [Fintype ι]

/-- What holds of the three duration counters and the durations counted so far. -/
structure Sampled (s : Observers ι) (counted : List Nat) : Prop where
  sound : ∀ i, (s.proc i).Sound (storedMax s)
  total : s.world.metrics.requestDurationMsTotal
    = wrap64 ((counted.sum : Nat) + ∑ i, (s.proc i).torn)
  samples : s.world.metrics.requestDurationSamples = wrap64 (counted.length : Nat)
  /-- A duration above the maximum belongs to a call in the loop. -/
  covered : ∀ d ∈ counted, (d : Int) ≤ storedMax s ∨ ∃ i, (s.proc i).Raising d

/-- **One event keeps total and samples together**, but for what is torn. -/
theorem sampled_fire {s : Observers ι} {counted : List Nat} (h : Sampled s counted)
    (e : Event ι Move Lookup) : Sampled (observers.fire s e) (noteCounted s e counted) := by
  have hsound := sound_fire h.sound e
  cases e with
  | env x => cases x <;> exact ⟨hsound, h.total, h.samples, h.covered⟩
  | proc i move =>
      have hstep := observes move (s.proc i) s.world
      have htorn := hstep.torn
      have hsampled := torn_eq_sampled (s.proc i)
      refine ⟨hsound, ?_, ?_, ?_⟩
      · rw [Machine.fire_proc_world, hstep.total h.total]
        show _ = wrap64 (((counted ++ sampled (s.proc i)).sum : Nat)
          + ∑ j, (Function.update s.proc i _ j).torn)
        rw [sum_proc_update ObservePoint.torn, List.sum_append]
        congr 1
        omega
      · rw [Machine.fire_proc_world, hstep.samples h.samples]
        show _ = wrap64 ((counted ++ sampled (s.proc i)).length : Nat)
        rw [List.length_append, Int.natCast_add]
      · intro d hd
        obtain hd | hd := List.mem_append.mp hd
        · exact covered_fire (R := ObservePoint.Raising d)
            (fun move p w hp => (observes move p w).raising hp) h.sound (h.covered d hd) _
        -- counted by this very operation
        · refine .inr ⟨i, ?_⟩
          rw [Machine.fire_proc_self]
          exact hstep.sampled hd

/-- **So does a whole run.** -/
theorem sampled_run {w : World} (hw : w.metrics = {}) (evs : List (Event ι Move Lookup)) :
    Sampled (observers.run (noneObserving w) evs)
      (observers.watch noteCounted (noneObserving w) evs []) := by
  refine observers.watch_inv_all (I := Sampled) (fun _ e _ h => sampled_fire h e) evs _ _ ?_
  refine ⟨fun i => trivial, ?_, ?_, ?_⟩
  · show w.metrics.requestDurationMsTotal = wrap64 (0 + ∑ _ : ι, (0 : Int))
    rw [hw, Finset.sum_const_zero]
    rfl
  · show w.metrics.requestDurationSamples = wrap64 0
    rw [hw]
    rfl
  · intro d hd
    cases hd

/-- The step adds nothing to the total: it is not the first addition of a call of
    positive duration. -/
def AddsNothing (s : Observers ι) : Event ι Move Lookup → Prop
  | .proc i _ => ∀ d, s.proc i = .addTotal d → d = 0
  | .env _ => True

omit [Fintype ι] in
/-- Steps that add nothing leave the total alone. -/
theorem total_run {x : Int} {evs : List (Event ι Move Lookup)} {s : Observers ι}
    (h : s.world.metrics.requestDurationMsTotal = wrap64 x)
    (hok : observers.RunOk AddsNothing s evs) :
    (observers.run s evs).world.metrics.requestDurationMsTotal = wrap64 x := by
  refine Machine.run_inv (I := fun s => s.world.metrics.requestDurationMsTotal = wrap64 x)
    observers ?_ evs s h hok
  intro s e hs hstep
  cases e with
  | env y => cases y <;> exact hs
  | proc i move =>
      rw [Machine.fire_proc_world]
      cases observes move (s.proc i) s.world with
      | addsTotal d point proc world =>
          have hzero : d = 0 := hstep d point
          rw [world, hzero]
          show wrap64 (s.world.metrics.requestDurationMsTotal + 0) = wrap64 x
          rw [hs, wrap64_add, Int.add_zero]
      | rests point proc uncalled world => rw [world]; exact hs
      | calls d point called proc world => rw [world]; exact hs
      | addsSample d point proc world => rw [world]; exact hs
      | reads d point proc world => rw [world]; exact hs
      | raises d cur point found proc world => rw [world]; exact hs

namespace Gaps

/-- The durations of the calls that have been counted when the samples are loaded. -/
def counted (w : World) (g : Gaps ι) : List Nat :=
  observers.watch noteCounted (noneObserving w) g.upToSamples []

/-- No call is caught between its own updates. -/
structure Untorn (w : World) (g : Gaps ι) : Prop where
  /-- When the samples are loaded, no call of positive duration stands between its
      two additions. -/
  whole : ∀ i d, (g.atSamples w).proc i = .addSamples d → d = 0
  /-- None makes its first addition before the total is loaded. -/
  still : observers.RunOk AddsNothing (g.atSamples w) g.total
  /-- A call that was in its loop for the maximum when the samples were loaded has
      the maximum at its duration or above when that is loaded. -/
  raised : ∀ i d, ((g.atSamples w).proc i).Raising d → (d : Int) ≤ storedMax (g.atMax w)

variable {w : World} {g : Gaps ι}

/-- The three loads for the durations, if no call is torn and nothing overflows. -/
theorem derived_durations (hw : w.metrics = {}) (hsum : (g.counted w).sum < 2 ^ 63)
    (hlength : (g.counted w).length < 2 ^ 63) (h : g.Untorn w) :
    (g.derived w).samples = (g.counted w).length ∧ (g.derived w).totalMs = (g.counted w).sum
      ∧ ∃ m : Nat, (g.derived w).maxMs = m ∧ ∀ d ∈ g.counted w, d ≤ m := by
  have hsampled : Sampled (g.atSamples w) (g.counted w) := by
    rw [atSamples_eq]
    exact sampled_run hw g.upToSamples
  refine ⟨?_, ?_, ?_⟩
  · show (g.atSamples w).world.metrics.requestDurationSamples = _
    rw [hsampled.samples, wrap64_eq_self hlength]
  · have hnone : (∑ i, ((g.atSamples w).proc i).torn) = 0 := by
      refine Finset.sum_eq_zero fun i _ => ?_
      cases hpoint : (g.atSamples w).proc i with
      | addSamples d =>
          rw [h.whole i d hpoint]
          rfl
      | _ => rfl
    have htotal := hsampled.total
    rw [hnone, Int.add_zero] at htotal
    show (observers.run (g.atSamples w) g.total).world.metrics.requestDurationMsTotal = _
    rw [total_run htotal h.still, wrap64_eq_self hsum]
  · have hmax : g.atMax w
        = observers.run (noneObserving w) (g.upToSamples ++ g.total ++ g.max) := by
      rw [observers.run_append, observers.run_append, ← atSamples_eq]
      rfl
    have hmono : storedMax (g.atSamples w) ≤ storedMax (g.atMax w) := by
      have hle := storedMax_le_run hsampled.sound (g.total ++ g.max)
      rw [observers.run_append] at hle
      exact hle
    have hnonneg : 0 ≤ storedMax (g.atMax w) := by
      rw [hmax]
      obtain hzero | ⟨d, -, heq⟩ := (observed_run hw (g.upToSamples ++ g.total ++ g.max)).max_mem
      · omega
      · omega
    refine ⟨(storedMax (g.atMax w)).toNat, (Int.toNat_of_nonneg hnonneg).symm, ?_⟩
    intro d hd
    -- counted and out of the loop, or in the loop and raised since
    have hle : (d : Int) ≤ storedMax (g.atMax w) := by
      obtain hle | ⟨i, hi⟩ := hsampled.covered d hd
      · exact Int.le_trans hle hmono
      · exact h.raised i d hi
    omega

/-- **The average** is at most the maximum, if no call is torn. -/
theorem latencyAvg_le (hw : w.metrics = {}) (hsum : (g.counted w).sum < 2 ^ 63)
    (hlength : (g.counted w).length < 2 ^ 63) (h : g.Untorn w) :
    (g.derived w).latencyAvg ≤ (g.derived w).maxMs := by
  obtain ⟨hsamples, htotal, m, hmax, hle⟩ := derived_durations hw hsum hlength h
  have hbound : (g.counted w).sum ≤ (g.counted w).length * m := by
    have := List.sum_le_card_nsmul (g.counted w) m hle
    simpa using this
  unfold Derived.latencyAvg
  rw [hsamples, htotal, hmax]
  exact quotient_le hbound

end Gaps

/-! ## §5. One scrape. -/

/-- **The derived metrics of one scrape.**  For every interleaving of the loads of a
    `/metrics` request with cache lookups and calls of
    `observe_request_duration_ms`, by any number of threads and with no counter
    overflowing: the page has the ratio, the average and the maximum of what was
    loaded; the ratio lies in [0, 1] exactly when no more hits were counted between
    the two loads of `cache_hits` than misses before (or nothing had been counted);
    and the average is at most the maximum if no call is caught between its own
    updates. -/
theorem derived_metrics_consistent (svc : Service) (w : World) (hw : w.metrics = {}) (g : Gaps ι)
    (head : String) (hhead : plainLines.follow (loads svc.env) (g.lineMoments w) = some head)
    (hlookups : lookupsIn .hit (g.upToMisses ++ g.again) + lookupsIn .miss g.upToMisses < 2 ^ 31)
    (hsum : (g.counted w).sum < 2 ^ 63) (hlength : (g.counted w).length < 2 ^ 63) :
    (metricsText svc).follow (loads svc.env) (g.lineMoments w ++ g.derivedMoments w)
        = some (head ++ (g.derived w).text svc)
      ∧ ((0 ≤ (g.derived w).cacheRatio ∧ (g.derived w).cacheRatio ≤ 1)
          ↔ (lookupsIn .hit g.upToHits + lookupsIn .miss g.upToMisses = 0
            ∨ g.hitsBetween ≤ lookupsIn .miss g.upToMisses))
      ∧ (g.Untorn w → (g.derived w).latencyAvg ≤ (g.derived w).maxMs) :=
  ⟨follow_metricsText svc w g hhead, Gaps.cacheRatio_iff hw hlookups,
    Gaps.latencyAvg_le hw hsum hlength⟩

end

/-- A service whose quotients are whole numbers. -/
def wholeService : Service := { sampleService with showRatio := fun a b => toString (a / b) }

/-- Before the scrape one hit and one miss, and a call of 5 ms from its beginning to
    its end; between the two loads of `cache_hits` another hit. -/
def calmScrape : Gaps Bool where
  lines := (.proc true (.call 5) :: List.replicate 4 (.proc true .go) ++ [.env .hit, .env .miss])
    :: List.replicate 12 []
  hits := []
  misses := []
  again := [.env .hit]
  samples := []
  total := []
  max := []

/-- In the sample run nobody is within a call. -/
theorem calmScrape_idle (i : Bool) : (calmScrape.atSamples {}).proc i = .idle := by
  cases i <;> decide +kernel

/-- So no call is torn. -/
theorem calmScrape_untorn : calmScrape.Untorn {} where
  whole i d h := by
    rw [calmScrape_idle i] at h
    cases h
  still := trivial
  raised i d h := by
    rw [calmScrape_idle i] at h
    cases h.1

/-- A scrape into which a hit falls. -/
theorem derived_metrics_consistent_calm :
    (calmScrape.derived {}).hitsAgain = 2 ∧ (calmScrape.derived {}).cacheRatio ≤ 1
      ∧ (calmScrape.derived {}).totalMs = 5
      ∧ (calmScrape.derived {}).latencyAvg ≤ (calmScrape.derived {}).maxMs := by
  obtain ⟨-, hratio, havg⟩ := derived_metrics_consistent wholeService {} rfl calmScrape _ rfl
    (by decide +kernel) (by decide +kernel) (by decide +kernel)
  exact ⟨by decide +kernel, (hratio.mpr (.inr (by decide +kernel))).2, by decide +kernel,
    havg calmScrape_untorn⟩

/-- Before the scrape one hit, and a call of 5 ms that has made its additions; between
    the two loads of `cache_hits` another hit. -/
def hastyScrape : Gaps Bool where
  lines := (.env .hit :: .proc true (.call 5) :: List.replicate 2 (.proc true .go))
    :: List.replicate 12 []
  hits := []
  misses := []
  again := [.env .hit]
  samples := []
  total := []
  max := []

/-- A ratio of 2, and an average of 5 ms over a maximum of 0, on the page of
    `/metrics`. -/
theorem derived_metrics_inconsistent :
    (∃ head, (metricsText wholeService).follow (loads sampleEnv)
        (hastyScrape.lineMoments {} ++ hastyScrape.derivedMoments {})
          = some (head ++ (hastyScrape.derived {}).text wholeService))
      ∧ (hastyScrape.derived {}).text wholeService
        = "cache_hit_ratio 2\nhttp_request_duration_ms_total 5\nhttp_request_duration_ms_count 1\n"
          ++ "http_request_duration_ms_avg 5\nhttp_request_duration_ms_max 0\n"
      ∧ ¬ (hastyScrape.derived {}).cacheRatio ≤ 1
      ∧ ¬ (hastyScrape.derived {}).latencyAvg ≤ (hastyScrape.derived {}).maxMs := by
  have hderived : hastyScrape.derived {} = ⟨1, 0, 2, 1, 5, 0⟩ := by decide +kernel
  refine ⟨⟨_, follow_metricsText wholeService {} hastyScrape rfl⟩, ?_⟩
  rw [hderived]
  refine ⟨by decide +kernel, ?_⟩
  norm_num [Derived.cacheRatio, Derived.latencyAvg]

end OrderApi.Server
