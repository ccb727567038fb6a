/-
  OrderApi.Server.Observe
  ───────────────────────
  **THE LOCK-FREE MAXIMUM.**

  `observe_request_duration_ms` from the inside: two `fetch_add`s, a load, and a
  loop around `compare_exchange_weak`, which may fail for no reason.  Any number
  of threads are in it at a time, one atomic operation after the other, while
  cache lookups move two other counters.

    • `lock_free_max_exact`   over all interleavings: the maximum never goes down
                              and is 0 or a duration that was passed; when no call
                              is in progress it is the largest, and the other two
                              are the sum and the number; an exchange that fails
                              with reason lost against a larger maximum;
    • `observe_as_one`        so the rest of the development may take a call as
                              one operation (`observeRequestDurationMs`).
-/
import OrderApi.Server.Ops
import Mathlib.Data.List.MinMax

namespace OrderApi.Server

open OrderApi.Lib
open OrderApi.Model

/-! ## §1. The function, operation by operation. -/

/-- Two's complement arithmetic in an `std::atomic<int64_t>`. -/
def wrap64 (x : Int) : Int := Int.bmod x (2 ^ 64)

/-- Where a thread stands in `observe_request_duration_ms`: the next atomic
    operation, with the locals it needs. -/
inductive ObservePoint where
  | idle
  | addTotal (durationMs : Nat)
  | addSamples (durationMs : Nat)
  | loadMax (durationMs : Nat)
  | exchange (durationMs : Nat) (currentMax : Int)
  deriving DecidableEq

/-- What a thread is told: to call the function, to go on, or to go on with a
    `compare_exchange_weak` that fails spuriously. -/
inductive Move where
  | call (durationMs : Nat)
  | go
  | spurious
  deriving DecidableEq

/-- The other updates of counters: a cache lookup ends in one of them. -/
inductive Lookup where
  | hit
  | miss
  deriving DecidableEq

/-- `cache_hits.fetch_add(1)` or `cache_misses.fetch_add(1)`. -/
def Lookup.apply : Lookup → World → World
  | .hit, w => { w with metrics.cacheHits := inc32 w.metrics.cacheHits }
  | .miss, w => { w with metrics.cacheMisses := inc32 w.metrics.cacheMisses }

/-- The condition of the loop, as far as it is local: `duration_ms > current_max`. -/
def loopTest (durationMs : Nat) (currentMax : Int) : ObservePoint :=
  if (durationMs : Int) > currentMax then .exchange durationMs currentMax else .idle

/-- `compare_exchange_weak` stores: it finds what it expects, and it does not fail
    spuriously. -/
def exchanges (move : Move) (currentMax : Int) (w : World) : Bool :=
  move ≠ .spurious && w.metrics.requestDurationMsMax = currentMax

/-- One atomic operation of a thread. -/
def observeStep (move : Move) : ObservePoint → World → ObservePoint × World
  | .idle, w =>
      match move with
      | .call d => (.addTotal d, w)
      | _ => (.idle, w)
  | .addTotal d, w =>
      (.addSamples d, { w with
        metrics.requestDurationMsTotal := wrap64 (w.metrics.requestDurationMsTotal + d) })
  | .addSamples d, w =>
      (.loadMax d, { w with
        metrics.requestDurationSamples := wrap64 (w.metrics.requestDurationSamples + 1) })
  | .loadMax d, w => (loopTest d w.metrics.requestDurationMsMax, w)
  | .exchange d currentMax, w =>
      if exchanges move currentMax w then
        (.idle, { w with metrics.requestDurationMsMax := d })
      -- a failed exchange leaves the value it found in `current_max`
      else (loopTest d w.metrics.requestDurationMsMax, w)

/-- The threads in `observe_request_duration_ms` over the shared world. -/
def observers : Machine World ObservePoint Move Lookup where
  step := observeStep
  env := Lookup.apply

/-- A pool of such threads. -/
abbrev Observers (ι : Type) := Pool ι World ObservePoint

/-- No call is in progress. -/
def noneObserving {ι : Type} (w : World) : Observers ι := { world := w, proc := fun _ => .idle }

/-- The stored maximum. -/
abbrev storedMax {ι : Type} (s : Observers ι) : Int := s.world.metrics.requestDurationMsMax

/-- The duration of the call in progress. -/
def ObservePoint.duration : ObservePoint → Option Nat
  | .idle => none
  | .addTotal d => some d
  | .addSamples d => some d
  | .loadMax d => some d
  | .exchange d _ => some d

/-- The thread reads the maximum next, by the load or by an exchange. -/
def ObservePoint.readsMax : ObservePoint → Bool
  | .loadMax _ => true
  | .exchange _ _ => true
  | _ => false

/-- The duration that is passed by this move, if the thread makes a call by it. -/
def begun (move : Move) : ObservePoint → List Nat
  | .idle =>
      match move with
      | .call d => [d]
      | _ => []
  | _ => []

/-- The durations passed so far, as a bystander writes them down. -/
def notePassed {ι : Type} (s : Observers ι) : Event ι Move Lookup → List Nat → List Nat
  | .proc i move, passed => passed ++ begun move (s.proc i)
  | .env _, passed => passed

/-! ## §2. What one operation does. -/

/-- An exchange expects what was loaded, and that is less. -/
theorem loopTest_exchange {d d' : Nat} {m cur : Int} (h : loopTest d m = .exchange d' cur) :
    d' = d ∧ cur = m ∧ m < d := by
  unfold loopTest at h
  split at h
  · cases h
    exact ⟨rfl, rfl, by omega⟩
  · cases h

theorem mem_begun {move : Move} {p : ObservePoint} {d : Nat} :
    d ∈ begun move p ↔ p = .idle ∧ move = .call d := by
  cases p with
  | idle => cases move <;> simp [begun, eq_comm]
  | _ => simp [begun]

theorem begun_eq_nil {move : Move} {p : ObservePoint}
    (h : ∀ d, ¬ (p = .idle ∧ move = .call d)) : begun move p = [] :=
  List.eq_nil_iff_forall_not_mem.mpr fun d hd => h d (mem_begun.mp hd)

/-- The loop goes on, or the maximum is large enough. -/
theorem loopTest_cases (d : Nat) (m : Int) :
    (loopTest d m = .exchange d m ∧ m < d) ∨ (loopTest d m = .idle ∧ (d : Int) ≤ m) := by
  unfold loopTest
  by_cases h : (d : Int) > m
  · rw [if_pos h]
    exact .inl ⟨rfl, h⟩
  · rw [if_neg h]
    exact .inr ⟨rfl, by omega⟩

/-- **One operation of a thread**, by what it does to the counters. -/
inductive Observes (move : Move) (p : ObservePoint) (w : World) (p' : ObservePoint) (w' : World) :
    Prop where
  | rests (point : p = .idle) (proc : p' = .idle) (uncalled : ∀ d, move ≠ .call d)
      (world : w' = w)
  | calls (d : Nat) (point : p = .idle) (called : move = .call d) (proc : p' = .addTotal d)
      (world : w' = w)
  | addsTotal (d : Nat) (point : p = .addTotal d) (proc : p' = .addSamples d)
      (world : w' = { w with
        metrics.requestDurationMsTotal := wrap64 (w.metrics.requestDurationMsTotal + d) })
  | addsSample (d : Nat) (point : p = .addSamples d) (proc : p' = .loadMax d)
      (world : w' = { w with
        metrics.requestDurationSamples := wrap64 (w.metrics.requestDurationSamples + 1) })
  | reads (d : Nat) (point : p = .loadMax d ∨ ∃ cur, p = .exchange d cur)
      (proc : p' = loopTest d w.metrics.requestDurationMsMax) (world : w' = w)
  | raises (d : Nat) (cur : Int) (point : p = .exchange d cur)
      (found : w.metrics.requestDurationMsMax = cur) (proc : p' = .idle)
      (world : w' = { w with metrics.requestDurationMsMax := d })

/-- Both points at which the maximum is read belong to the same call. -/
theorem reads_point {p : ObservePoint} {d : Nat} (h : p = .loadMax d ∨ ∃ cur, p = .exchange d cur) :
    p.duration = some d ∧ p.readsMax = true := by
  obtain hpoint | ⟨cur, hpoint⟩ := h
  · rw [hpoint]
    exact ⟨rfl, rfl⟩
  · rw [hpoint]
    exact ⟨rfl, rfl⟩

/-- **One step of a thread is one of these.** -/
theorem observes (move : Move) (p : ObservePoint) (w : World) :
    Observes move p w (observers.step move p w).1 (observers.step move p w).2 := by
  show Observes move p w (observeStep move p w).1 (observeStep move p w).2
  cases p with
  | idle =>
      cases move with
      | call d => exact .calls d rfl rfl rfl rfl
      | go => exact .rests rfl rfl (fun d h => by cases h) rfl
      | spurious => exact .rests rfl rfl (fun d h => by cases h) rfl
  | addTotal d => exact .addsTotal d rfl rfl rfl
  | addSamples d => exact .addsSample d rfl rfl rfl
  | loadMax d => exact .reads d (.inl rfl) rfl rfl
  | exchange d cur =>
      dsimp only [observeStep]
      by_cases h : exchanges move cur w = true
      · rw [if_pos h]
        have hfound : w.metrics.requestDurationMsMax = cur := by
          simp only [exchanges, Bool.and_eq_true, decide_eq_true_eq] at h
          exact h.2
        exact .raises d cur rfl hfound rfl rfl
      · rw [if_neg h]
        exact .reads d (.inr ⟨cur, rfl⟩) rfl rfl

section
variable {move : Move} {p p' : ObservePoint} {w w' : World}

/-- What holds of a thread's locals: an exchange expects less than its duration,
    and no more than is stored. -/
def ObservePoint.Sound (m : Int) : ObservePoint → Prop
  | .exchange d cur => cur < d ∧ cur ≤ m
  | _ => True

theorem ObservePoint.Sound.mono {m m' : Int} (h : p.Sound m) (hle : m ≤ m') : p.Sound m' := by
  cases p with
  | exchange d cur => exact ⟨h.1, Int.le_trans h.2 hle⟩
  | _ => trivial

/-- The test of the loop is sound. -/
theorem loopTest_sound (d : Nat) (m : Int) : (loopTest d m).Sound m := by
  obtain ⟨heq, hlt⟩ | ⟨heq, -⟩ := loopTest_cases d m
  · rw [heq]
    exact ⟨hlt, Int.le_refl m⟩
  · rw [heq]
    trivial

/-- **A step keeps the locals sound.** -/
theorem Observes.sound (h : Observes move p w p' w') :
    p'.Sound w'.metrics.requestDurationMsMax := by
  cases h with
  | reads d point proc world =>
      rw [proc, world]
      exact loopTest_sound d _
  | rests point proc uncalled world => rw [proc]; trivial
  | calls d point called proc world => rw [proc]; trivial
  | addsTotal d point proc world => rw [proc]; trivial
  | addsSample d point proc world => rw [proc]; trivial
  | raises d cur point found proc world => rw [proc]; trivial

/-- An operation leaves the maximum alone, or raises it to the duration of its
    call. -/
theorem Observes.max (h : Observes move p w p' w') (hp : p.Sound w.metrics.requestDurationMsMax) :
    w'.metrics.requestDurationMsMax = w.metrics.requestDurationMsMax
      ∨ ∃ d, p.duration = some d ∧ w'.metrics.requestDurationMsMax = d
        ∧ w.metrics.requestDurationMsMax < d := by
  cases h with
  | raises d cur point found proc world =>
      rw [point] at hp
      refine .inr ⟨d, by rw [point]; rfl, by rw [world], ?_⟩
      rw [found]
      exact hp.1
  | rests point proc uncalled world => rw [world]; exact .inl rfl
  | calls d point called proc world => rw [world]; exact .inl rfl
  | addsTotal d point proc world => rw [world]; exact .inl rfl
  | addsSample d point proc world => rw [world]; exact .inl rfl
  | reads d point proc world => rw [world]; exact .inl rfl

/-- **No step lowers the maximum.** -/
theorem Observes.max_le (h : Observes move p w p' w')
    (hp : p.Sound w.metrics.requestDurationMsMax) :
    w.metrics.requestDurationMsMax ≤ w'.metrics.requestDurationMsMax := by
  obtain heq | ⟨d, -, heq, hlt⟩ := h.max hp
  · rw [heq]
  · rw [heq]
    omega

/-- A call ends when the maximum is at least its duration. -/
theorem Observes.duration (h : Observes move p w p' w') {d : Nat} (hd : p.duration = some d) :
    p'.duration = some d ∨ (d : Int) ≤ w'.metrics.requestDurationMsMax := by
  cases h with
  | rests point proc uncalled world =>
      rw [point] at hd
      cases hd
  | calls d' point called proc world =>
      rw [point] at hd
      cases hd
  | addsTotal d' point proc world =>
      rw [point] at hd
      rw [proc]
      exact .inl hd
  | addsSample d' point proc world =>
      rw [point] at hd
      rw [proc]
      exact .inl hd
  | reads d' point proc world =>
      have hsame : d' = d := Option.some.inj ((reads_point point).1.symm.trans hd)
      subst hsame
      rw [proc, world]
      -- the loop stays on this duration or has seen enough
      obtain ⟨heq, -⟩ | ⟨-, hle⟩ := loopTest_cases d' w.metrics.requestDurationMsMax
      · rw [heq]
        exact .inl rfl
      · exact .inr hle
  | raises d' cur point found proc world =>
      rw [point] at hd
      have hsame : d' = d := Option.some.inj hd
      rw [world, hsame]
      exact .inr (Int.le_refl _)

/-- A call in progress was in progress before or has just been made. -/
theorem Observes.origin (h : Observes move p w p' w') {d : Nat} (hd : p'.duration = some d) :
    p.duration = some d ∨ (p = .idle ∧ move = .call d) := by
  cases h with
  | rests point proc uncalled world =>
      rw [proc] at hd
      cases hd
  | calls d' point called proc world =>
      rw [proc] at hd
      have hsame : d' = d := Option.some.inj hd
      exact .inr ⟨point, by rw [called, hsame]⟩
  | addsTotal d' point proc world =>
      rw [proc] at hd
      rw [point]
      exact .inl hd
  | addsSample d' point proc world =>
      rw [proc] at hd
      rw [point]
      exact .inl hd
  | reads d' point proc world =>
      rw [proc] at hd
      have hsame : d' = d := by
        obtain ⟨heq, -⟩ | ⟨heq, -⟩ := loopTest_cases d' w.metrics.requestDurationMsMax
        · rw [heq] at hd
          exact Option.some.inj hd
        · rw [heq] at hd
          cases hd
      rw [← hsame]
      exact .inl (reads_point point).1
  | raises d' cur point found proc world =>
      rw [proc] at hd
      cases hd

end

/-! ## §3. The maximum, over all interleavings. -/

section
variable {ι : Type} [DecidableEq ι] {s : Observers ι} {passed : List Nat}

omit [DecidableEq ι] in
/-- A duration was passed before, or it is now. -/
theorem mem_notePassed {i : ι} {move : Move} {d : Nat} :
    d ∈ notePassed s (.proc i move) passed
      ↔ d ∈ passed ∨ (s.proc i = .idle ∧ move = .call d) := by
  show d ∈ passed ++ begun move (s.proc i) ↔ _
  rw [List.mem_append, mem_begun]

/-- What holds of the maximum and of the durations passed so far. -/
structure Observed (s : Observers ι) (passed : List Nat) : Prop where
  sound : ∀ i, (s.proc i).Sound (storedMax s)
  max_mem : storedMax s = 0 ∨ ∃ d ∈ passed, storedMax s = d
  known : ∀ i d, (s.proc i).duration = some d → d ∈ passed
  /-- A duration above the maximum belongs to a call in progress. -/
  covered : ∀ d ∈ passed, (d : Int) ≤ storedMax s ∨ ∃ i, (s.proc i).duration = some d

/-- No event lowers the maximum. -/
theorem storedMax_le_fire (hsound : ∀ i, (s.proc i).Sound (storedMax s))
    (e : Event ι Move Lookup) : storedMax s ≤ storedMax (observers.fire s e) := by
  cases e with
  | env x => cases x <;> exact Int.le_refl _
  | proc i move => exact (observes move (s.proc i) s.world).max_le (hsound i)

/-- And every event keeps the locals of all the threads sound. -/
theorem sound_fire (hsound : ∀ i, (s.proc i).Sound (storedMax s)) (e : Event ι Move Lookup)
    (j : ι) : ((observers.fire s e).proc j).Sound (storedMax (observers.fire s e)) := by
  have hle := storedMax_le_fire hsound e
  cases e with
  | env x => exact (hsound j).mono hle
  | proc i move =>
      by_cases hij : j = i
      · subst hij
        unfold storedMax
        rw [Machine.fire_proc_self, Machine.fire_proc_world]
        exact (observes move (s.proc j) s.world).sound
      -- the maximum only grows under the others
      · rw [Machine.fire_proc_other _ _ hij]
        exact (hsound j).mono hle

/-- A duration is covered by the maximum, or by a call of which `R` says that it goes
    on until it is. -/
theorem covered_fire {R : ObservePoint → Prop} {d : Nat}
    (hR : ∀ move p w, R p → R (observers.step move p w).1
      ∨ (d : Int) ≤ (observers.step move p w).2.metrics.requestDurationMsMax)
    (hsound : ∀ i, (s.proc i).Sound (storedMax s))
    (h : (d : Int) ≤ storedMax s ∨ ∃ i, R (s.proc i)) (e : Event ι Move Lookup) :
    (d : Int) ≤ storedMax (observers.fire s e) ∨ ∃ i, R ((observers.fire s e).proc i) := by
  obtain hmax | ⟨j, hj⟩ := h
  · exact .inl (Int.le_trans hmax (storedMax_le_fire hsound e))
  · cases e with
    | env x => exact .inr ⟨j, hj⟩
    | proc i move =>
        by_cases hij : j = i
        · subst hij
          refine (hR move (s.proc j) s.world hj).symm.imp id ?_
          intro hgoes
          exact ⟨j, by rw [Machine.fire_proc_self]; exact hgoes⟩
        · refine .inr ⟨j, ?_⟩
          rw [Machine.fire_proc_other _ _ hij]
          exact hj

/-- **One event keeps the maximum exact.** -/
theorem observed_fire (h : Observed s passed) (e : Event ι Move Lookup) :
    Observed (observers.fire s e) (notePassed s e passed) := by
  refine ⟨sound_fire h.sound e, ?_, ?_, ?_⟩
  · cases e with
    | env x => cases x <;> exact h.max_mem
    | proc i move =>
        obtain heq | ⟨d, hd, heq, -⟩ := (observes move (s.proc i) s.world).max (h.sound i)
        · refine h.max_mem.imp (heq.trans ·) ?_
          rintro ⟨d, hd, hmax⟩
          exact ⟨d, mem_notePassed.mpr (.inl hd), heq.trans hmax⟩
        · exact .inr ⟨d, mem_notePassed.mpr (.inl (h.known i d hd)), heq⟩
  · intro j d hd
    cases e with
    | env x => exact h.known j d hd
    | proc i move =>
        by_cases hij : j = i
        · subst hij
          rw [Machine.fire_proc_self] at hd
          obtain hbefore | hcalled := (observes move (s.proc j) s.world).origin hd
          · exact mem_notePassed.mpr (.inl (h.known j d hbefore))
          · exact mem_notePassed.mpr (.inr hcalled)
        · rw [Machine.fire_proc_other _ _ hij] at hd
          exact mem_notePassed.mpr (.inl (h.known j d hd))
  · intro d hd
    cases e with
    | env x => cases x <;> exact h.covered d hd
    | proc i move =>
        rw [mem_notePassed] at hd
        obtain hd | ⟨hidle, hcall⟩ := hd
        · exact covered_fire (R := fun p => p.duration = some d)
            (fun move p w hp => (observes move p w).duration hp) h.sound (h.covered d hd) _
        -- passed just now: its call has begun
        · refine .inr ⟨i, ?_⟩
          rw [Machine.fire_proc_self, hcall, hidle]
          rfl

omit [DecidableEq ι] in
/-- Before the first call. -/
theorem observed_noneObserving {w : World} (hw : w.metrics = {}) :
    Observed (noneObserving w : Observers ι) [] := by
  refine ⟨fun i => trivial, .inl ?_, ?_, ?_⟩
  · show w.metrics.requestDurationMsMax = 0
    rw [hw]
  · intro i d hd
    cases hd
  · intro d hd
    cases hd

/-- **It is exact in every run.** -/
theorem observed_run {w : World} (hw : w.metrics = {}) (evs : List (Event ι Move Lookup)) :
    Observed (observers.run (noneObserving w) evs)
      (observers.watch notePassed (noneObserving w) evs []) :=
  observers.watch_inv_all (I := Observed) (fun _ e _ h => observed_fire h e) evs _ _
    (observed_noneObserving hw)

/-- The maximum never goes down. -/
theorem storedMax_le_run (hsound : ∀ i, (s.proc i).Sound (storedMax s))
    (evs : List (Event ι Move Lookup)) : storedMax s ≤ storedMax (observers.run s evs) := by
  refine (Machine.run_inv_all
    (I := fun s' => (∀ i, (s'.proc i).Sound (storedMax s')) ∧ storedMax s ≤ storedMax s')
    observers ?_ evs s ⟨hsound, Int.le_refl _⟩).2
  intro s' e h
  exact ⟨sound_fire h.1 e, Int.le_trans h.2 (storedMax_le_fire h.1 e)⟩

omit [DecidableEq ι] in
/-- With no call in progress the maximum is the largest duration. -/
theorem Observed.max_eq (h : Observed s passed) (hidle : ∀ i, s.proc i = .idle) :
    storedMax s = (passed.foldr max 0 : Nat) := by
  have hle : ∀ d ∈ passed, (d : Int) ≤ storedMax s := by
    intro d hd
    refine (h.covered d hd).resolve_right ?_
    rintro ⟨i, hi⟩
    rw [hidle i] at hi
    cases hi
  obtain hzero | ⟨m, hm, heq⟩ := h.max_mem
  · have hall : passed.foldr max 0 ≤ 0 := by
      refine List.max_le_of_forall_le passed 0 fun d hd => ?_
      have := hle d hd
      omega
    omega
  · have hall : passed.foldr max 0 ≤ m := by
      refine List.max_le_of_forall_le passed m fun d hd => ?_
      have := hle d hd
      omega
    have hmem : m ≤ passed.foldr max 0 := List.le_max_of_le' 0 hm (Nat.le_refl m)
    omega

/-- **The last read**: a thread that waits for its exchange has `current_max` from
    its own last operation, and the maximum was that then. -/
theorem lastRead (s₀ : Observers ι) (evs : List (Event ι Move Lookup)) (i : ι) {d : Nat}
    {cur : Int} (hstart : s₀.proc i = .idle)
    (hproc : (observers.run s₀ evs).proc i = .exchange d cur) :
    ∃ pre move post, evs = pre ++ .proc i move :: post ∧ (∀ m, .proc i m ∉ post)
      ∧ ((observers.run s₀ pre).proc i).readsMax = true
      ∧ storedMax (observers.run s₀ pre) = cur := by
  obtain hsame | ⟨pre, move, post, hevs, hpost, hlast⟩ := observers.run_last_own s₀ evs i
  · rw [hsame, hstart] at hproc
    cases hproc
  · refine ⟨pre, move, post, hevs, hpost, ?_⟩
    rw [hlast] at hproc
    -- only a read leads to an exchange
    cases observes move ((observers.run s₀ pre).proc i) (observers.run s₀ pre).world with
    | reads d' point proc world =>
        rw [proc] at hproc
        obtain ⟨-, hcur, -⟩ := loopTest_exchange hproc
        exact ⟨(reads_point point).2, hcur.symm⟩
    | rests point proc uncalled world => rw [proc] at hproc; cases hproc
    | calls d' point called proc world => rw [proc] at hproc; cases hproc
    | addsTotal d' point proc world => rw [proc] at hproc; cases hproc
    | addsSample d' point proc world => rw [proc] at hproc; cases hproc
    | raises d' cur' point found proc world => rw [proc] at hproc; cases hproc

end

/-! ## §4. Sum and number. -/

/-- What a call still has to add to the total. -/
def ObservePoint.owedMs : ObservePoint → Int
  | .addTotal d => d
  | _ => 0

/-- What a call still has to add to the number of samples. -/
def ObservePoint.owedSamples : ObservePoint → Int
  | .addTotal _ => 1
  | .addSamples _ => 1
  | _ => 0

theorem wrap64_add (x y : Int) : wrap64 (wrap64 x + y) = wrap64 (x + y) := by
  unfold wrap64
  exact Int.bmod_add_bmod

theorem wrap64_eq_self {n : Nat} (h : n < 2 ^ 63) : wrap64 n = n := by
  unfold wrap64
  apply Int.bmod_eq_of_le_mul_two
  · omega
  · omega

/-- The duration that the next operation counts, if that adds a sample. -/
def sampled : ObservePoint → List Nat
  | .addSamples d => [d]
  | _ => []

/-- In the loop nothing is owed and nothing added. -/
theorem readsMax_adds {p : ObservePoint} (h : p.readsMax = true) (move : Move) :
    p.owedMs = 0 ∧ p.owedSamples = 0 ∧ sampled p = [] ∧ begun move p = [] := by
  cases p with
  | loadMax d => exact ⟨rfl, rfl, rfl, rfl⟩
  | exchange d cur => exact ⟨rfl, rfl, rfl, rfl⟩
  | _ => cases h

/-- The loop owes nothing to the sums. -/
theorem loopTest_owes (d : Nat) (m : Int) :
    (loopTest d m).owedMs = 0 ∧ (loopTest d m).owedSamples = 0 := by
  obtain ⟨heq, -⟩ | ⟨heq, -⟩ := loopTest_cases d m
  · rw [heq]
    exact ⟨rfl, rfl⟩
  · rw [heq]
    exact ⟨rfl, rfl⟩

section
variable {move : Move} {p p' : ObservePoint} {w w' : World} {x : Int}

/-- An operation adds to the total what its call owes to it. -/
theorem Observes.total (h : Observes move p w p' w')
    (hw : w.metrics.requestDurationMsTotal = wrap64 x) :
    w'.metrics.requestDurationMsTotal = wrap64 (x + p.owedMs) := by
  cases h with
  | addsTotal d point proc world =>
      rw [world, point]
      show wrap64 (w.metrics.requestDurationMsTotal + d) = wrap64 (x + d)
      rw [hw, wrap64_add]
  -- the other operations leave it alone, and owe nothing to it
  | rests point proc uncalled world => rw [world, hw, point]; exact congrArg wrap64 x.add_zero.symm
  | calls d point called proc world => rw [world, hw, point]; exact congrArg wrap64 x.add_zero.symm
  | addsSample d point proc world => rw [world, hw, point]; exact congrArg wrap64 x.add_zero.symm
  | raises d cur point found proc world =>
      rw [world, hw, point]
      exact congrArg wrap64 x.add_zero.symm
  | reads d point proc world =>
      rw [world, hw, (readsMax_adds (reads_point point).2 move).1, Int.add_zero]

/-- And one to the number of samples where it counts one. -/
theorem Observes.samples (h : Observes move p w p' w')
    (hw : w.metrics.requestDurationSamples = wrap64 x) :
    w'.metrics.requestDurationSamples = wrap64 (x + ((sampled p).length : Nat)) := by
  cases h with
  | addsSample d point proc world =>
      rw [world, point]
      show wrap64 (w.metrics.requestDurationSamples + 1) = wrap64 (x + 1)
      rw [hw, wrap64_add]
  | rests point proc uncalled world => rw [world, hw, point]; exact congrArg wrap64 x.add_zero.symm
  | calls d point called proc world => rw [world, hw, point]; exact congrArg wrap64 x.add_zero.symm
  | addsTotal d point proc world => rw [world, hw, point]; exact congrArg wrap64 x.add_zero.symm
  | raises d cur point found proc world =>
      rw [world, hw, point]
      exact congrArg wrap64 x.add_zero.symm
  | reads d point proc world =>
      rw [world, hw, (readsMax_adds (reads_point point).2 move).2.2.1]
      exact congrArg wrap64 x.add_zero.symm

/-- A call owes its duration from the moment it is made to its first addition. -/
theorem Observes.owedMs (h : Observes move p w p' w') :
    p'.owedMs = ((begun move p).sum : Nat) := by
  cases h with
  | rests point proc uncalled world =>
      rw [proc, begun_eq_nil fun d hd => uncalled d hd.2]
      rfl
  | calls d point called proc world =>
      rw [proc, point, called]
      rfl
  | addsTotal d point proc world => rw [proc, point]; rfl
  | addsSample d point proc world => rw [proc, point]; rfl
  | raises d cur point found proc world => rw [proc, point]; rfl
  | reads d point proc world =>
      rw [proc, (loopTest_owes d _).1, (readsMax_adds (reads_point point).2 move).2.2.2]
      rfl

/-- And a sample to its second one. -/
theorem Observes.owedSamples (h : Observes move p w p' w') :
    p'.owedSamples + ((sampled p).length : Nat)
      = p.owedSamples + ((begun move p).length : Nat) := by
  cases h with
  | rests point proc uncalled world =>
      rw [proc, point, begun_eq_nil fun d hd => uncalled d hd.2]
      rfl
  | calls d point called proc world =>
      rw [proc, point, called]
      rfl
  | addsTotal d point proc world => rw [proc, point]; rfl
  | addsSample d point proc world => rw [proc, point]; rfl
  | raises d cur point found proc world => rw [proc, point]; rfl
  | reads d point proc world =>
      obtain ⟨-, howed, hsampled, hbegun⟩ := readsMax_adds (reads_point point).2 move
      rw [proc, (loopTest_owes d _).2, howed, hsampled, hbegun]

end

section
variable {ι : Type} [DecidableEq ι] [Fintype ι]

/-- Total and number are those of the durations passed, less what calls in
    progress have not added yet, modulo 2^64. -/
structure Summed (s : Observers ι) (passed : List Nat) : Prop where
  total : s.world.metrics.requestDurationMsTotal
    = wrap64 ((passed.sum : Nat) - ∑ i, (s.proc i).owedMs)
  samples : s.world.metrics.requestDurationSamples
    = wrap64 ((passed.length : Nat) - ∑ i, (s.proc i).owedSamples)

/-- **One event keeps the sums.** -/
theorem summed_fire {s : Observers ι} {passed : List Nat} (h : Summed s passed)
    (e : Event ι Move Lookup) : Summed (observers.fire s e) (notePassed s e passed) := by
  cases e with
  | env x => cases x <;> exact ⟨h.total, h.samples⟩
  | proc i move =>
      have hstep := observes move (s.proc i) s.world
      have hms := hstep.owedMs
      have hsamples := hstep.owedSamples
      -- what this thread owes moves the two sums; the rest of the pool stands still
      constructor
      · rw [Machine.fire_proc_world, hstep.total h.total]
        show _ = wrap64 (((passed ++ begun move (s.proc i)).sum : Nat)
          - ∑ j, (Function.update s.proc i _ j).owedMs)
        rw [sum_proc_update ObservePoint.owedMs, List.sum_append]
        congr 1
        omega
      · rw [Machine.fire_proc_world, hstep.samples h.samples]
        show _ = wrap64 (((passed ++ begun move (s.proc i)).length : Nat)
          - ∑ j, (Function.update s.proc i _ j).owedSamples)
        rw [sum_proc_update ObservePoint.owedSamples, List.length_append]
        congr 1
        omega

/-- **They are kept in every run.** -/
theorem summed_run {w : World} (hw : w.metrics = {}) (evs : List (Event ι Move Lookup)) :
    Summed (observers.run (noneObserving w) evs)
      (observers.watch notePassed (noneObserving w) evs []) := by
  refine observers.watch_inv_all (I := Summed) (fun _ e _ h => summed_fire h e) evs _ _ ?_
  -- nothing passed, nothing owed
  refine ⟨?_, ?_⟩
  · show w.metrics.requestDurationMsTotal = wrap64 (0 - ∑ _ : ι, (0 : Int))
    rw [hw, Finset.sum_const_zero]
    rfl
  · show w.metrics.requestDurationSamples = wrap64 (0 - ∑ _ : ι, (0 : Int))
    rw [hw, Finset.sum_const_zero]
    rfl

omit [DecidableEq ι] in
/-- With no call in progress nothing is owed. -/
theorem Summed.of_idle {s : Observers ι} {passed : List Nat} (h : Summed s passed)
    (hidle : ∀ i, s.proc i = .idle) :
    s.world.metrics.requestDurationMsTotal = wrap64 (passed.sum : Nat)
      ∧ s.world.metrics.requestDurationSamples = wrap64 (passed.length : Nat) := by
  have hms : (∑ i, (s.proc i).owedMs) = 0 :=
    Finset.sum_eq_zero fun i _ => by rw [hidle i]; rfl
  have hsamples : (∑ i, (s.proc i).owedSamples) = 0 :=
    Finset.sum_eq_zero fun i _ => by rw [hidle i]; rfl
  refine ⟨?_, ?_⟩
  · rw [h.total, hms, Int.sub_zero]
  · rw [h.samples, hsamples, Int.sub_zero]

/-! ## §5. The function. -/

/-- **The lock-free maximum is exact.**  Any number of threads call
    `observe_request_duration_ms`, and their operations interleave in any way,
    with exchanges that fail spuriously: `request_duration_ms_max` never
    decreases, and it is 0 or one of the durations passed so far; when no call is
    in progress it is the largest of them, and, within 64 bits, the total is their
    sum and the samples are their number; and an exchange that does not fail
    spuriously fails only if the maximum is now strictly larger than it was at the
    thread's last read. -/
theorem lock_free_max_exact (w : World) (hw : w.metrics = {})
    (evs : List (Event ι Move Lookup)) :
    let s := observers.run (noneObserving w) evs
    let passed := observers.watch notePassed (noneObserving w) evs []
    (∀ more, storedMax s ≤ storedMax (observers.run s more))
      ∧ (storedMax s = 0 ∨ ∃ d ∈ passed, storedMax s = d)
      ∧ ((∀ i, s.proc i = .idle) →
          storedMax s = (passed.foldr max 0 : Nat)
            ∧ (passed.sum < 2 ^ 63 → s.world.metrics.requestDurationMsTotal = passed.sum)
            ∧ (passed.length < 2 ^ 63 →
                s.world.metrics.requestDurationSamples = passed.length))
      ∧ (∀ i d cur move, s.proc i = .exchange d cur → move ≠ .spurious →
          exchanges move cur s.world = false →
          ∃ pre last post, evs = pre ++ .proc i last :: post ∧ (∀ m, .proc i m ∉ post)
            ∧ ((observers.run (noneObserving w) pre).proc i).readsMax = true
            ∧ storedMax (observers.run (noneObserving w) pre) < storedMax s) := by
  intro s passed
  have hobserved : Observed s passed := observed_run hw evs
  refine ⟨storedMax_le_run hobserved.sound, hobserved.max_mem, ?_, ?_⟩
  · intro hidle
    have hmax := hobserved.max_eq hidle
    obtain ⟨htotal, hsamples⟩ := (summed_run hw evs).of_idle hidle
    exact ⟨hmax, fun hsum => htotal.trans (wrap64_eq_self hsum),
      fun hlength => hsamples.trans (wrap64_eq_self hlength)⟩
  · intro i d cur move hproc hmove hfails
    obtain ⟨pre, last, post, hevs, hpost, hreads, hcur⟩ :=
      lastRead (noneObserving w) evs i rfl hproc
    refine ⟨pre, last, post, hevs, hpost, hreads, ?_⟩
    have hsound := hobserved.sound i
    rw [hproc] at hsound
    -- it expected what it read, and found something else
    have hne : storedMax s ≠ cur := by
      simp only [exchanges, Bool.and_eq_false_iff, decide_eq_false_iff_not, not_not] at hfails
      exact hfails.resolve_left hmove
    have hle : cur ≤ storedMax s := hsound.2
    omega

end

/-- Two threads have loaded 0.  The one with 3 ms exchanges first, so that the one
    with 5 ms fails, fails again for no reason, and then succeeds. -/
def exchangeRace : List (Event Bool Move Lookup) :=
  [.proc true (.call 5), .proc false (.call 3)]
    ++ [true, true, true, false, false, false, false, true].map (.proc · .go)
    ++ [.proc true .spurious, .proc true .go]

/-- Until the exchange of the thread with 5 ms that fails. -/
def lostRace : List (Event Bool Move Lookup) := exchangeRace.take 9

/-- An exchange that is lost to another thread, one that fails for no reason, and one that succeeds.
    -/
theorem lock_free_max_exact_race :
    storedMax (observers.run (noneObserving {}) exchangeRace) = 5
      ∧ (observers.run (noneObserving {}) exchangeRace).world.metrics.requestDurationMsTotal = 8
      ∧ (∃ pre last post, lostRace = pre ++ .proc true last :: post
          ∧ (∀ m, .proc true m ∉ post)
          ∧ ((observers.run (noneObserving {}) pre).proc true).readsMax = true
          ∧ storedMax (observers.run (noneObserving {}) pre)
              < storedMax (observers.run (noneObserving {}) lostRace)) := by
  obtain ⟨-, -, hquiet, -⟩ := lock_free_max_exact {} rfl exchangeRace
  obtain ⟨-, -, -, hfails⟩ := lock_free_max_exact {} rfl lostRace
  obtain ⟨hmax, htotal, -⟩ := hquiet (by decide +kernel)
  refine ⟨hmax.trans (by decide +kernel), ?_, ?_⟩
  · exact (htotal (by decide +kernel)).trans (by decide +kernel)
  · exact hfails true 5 0 .go (by decide +kernel) (by decide) (by decide +kernel)

/-- Calls made one after the other, each as one operation. -/
def observeAll (durations : List Nat) (m : Metrics) : Metrics :=
  durations.foldl (fun m d => observeRequestDurationMs d m) m

/-- Calls one after the other add up. -/
theorem observeAll_tally (durations : List Nat) (m : Metrics) :
    (observeAll durations m).requestDurationMsTotal
        = m.requestDurationMsTotal + (durations.sum : Nat)
      ∧ (observeAll durations m).requestDurationSamples
        = m.requestDurationSamples + (durations.length : Nat) := by
  induction durations generalizing m with
  | nil => simp [observeAll]
  | cons d ds ih =>
      obtain ⟨htotal, hsamples⟩ := ih (observeRequestDurationMs d m)
      refine ⟨?_, ?_⟩
      · show (observeAll ds (observeRequestDurationMs d m)).requestDurationMsTotal = _
        rw [htotal, List.sum_cons]
        show m.requestDurationMsTotal + d + (ds.sum : Nat) = _
        omega
      · show (observeAll ds (observeRequestDurationMs d m)).requestDurationSamples = _
        rw [hsamples, List.length_cons]
        show m.requestDurationSamples + 1 + (ds.length : Nat) = _
        omega

/-- And the largest of them stays. -/
theorem observeAll_max (durations : List Nat) (m : Metrics) (x : Nat)
    (h : m.requestDurationMsMax = x) :
    (observeAll durations m).requestDurationMsMax = (max x (durations.foldr max 0) : Nat) := by
  induction durations generalizing m x with
  | nil =>
      show m.requestDurationMsMax = (max x 0 : Nat)
      rw [h, Nat.max_zero]
  | cons d ds ih =>
      have hstep : (observeRequestDurationMs d m).requestDurationMsMax = (max x d : Nat) := by
        show max m.requestDurationMsMax (d : Int) = _
        omega
      show (observeAll ds (observeRequestDurationMs d m)).requestDurationMsMax = _
      rw [ih _ _ hstep, List.foldr_cons, Nat.max_assoc]

/-- **A call as one operation.**  Once no call is in progress, the duration
    metrics are those of calls made one after the other (within 64 bits). -/
theorem observe_as_one {ι : Type} [DecidableEq ι] [Fintype ι] (w : World) (hw : w.metrics = {})
    (evs : List (Event ι Move Lookup)) (passed : List Nat)
    (hpassed : observers.watch notePassed (noneObserving w) evs [] = passed)
    (hidle : ∀ i, (observers.run (noneObserving w) evs).proc i = .idle)
    (hsum : passed.sum < 2 ^ 63) (hlength : passed.length < 2 ^ 63) :
    let m := (observers.run (noneObserving w) evs).world.metrics
    m.requestDurationMsTotal = (observeAll passed {}).requestDurationMsTotal
      ∧ m.requestDurationSamples = (observeAll passed {}).requestDurationSamples
      ∧ m.requestDurationMsMax = (observeAll passed {}).requestDurationMsMax := by
  intro m
  subst hpassed
  obtain ⟨htotal, hsamples⟩ := (summed_run hw evs).of_idle hidle
  have hmax := (observed_run hw evs).max_eq hidle
  obtain ⟨htotal', hsamples'⟩ :=
    observeAll_tally (observers.watch notePassed (noneObserving w) evs []) {}
  refine ⟨?_, ?_, ?_⟩
  · rw [htotal', htotal, wrap64_eq_self hsum]
    exact (Int.zero_add _).symm
  · rw [hsamples', hsamples, wrap64_eq_self hlength]
    exact (Int.zero_add _).symm
  · rw [observeAll_max _ {} 0 rfl, Nat.zero_max]
    exact hmax

end OrderApi.Server
