/-
  OrderApi.Lib.Pool
  ─────────────────
  **PROCESSES OVER A SHARED WORLD.**

  A `Machine` says what ONE atomic step of a process does to its own state and
  to the world it shares with the others, and what the environment may do to
  that world between steps.  A `Pool` is a world with a family of processes, an
  `Event` names who moves, and a run is the fold of a list of events: every
  list is a schedule, so a theorem about all lists is a theorem about all
  interleavings.

  The rules used by everything above:

    • `run_inv`     an invariant kept by each admissible step holds after
                    every run whose steps are all admissible (`RunOk`);
    • `run_hist`    the same for facts about the whole run so far;
    • `watch_inv`   the same beside a history variable (`watch`);
    • `runOk_append` / `run_append`   runs split at any moment;
    • `pauses_append`   so do the states that an observer sees now and then;
    • `run_last_own` / `run_established`   which step of a process led where it is,
                    or brought about what holds of it;
    • `countEv_le_one`   an event that uses something up happens at most once
                    while that something is not renewed;
    • `sum_proc_update`  how a sum over the processes moves with one step.

  Nothing here names a particular program.
-/
import Mathlib.Logic.Function.Basic
import Mathlib.Data.List.Induction
import Mathlib.Algebra.BigOperators.Group.Finset.Piecewise
import Mathlib.Data.Fintype.BigOperators
import Mathlib.Tactic.Ring

namespace OrderApi.Lib

/-! ## §1. Machines, pools, events. -/

/-- What one atomic step of a process does, and what the environment may do. -/
structure Machine (σ π ε η : Type*) where
  /-- One step of a process; `ε` is what the step is told from outside. -/
  step : ε → π → σ → π × σ
  /-- One move of the environment. -/
  env : η → σ → σ

/-- A shared world and the local state of every process. -/
structure Pool (ι σ π : Type*) where
  world : σ
  proc : ι → π

/-- Who moves next. -/
inductive Event (ι ε η : Type*) where
  | proc (i : ι) (e : ε)
  | env (x : η)

variable {ι σ π ε η : Type*} [DecidableEq ι]

namespace Machine

/-- The pool after one event. -/
def fire (M : Machine σ π ε η) (s : Pool ι σ π) : Event ι ε η → Pool ι σ π
  | .proc i e =>
      { world := (M.step e (s.proc i) s.world).2
        proc := Function.update s.proc i (M.step e (s.proc i) s.world).1 }
  | .env x => { s with world := M.env x s.world }

/-- The pool after a whole schedule. -/
def run (M : Machine σ π ε η) (s : Pool ι σ π) (evs : List (Event ι ε η)) : Pool ι σ π :=
  evs.foldl M.fire s

/-- Every step of the run meets the condition `ok` in the state it is taken from. -/
def RunOk (M : Machine σ π ε η) (ok : Pool ι σ π → Event ι ε η → Prop) :
    Pool ι σ π → List (Event ι ε η) → Prop
  | _, [] => True
  | s, e :: es => ok s e ∧ M.RunOk ok (M.fire s e) es

/-- How many events of the run satisfy `p` in the state they are taken from. -/
def countEv (M : Machine σ π ε η) (p : Pool ι σ π → Event ι ε η → Bool) :
    Pool ι σ π → List (Event ι ε η) → Nat
  | _, [] => 0
  | s, e :: es => (if p s e then 1 else 0) + M.countEv p (M.fire s e) es

/-- `P` holds at the start of the run and after each of its events. -/
def Throughout (M : Machine σ π ε η) (P : Pool ι σ π → Prop) :
    Pool ι σ π → List (Event ι ε η) → Prop
  | s, [] => P s
  | s, e :: es => P s ∧ M.Throughout P (M.fire s e) es

/-- Some event of the run satisfies `P` in the state it is taken from. -/
def Happened (M : Machine σ π ε η) (P : Pool ι σ π → Event ι ε η → Prop)
    (s : Pool ι σ π) (evs : List (Event ι ε η)) : Prop :=
  ∃ pre e post, evs = pre ++ e :: post ∧ P (M.run s pre) e

/-- What a bystander has written down after a run: `note` sees each event and the
    state it is taken from. -/
def watch {γ : Type*} (M : Machine σ π ε η) (note : Pool ι σ π → Event ι ε η → γ → γ) :
    Pool ι σ π → List (Event ι ε η) → γ → γ
  | _, [], h => h
  | s, e :: es, h => M.watch note (M.fire s e) es (note s e h)

/-- The states at the ends of consecutive stretches of a run: what somebody sees who
    looks once after each of them. -/
def pauses (M : Machine σ π ε η) : Pool ι σ π → List (List (Event ι ε η)) → List (Pool ι σ π)
  | _, [] => []
  | s, c :: cs => M.run s c :: M.pauses (M.run s c) cs

instance decidableRunOk (M : Machine σ π ε η) (ok : Pool ι σ π → Event ι ε η → Prop)
    [∀ s e, Decidable (ok s e)] :
    (s : Pool ι σ π) → (evs : List (Event ι ε η)) → Decidable (M.RunOk ok s evs)
  | _, [] => isTrue trivial
  | s, e :: es =>
      have := decidableRunOk M ok (M.fire s e) es
      inferInstanceAs (Decidable (_ ∧ _))

instance decidableThroughout (M : Machine σ π ε η) (P : Pool ι σ π → Prop)
    [∀ s, Decidable (P s)] :
    (s : Pool ι σ π) → (evs : List (Event ι ε η)) → Decidable (M.Throughout P s evs)
  | _, [] => inferInstanceAs (Decidable (P _))
  | s, e :: es =>
      have := decidableThroughout M P (M.fire s e) es
      inferInstanceAs (Decidable (_ ∧ _))

variable (M : Machine σ π ε η) {ok ok' : Pool ι σ π → Event ι ε η → Prop}

/-! ## §2. One step. -/

@[simp] theorem fire_proc_world (s : Pool ι σ π) (i : ι) (e : ε) :
    (M.fire s (.proc i e)).world = (M.step e (s.proc i) s.world).2 := rfl

@[simp] theorem fire_proc_self (s : Pool ι σ π) (i : ι) (e : ε) :
    (M.fire s (.proc i e)).proc i = (M.step e (s.proc i) s.world).1 := by
  simp [fire]

theorem fire_proc_other (s : Pool ι σ π) {i j : ι} (h : j ≠ i) (e : ε) :
    (M.fire s (.proc i e)).proc j = s.proc j := by
  simp [fire, h]

@[simp] theorem fire_env_world (s : Pool ι σ π) (x : η) :
    (M.fire s (.env x : Event ι ε η)).world = M.env x s.world := rfl

@[simp] theorem fire_env_proc (s : Pool ι σ π) (x : η) :
    (M.fire s (.env x : Event ι ε η)).proc = s.proc := rfl

/-- What a step keeps of the process that makes it, any event keeps of any
    process. -/
theorem fire_local {P : π → Prop} (hstep : ∀ e p w, P p → P (M.step e p w).1) {s : Pool ι σ π}
    {j : ι} (h : P (s.proc j)) (ev : Event ι ε η) : P ((M.fire s ev).proc j) := by
  cases ev with
  | env x => exact h
  | proc i e =>
      by_cases hij : j = i
      · subst hij
        rw [fire_proc_self]
        exact hstep e (s.proc j) s.world h
      · rw [M.fire_proc_other s hij e]
        exact h

/-! ## §3. Whole runs. -/

@[simp] theorem run_nil (s : Pool ι σ π) : M.run s ([] : List (Event ι ε η)) = s := rfl

@[simp] theorem run_cons (s : Pool ι σ π) (e : Event ι ε η) (es : List (Event ι ε η)) :
    M.run s (e :: es) = M.run (M.fire s e) es := rfl

theorem run_append (s : Pool ι σ π) (es fs : List (Event ι ε η)) :
    M.run s (es ++ fs) = M.run (M.run s es) fs :=
  List.foldl_append

theorem run_concat (s : Pool ι σ π) (es : List (Event ι ε η)) (e : Event ι ε η) :
    M.run s (es ++ [e]) = M.fire (M.run s es) e := by
  rw [run_append]; rfl

/-- The pauses of two runs, one after the other. -/
theorem pauses_append (s : Pool ι σ π) (cs ds : List (List (Event ι ε η))) :
    M.pauses s (cs ++ ds) = M.pauses s cs ++ M.pauses (M.run s cs.flatten) ds := by
  induction cs generalizing s with
  | nil => rfl
  | cons c cs ih =>
      rw [List.cons_append, List.flatten_cons, run_append]
      exact congrArg (M.run s c :: ·) (ih (M.run s c))

/-- Where the states split, the stretches do. -/
theorem pauses_eq_append {s : Pool ι σ π} {cs : List (List (Event ι ε η))}
    {l₁ l₂ : List (Pool ι σ π)} (h : M.pauses s cs = l₁ ++ l₂) :
    ∃ cs₁ cs₂, cs = cs₁ ++ cs₂ ∧ M.pauses s cs₁ = l₁
      ∧ M.pauses (M.run s cs₁.flatten) cs₂ = l₂ := by
  induction l₁ generalizing s cs with
  | nil => exact ⟨[], cs, rfl, rfl, h⟩
  | cons x l₁ ih =>
      cases cs with
      | nil => cases h
      | cons c cs =>
          obtain ⟨hx, hrest⟩ := List.cons.inj h
          obtain ⟨cs₁, cs₂, rfl, h₁, h₂⟩ := ih hrest
          refine ⟨c :: cs₁, cs₂, rfl, ?_, ?_⟩
          · rw [← hx, ← h₁]
            rfl
          · rw [List.flatten_cons, run_append]
            exact h₂

theorem runOk_append (s : Pool ι σ π) (es fs : List (Event ι ε η)) :
    M.RunOk ok s (es ++ fs) ↔ M.RunOk ok s es ∧ M.RunOk ok (M.run s es) fs := by
  induction es generalizing s with
  | nil => simp [RunOk]
  | cons e es ih => simp [RunOk, ih, and_assoc]

theorem runOk_of_forall (h : ∀ s e, ok s e) (s : Pool ι σ π) (es : List (Event ι ε η)) :
    M.RunOk ok s es := by
  induction es generalizing s with
  | nil => trivial
  | cons e es ih => exact ⟨h s e, ih (M.fire s e)⟩

theorem RunOk.mono {s : Pool ι σ π} {es : List (Event ι ε η)}
    (himp : ∀ s e, ok s e → ok' s e) (h : M.RunOk ok s es) : M.RunOk ok' s es := by
  induction es generalizing s with
  | nil => trivial
  | cons e es ih => exact ⟨himp _ _ h.1, ih h.2⟩

/-- The conditions of two admissibility notions may be read off one run. -/
theorem RunOk.and {s : Pool ι σ π} {es : List (Event ι ε η)}
    (h : M.RunOk ok s es) (h' : M.RunOk ok' s es) :
    M.RunOk (fun s e => ok s e ∧ ok' s e) s es := by
  induction es generalizing s with
  | nil => trivial
  | cons e es ih => exact ⟨⟨h.1, h'.1⟩, ih h.2 h'.2⟩

/-- **The invariant rule**: what every admissible step keeps, every admissible
    run keeps. -/
theorem run_inv {I : Pool ι σ π → Prop}
    (hstep : ∀ s e, I s → ok s e → I (M.fire s e)) :
    ∀ (evs : List (Event ι ε η)) (s : Pool ι σ π), I s → M.RunOk ok s evs → I (M.run s evs) := by
  intro evs
  induction evs with
  | nil => intro s hs _; exact hs
  | cons e es ih => intro s hs hok; exact ih _ (hstep s e hs hok.1) hok.2

/-- The invariant rule where every step is admissible. -/
theorem run_inv_all {I : Pool ι σ π → Prop} (hstep : ∀ s e, I s → I (M.fire s e)) :
    ∀ (evs : List (Event ι ε η)) (s : Pool ι σ π), I s → I (M.run s evs) := by
  intro evs
  induction evs with
  | nil => intro s hs; exact hs
  | cons e es ih => intro s hs; exact ih _ (hstep s e hs)

/-- The same for what steps keep of their own process. -/
theorem run_local {P : π → Prop} (hstep : ∀ e p w, P p → P (M.step e p w).1) {s : Pool ι σ π}
    {j : ι} (h : P (s.proc j)) (evs : List (Event ι ε η)) : P ((M.run s evs).proc j) :=
  M.run_inv_all (I := fun s => P (s.proc j)) (fun _ e hs => M.fire_local hstep hs e) evs s h

/-- A process that makes no step stays where it is. -/
theorem run_proc_other {i : ι} {evs : List (Event ι ε η)} (h : ∀ e, .proc i e ∉ evs)
    (s : Pool ι σ π) : (M.run s evs).proc i = s.proc i := by
  induction evs generalizing s with
  | nil => rfl
  | cons ev es ih =>
      rw [run_cons, ih fun e he => h e (List.mem_cons_of_mem _ he)]
      cases ev with
      | env x => rfl
      | proc j e =>
          refine M.fire_proc_other s ?_ e
          intro hij
          exact h e (hij ▸ List.mem_cons_self)

/-- A process is where it was at the start, or where the last of its steps led. -/
theorem run_last_own (s : Pool ι σ π) (evs : List (Event ι ε η)) (i : ι) :
    (M.run s evs).proc i = s.proc i ∨
      ∃ pre e post, evs = pre ++ .proc i e :: post ∧ (∀ e', .proc i e' ∉ post)
        ∧ (M.run s evs).proc i = (M.step e ((M.run s pre).proc i) (M.run s pre).world).1 := by
  induction evs using List.reverseRecOn with
  | nil => exact .inl rfl
  | append_singleton evs ev ih =>
      by_cases hown : ∃ e, ev = .proc i e
      · obtain ⟨e, rfl⟩ := hown
        refine .inr ⟨evs, e, [], rfl, fun _ => List.not_mem_nil, ?_⟩
        rw [run_concat, fire_proc_self]
      -- the event of another process leaves the last step where it was
      · have hstays : (M.run s (evs ++ [ev])).proc i = (M.run s evs).proc i := by
          rw [run_append]
          apply run_proc_other
          intro e he
          exact hown ⟨e, (List.mem_singleton.mp he).symm⟩
        rw [hstays]
        refine ih.imp id ?_
        rintro ⟨pre, e, post, rfl, hpost, hstep⟩
        refine ⟨pre, e, post ++ [ev], by simp, ?_, hstep⟩
        intro e' he'
        obtain he' | he' := List.mem_append.mp he'
        · exact hpost e' he'
        · exact hown ⟨e', (List.mem_singleton.mp he').symm⟩

/-- What holds of a process and did not at the start, one of its own steps brought
    about. -/
theorem run_established {P : π → Prop} {i : ι} {evs : List (Event ι ε η)} {s : Pool ι σ π}
    (hstart : ¬ P (s.proc i)) (h : P ((M.run s evs).proc i)) :
    ∃ pre e post, evs = pre ++ .proc i e :: post ∧ ¬ P ((M.run s pre).proc i)
      ∧ P (M.step e ((M.run s pre).proc i) (M.run s pre).world).1 := by
  induction evs generalizing s with
  | nil => exact absurd h hstart
  | cons ev es ih =>
      by_cases hnow : P ((M.fire s ev).proc i)
      · by_cases hown : ∃ e, ev = .proc i e
        · obtain ⟨e, rfl⟩ := hown
          rw [fire_proc_self] at hnow
          exact ⟨[], e, es, rfl, hstart, hnow⟩
        · have hnone : ∀ e, .proc i e ∉ [ev] := by
            intro e he
            exact hown ⟨e, (List.mem_singleton.mp he).symm⟩
          have hstays : (M.fire s ev).proc i = s.proc i := M.run_proc_other hnone s
          rw [hstays] at hnow
          exact absurd hnow hstart
      · obtain ⟨pre, e, post, rfl, hbefore, hafter⟩ := ih hnow h
        exact ⟨ev :: pre, e, post, rfl, hbefore, hafter⟩

/-- An invariant kept by the admissible steps may be used at any moment of the
    run, and the step taken there is admissible. -/
theorem run_inv_at {I : Pool ι σ π → Prop}
    (hstep : ∀ s e, I s → ok s e → I (M.fire s e)) {s : Pool ι σ π}
    {pre post : List (Event ι ε η)} {e : Event ι ε η} (hs : I s)
    (h : M.RunOk ok s (pre ++ e :: post)) : I (M.run s pre) ∧ ok (M.run s pre) e := by
  obtain ⟨hpre, hpost⟩ := (M.runOk_append s pre (e :: post)).mp h
  exact ⟨M.run_inv hstep pre s hs hpre, hpost.1⟩

/-- **The history rule**: a fact about runs that every admissible step carries
    from a run to the run one event longer holds of every admissible run. -/
theorem run_hist {s : Pool ι σ π} {J : List (Event ι ε η) → Prop} (hnil : J [])
    (hstep : ∀ evs e, J evs → M.RunOk ok s evs → ok (M.run s evs) e → J (evs ++ [e])) :
    ∀ evs : List (Event ι ε η), M.RunOk ok s evs → J evs := by
  intro evs
  induction evs using List.reverseRecOn with
  | nil => intro _; exact hnil
  | append_singleton evs e ih =>
      intro hok
      obtain ⟨hpre, hlast⟩ := (M.runOk_append s evs [e]).mp hok
      exact hstep evs e (ih hpre) hpre hlast.1

theorem not_happened_nil {P : Pool ι σ π → Event ι ε η → Prop} (s : Pool ι σ π) :
    ¬ M.Happened P s [] := by
  rintro ⟨pre, e, post, h, -⟩
  simp at h

/-- What has happened by an event happened before or with it. -/
theorem happened_concat {P : Pool ι σ π → Event ι ε η → Prop} {s : Pool ι σ π}
    {evs : List (Event ι ε η)} {e : Event ι ε η} :
    M.Happened P s (evs ++ [e]) ↔ M.Happened P s evs ∨ P (M.run s evs) e := by
  constructor
  · rintro ⟨pre, e', post, h, hP⟩
    -- the event is the last one, or it lies in the run without it
    rcases List.eq_nil_or_concat post with rfl | ⟨post', y, rfl⟩
    · obtain ⟨rfl, heq⟩ := List.append_inj' h rfl
      obtain rfl := List.singleton_inj.mp heq
      exact .inr hP
    · rw [List.concat_eq_append, ← List.cons_append, ← List.append_assoc] at h
      exact .inl ⟨pre, e', post', (List.append_inj' h rfl).1, hP⟩
  · rintro (⟨pre, e', post, rfl, hP⟩ | hP)
    · exact ⟨pre, e', post ++ [e], by simp, hP⟩
    · exact ⟨evs, e, [], rfl, hP⟩

/-- **At most once**: if an event counted by `p` leaves the state `Spent`, no
    event counted by `p` is possible from a spent state, and a spent state stays
    spent while `P` holds, then a stretch with `P` throughout counts at most one. -/
theorem countEv_le_one {p : Pool ι σ π → Event ι ε η → Bool} {P Spent I : Pool ι σ π → Prop}
    (hstep : ∀ s e, I s → ok s e → I (M.fire s e))
    (hspend : ∀ s e, I s → ok s e → P s → p s e = true → Spent (M.fire s e))
    (hnone : ∀ s e, I s → ok s e → Spent s → p s e = false)
    (hkeep : ∀ s e, I s → ok s e → P s → P (M.fire s e) → Spent s → Spent (M.fire s e)) :
    ∀ (evs : List (Event ι ε η)) (s : Pool ι σ π), I s → M.RunOk ok s evs →
      M.Throughout P s evs →
      M.countEv p s evs ≤ 1 ∧ (Spent s → M.countEv p s evs = 0) := by
  intro evs
  induction evs with
  | nil => intro s _ _ _; simp [countEv]
  | cons e es ih =>
      intro s hI hok hP
      -- `P` holds after `e`, whether or not the stretch ends there
      have hP' : P (M.fire s e) := by
        cases es with
        | nil => exact hP.2
        | cons e' es' => exact hP.2.1
      obtain ⟨hle, hzero⟩ := ih (M.fire s e) (hstep s e hI hok.1) hok.2 hP.2
      simp only [countEv]
      constructor
      · cases hp : p s e with
        | true =>
            -- counted here, and spent from here on
            have := hzero (hspend s e hI hok.1 hP.1 hp)
            simp [this]
        | false => simpa using hle
      · intro hs
        have hz := hzero (hkeep s e hI hok.1 hP.1 hP' hs)
        simp [hnone s e hI hok.1 hs, hz]

/-! ## §4. History variables. -/

/-- The invariant rule with a history variable beside the state. -/
theorem watch_inv {γ : Type*} {note : Pool ι σ π → Event ι ε η → γ → γ} {I : Pool ι σ π → γ → Prop}
    (hstep : ∀ s e h, I s h → ok s e → I (M.fire s e) (note s e h)) :
    ∀ (evs : List (Event ι ε η)) (s : Pool ι σ π) (h : γ), I s h → M.RunOk ok s evs →
      I (M.run s evs) (M.watch note s evs h) := by
  intro evs
  induction evs with
  | nil => intro s h hs _; exact hs
  | cons e es ih => intro s h hs hok; exact ih _ _ (hstep s e h hs hok.1) hok.2

/-- The same where every step is admissible. -/
theorem watch_inv_all {γ : Type*} {note : Pool ι σ π → Event ι ε η → γ → γ}
    {I : Pool ι σ π → γ → Prop} (hstep : ∀ s e h, I s h → I (M.fire s e) (note s e h))
    (evs : List (Event ι ε η)) (s : Pool ι σ π) (h : γ) (hs : I s h) :
    I (M.run s evs) (M.watch note s evs h) :=
  M.watch_inv (fun s e h hs _ => hstep s e h hs) evs s h hs
    (M.runOk_of_forall (fun _ _ => trivial) s evs)

end Machine

/-! ## §5. Sums over the processes. -/

/-- Replacing the state of one process moves a sum by the difference. -/
theorem sum_proc_update [Fintype ι] (f : π → Int) (p : ι → π) (i : ι) (x : π) :
    (∑ j, f (Function.update p i x j)) = (∑ j, f (p j)) + (f x - f (p i)) := by
  have hsplit : ∀ g : ι → Int, (∑ j, g j) = g i + ∑ j ∈ Finset.univ.erase i, g j := by
    intro g
    rw [Finset.add_sum_erase _ _ (Finset.mem_univ i)]
  have hrest : (∑ j ∈ Finset.univ.erase i, f (Function.update p i x j))
      = ∑ j ∈ Finset.univ.erase i, f (p j) := by
    refine Finset.sum_congr rfl fun j hj => ?_
    rw [Function.update_of_ne (Finset.ne_of_mem_erase hj)]
  -- only the summand of `i` differs
  rw [hsplit (fun j => f (Function.update p i x j)), hsplit (fun j => f (p j)), hrest,
    Function.update_self]
  ring

end OrderApi.Lib
