/-
  OrderApi.Lib.Prog
  ─────────────────
  **PROGRAMS THAT CALL ATOMIC OPERATIONS.**

  A `Prog` is a tree: return a value, or call an operation and go on with its
  result.  It is used in three ways.

    • `wp D p Q g`  a weakest precondition over a `Discipline`: the ghost state
      `g` follows the calls of one process, `D.pre` says what must hold when an
      operation is called, whatever results the others bring about;
    • `Interp.machine`  programs as the processes of a `Machine`; an operation
      may take several steps (its local state is `κ`).  `run_wp` carries a `wp`
      through every interleaving;
    • `eval`  the program run by itself; `meets_of_wp`, `eval_inv` and
      `eval_congr` say what its calls keep and what it cannot depend on;
    • `follow`  a program that only reads, each operation at a moment of its own.

  `Follows` is a discipline kept on the side: a process of any machine can be
  held to one whose ghost state it does not carry.

  Nothing here names a particular program.
-/
import OrderApi.Lib.Pool

namespace OrderApi.Lib

/-! ## §1. Programs. -/

/-- A program over operations `Op` with results `Res`. -/
inductive Prog (Op : Type) (Res : Op → Type) (α : Type) : Type where
  | ret (a : α)
  | op (o : Op) (k : Res o → Prog Op Res α)

namespace Prog

variable {Op : Type} {Res : Op → Type} {α β : Type}

/-- Sequencing. -/
def bind (p : Prog Op Res α) (f : α → Prog Op Res β) : Prog Op Res β :=
  match p with
  | .ret a => f a
  | .op o k => .op o fun r => (k r).bind f

instance : Monad (Prog Op Res) where
  pure := .ret
  bind := Prog.bind

@[simp] theorem pure_bind (a : α) (f : α → Prog Op Res β) : (pure a >>= f) = f a := rfl

theorem bind_ret (p : Prog Op Res α) : p.bind .ret = p := by
  induction p with
  | ret a => rfl
  | op o k ih => exact congrArg (Prog.op o) (funext ih)

theorem bind_bind {γ : Type} (p : Prog Op Res α) (f : α → Prog Op Res β) (g : β → Prog Op Res γ) :
    (p.bind f).bind g = p.bind fun a => (f a).bind g := by
  induction p with
  | ret a => rfl
  | op o k ih => exact congrArg (Prog.op o) (funext ih)

instance : LawfulMonad (Prog Op Res) := LawfulMonad.mk' _ bind_ret pure_bind bind_bind

/-- Call one operation. -/
def call (o : Op) : Prog Op Res (Res o) := .op o .ret

/-! ## §2. The weakest precondition. -/

/-- How a ghost state follows the calls, and what each call requires. -/
structure Discipline (Op : Type) (Res : Op → Type) (G : Type) where
  pre : Op → G → Prop
  next : (o : Op) → Res o → G → G

variable {G : Type} (D : Discipline Op Res G)

/-- Every call of `p` meets its precondition, and `Q` holds of the result. -/
def wp : Prog Op Res α → (α → G → Prop) → G → Prop
  | .ret a, Q, g => Q a g
  -- any result: the state the operation reads belongs to everybody
  | .op o k, Q, g => D.pre o g ∧ ∀ r, wp (k r) Q (D.next o r g)

variable {D} {Q Q' : α → G → Prop} {g : G}

/-- **Sequencing**: what the second program needs is what the first has to reach. -/
@[simp] theorem wp_bind (p : Prog Op Res α) (f : α → Prog Op Res β) {Q : β → G → Prop} :
    wp D (p >>= f) Q g ↔ wp D p (fun a g => wp D (f a) Q g) g := by
  show wp D (p.bind f) Q g ↔ _
  induction p generalizing g with
  | ret a => exact Iff.rfl
  | op o k ih =>
      show (D.pre o g ∧ ∀ r, wp D ((k r).bind f) Q (D.next o r g)) ↔ _
      simp only [ih, wp]

/-- The consequence rule. -/
theorem wp_mono {p : Prog Op Res α} (himp : ∀ a g, Q a g → Q' a g) (h : wp D p Q g) :
    wp D p Q' g := by
  induction p generalizing g with
  | ret a => exact himp a g h
  | op o k ih => exact ⟨h.1, fun r => ih r (h.2 r)⟩

/-- Every operation `p` can call, whatever the results, satisfies `S`. -/
def Calls (S : Op → Prop) : Prog Op Res α → Prop
  | .ret _ => True
  | .op o k => S o ∧ ∀ r, Calls S (k r)

section
variable {S : Op → Prop}

@[simp] theorem calls_call (o : Op) : Calls S (call o : Prog Op Res (Res o)) ↔ S o := by
  show (S o ∧ ∀ r : Res o, True) ↔ S o
  simp

/-- The calls of two programs one after the other. -/
theorem calls_bind (p : Prog Op Res α) (f : α → Prog Op Res β) (hp : Calls S p)
    (hf : ∀ a, Calls S (f a)) : Calls S (p >>= f) := by
  show Calls S (p.bind f)
  induction p with
  | ret a => exact hf a
  | op o k ih => exact ⟨hp.1, fun r => ih r (hp.2 r)⟩

/-- The frame rule: a fact about the ghost state that every call of the program
    allows and keeps holds at its end. -/
theorem wp_of_calls {I : G → Prop} {p : Prog Op Res α} (hp : Calls S p)
    (hS : ∀ o, S o → ∀ g, I g → D.pre o g ∧ ∀ r, I (D.next o r g)) (hI : I g)
    (hQ : ∀ a g, I g → Q a g) : wp D p Q g := by
  induction p generalizing g with
  | ret a => exact hQ a g hI
  | op o k ih =>
      obtain ⟨hpre, hnext⟩ := hS o hp.1 g hI
      exact ⟨hpre, fun r => ih r (hp.2 r) (hnext r)⟩

end

/-! ## §3. By itself. -/

section
variable {σ : Type} (f : (o : Op) → σ → Res o × σ)

/-- The program run alone, each operation as a function of the state. -/
def eval : Prog Op Res α → σ → α × σ
  | .ret a, w => (a, w)
  | .op o k, w => (k (f o w).1).eval (f o w).2

/-- Two programs, run one after the other. -/
theorem eval_bind (p : Prog Op Res α) (k : α → Prog Op Res β) (w : σ) :
    (p >>= k).eval f w = (k (p.eval f w).1).eval f (p.eval f w).2 := by
  show (p.bind k).eval f w = _
  induction p generalizing w with
  | ret a => rfl
  | op o next ih => exact ih _ _

/-- Every operation called in that run satisfies `S`. -/
def Meets (S : Op → Prop) : Prog Op Res α → σ → Prop
  | .ret _, _ => True
  | .op o k, w => S o ∧ (k (f o w).1).Meets S (f o w).2

variable {f} {S : Op → Prop} {w w' : σ}

/-- What the discipline requires of a call holds when the call is made, in terms
    of any relation `J` between ghost state and state that the calls keep. -/
theorem meets_of_wp {p : Prog Op Res α} {J : G → σ → Prop}
    (hcall : ∀ o g w, D.pre o g → J g w → S o ∧ J (D.next o (f o w).1 g) (f o w).2)
    (h : wp D p Q g) (hJ : J g w) : p.Meets f S w := by
  induction p generalizing g w with
  | ret a => trivial
  | op o k ih =>
      obtain ⟨hS, hJ'⟩ := hcall o g w h.1 hJ
      exact ⟨hS, ih _ (h.2 _) hJ'⟩

/-- What every such call keeps, the run keeps. -/
theorem eval_inv {p : Prog Op Res α} {I : σ → Prop} (hop : ∀ o w, S o → I w → I (f o w).2)
    (h : p.Meets f S w) (hI : I w) : I (p.eval f w).2 := by
  induction p generalizing w with
  | ret a => exact hI
  | op o k ih => exact ih _ h.2 (hop o w h.1 hI)

/-- **Non-interference**: if every such call returns the same in related states
    and keeps them related, so does the run. -/
theorem eval_congr {p : Prog Op Res α} {R : σ → σ → Prop}
    (hop : ∀ o w w', S o → R w w' → (f o w).1 = (f o w').1 ∧ R (f o w).2 (f o w').2)
    (h : p.Meets f S w) (hR : R w w') :
    (p.eval f w).1 = (p.eval f w').1 ∧ R (p.eval f w).2 (p.eval f w').2 := by
  induction p generalizing w w' with
  | ret a => exact ⟨rfl, hR⟩
  | op o k ih =>
      -- the same result, so both runs go on with the same program
      obtain ⟨hres, hR'⟩ := hop o w w' h.1 hR
      have hk := ih _ h.2 hR'
      simp only [eval, ← hres]
      exact hk

end

/-! ## §4. A reader. -/

section
variable {σ : Type} (read : (o : Op) → σ → Option (Res o))

/-- The program of somebody who only reads, while others move: each operation finds
    the state of its own moment.  There is no result where an operation is not a
    read, or where the moments are too few or too many. -/
def follow : Prog Op Res α → List σ → Option α
  | .ret a, [] => some a
  | .ret _, _ :: _ => none
  | .op _ _, [] => none
  | .op o k, w :: ws => (read o w).bind fun r => (k r).follow ws

variable {read} {w : σ} {ws : List σ}

/-- A reader passes through a moment that lies between the two parts of its program. -/
theorem follow_bind {p : Prog Op Res α} {k : α → Prog Op Res β} {b : β} :
    (p >>= k).follow read ws = some b ↔
      ∃ ws₁ ws₂ a, ws = ws₁ ++ ws₂ ∧ p.follow read ws₁ = some a
        ∧ (k a).follow read ws₂ = some b := by
  show (p.bind k).follow read ws = some b ↔ _
  induction p generalizing ws with
  | ret a =>
      constructor
      · intro h
        exact ⟨[], ws, a, rfl, rfl, h⟩
      · rintro ⟨ws₁, ws₂, a', rfl, h₁, h₂⟩
        cases ws₁ with
        | nil =>
            cases h₁
            exact h₂
        | cons w ws₁ => cases h₁
  | op o next ih =>
      constructor
      · intro h
        cases ws with
        | nil => cases h
        | cons w ws =>
            obtain ⟨r, hr, hrest⟩ := Option.bind_eq_some_iff.mp h
            obtain ⟨ws₁, ws₂, a, rfl, h₁, h₂⟩ := (ih r).mp hrest
            exact ⟨w :: ws₁, ws₂, a, rfl, Option.bind_eq_some_iff.mpr ⟨r, hr, h₁⟩, h₂⟩
      · rintro ⟨ws₁, ws₂, a, rfl, h₁, h₂⟩
        cases ws₁ with
        | nil => cases h₁
        | cons w ws₁ =>
            obtain ⟨r, hr, hrest⟩ := Option.bind_eq_some_iff.mp h₁
            exact Option.bind_eq_some_iff.mpr ⟨r, hr, (ih r).mpr ⟨ws₁, ws₂, a, rfl, hrest, h₂⟩⟩

end

end Prog

/-! ## §5. Many programs over one world. -/

open Prog

/-- A process: its program, how far the operation it calls has got, and the
    ghost state. -/
structure Proc (Op : Type) (Res : Op → Type) (α G κ : Type) where
  ghost : G
  task : Prog Op Res α
  cur : κ

/-- How operations are executed: one step leads to a later stage of the
    operation or to its result. -/
structure Interp (Op : Type) (Res : Op → Type) (σ ε κ : Type) where
  start : κ
  exec : ε → (o : Op) → κ → σ → (κ ⊕ Res o) × σ

namespace Interp

variable {Op : Type} {Res : Op → Type} {α G κ σ ε η ι : Type}

/-- The programs as a machine over the shared world; `next` is how the ghost
    state follows the calls. -/
def machine (I : Interp Op Res σ ε κ) (next : (o : Op) → Res o → G → G) (env : η → σ → σ) :
    Machine σ (Proc Op Res α G κ) ε η where
  step e p w :=
    match p.task with
    | .ret _ => (p, w)
    | .op o k =>
        match I.exec e o p.cur w with
        -- another process may move before the operation is through
        | (.inl c, w') => ({ p with cur := c }, w')
        -- the ghost state moves when the operation returns
        | (.inr r, w') => (⟨next o r p.ghost, k r, I.start⟩, w')
  env := env

/-- What one step of a process does. -/
inductive Stepped (I : Interp Op Res σ ε κ) (next : (o : Op) → Res o → G → G) (e : ε)
    (p : Proc Op Res α G κ) (w : σ) (p' : Proc Op Res α G κ) (w' : σ) : Prop where
  | finished (a : α) (task : p.task = .ret a) (proc : p' = p) (world : w' = w)
  | inside (o : Op) (k : Res o → Prog Op Res α) (c : κ) (task : p.task = .op o k)
      (exec : I.exec e o p.cur w = (.inl c, w')) (proc : p' = { p with cur := c })
  | returned (o : Op) (k : Res o → Prog Op Res α) (r : Res o) (task : p.task = .op o k)
      (exec : I.exec e o p.cur w = (.inr r, w'))
      (proc : p' = ⟨next o r p.ghost, k r, I.start⟩)

/-- The step of the machine is the one of the program. -/
theorem stepped (I : Interp Op Res σ ε κ) (next : (o : Op) → Res o → G → G) (env : η → σ → σ)
    (e : ε) (p : Proc Op Res α G κ) (w : σ) :
    Stepped I next e p w ((I.machine next env).step e p w).1
      ((I.machine next env).step e p w).2 := by
  unfold machine
  cases htask : p.task with
  | ret a => exact .finished a htask (by simp [htask]) (by simp [htask])
  | op o k =>
      cases hexec : I.exec e o p.cur w with
      | mk x w' =>
          cases x with
          | inl c =>
              simp only [htask, hexec]
              exact .inside o k c htask hexec (by rw [htask])
          | inr r =>
              simp only [htask, hexec]
              exact .returned o k r htask hexec rfl

variable (I : Interp Op Res σ ε κ) (D : Discipline Op Res G) (env : η → σ → σ)
variable [DecidableEq ι] {Q : α → G → Prop}

/-- A process that follows the discipline still does after any event. -/
theorem wp_fire {s : Pool ι σ (Proc Op Res α G κ)} (e : Event ι ε η)
    (h : ∀ i, wp D (s.proc i).task Q (s.proc i).ghost) (i : ι) :
    wp D (((I.machine D.next env).fire s e).proc i).task Q
      (((I.machine D.next env).fire s e).proc i).ghost := by
  refine (I.machine D.next env).fire_local (P := fun p => wp D p.task Q p.ghost) ?_ (h i) e
  intro out p w hp
  cases stepped I D.next env out p w with
  | finished a task proc world => rw [proc]; exact hp
  | inside o k c task exec proc => rw [proc]; exact hp
  -- `wp` asked for every result, so also for the one that came
  | returned o k r task exec proc =>
      rw [task] at hp
      rw [proc]
      exact hp.2 r

/-- **Every process follows its discipline in every interleaving.** -/
theorem run_wp (evs : List (Event ι ε η)) (s : Pool ι σ (Proc Op Res α G κ))
    (h : ∀ i, wp D (s.proc i).task Q (s.proc i).ghost) (i : ι) :
    wp D (((I.machine D.next env).run s evs).proc i).task Q
      (((I.machine D.next env).run s evs).proc i).ghost := by
  induction evs generalizing s with
  | nil => exact h i
  | cons e evs ih => exact ih _ (wp_fire I D env e h)

/-! ## §6. A discipline kept on the side. -/

/-- The program follows the discipline from some ghost state with `R`, and ends
    with `Q`.  The process need not carry that ghost state. -/
def Follows (D : Discipline Op Res G) (Q : α → G → Prop) (R : G → Prop) (p : Prog Op Res α) :
    Prop :=
  ∃ g, wp D p Q g ∧ R g

variable {H : Type} {next : (o : Op) → Res o → H → H} {I D} {R R' : G → Prop} {e : ε}
variable {p p' : Proc Op Res α H κ} {w w' : σ}

/-- One step of a process that follows a discipline on the side. -/
theorem Follows.stepped (h : Follows D Q R p.task) (hstep : Stepped I next e p w p' w')
    (hidle : ∀ a, p.task = .ret a → w' = w → ∀ g, R g → R' g)
    (hinside : ∀ o k c, p.task = .op o k → I.exec e o p.cur w = (.inl c, w') →
      ∀ g, D.pre o g → R g → R' g)
    (hreturned : ∀ o k r, p.task = .op o k → I.exec e o p.cur w = (.inr r, w') →
      ∀ g, D.pre o g → R g → R' (D.next o r g)) : Follows D Q R' p'.task := by
  obtain ⟨g, hwp, hR⟩ := h
  cases hstep with
  | finished a task proc world =>
      rw [proc]
      exact ⟨g, hwp, hidle a task world g hR⟩
  | inside o k c task exec proc =>
      have hpre : D.pre o g := by
        rw [task] at hwp
        exact hwp.1
      rw [proc]
      exact ⟨g, hwp, hinside o k c task exec g hpre hR⟩
  | returned o k r task exec proc =>
      rw [task] at hwp
      rw [proc]
      exact ⟨D.next o r g, hwp.2 r, hreturned o k r task exec g hwp.1 hR⟩

theorem Follows.mono {q : Prog Op Res α} (h : Follows D Q R q) (himp : ∀ g, R g → R' g) :
    Follows D Q R' q := by
  obtain ⟨g, hwp, hR⟩ := h
  exact ⟨g, hwp, himp g hR⟩

/-- What the discipline asks of the call a process is about to make. -/
theorem Follows.pre {o : Op} {k : Res o → Prog Op Res α} (h : Follows D Q R p.task)
    (htask : p.task = .op o k) : ∃ g, D.pre o g ∧ R g := by
  obtain ⟨g, hwp, hR⟩ := h
  rw [htask] at hwp
  exact ⟨g, hwp.1, hR⟩

/-- What holds when a process is through. -/
theorem Follows.post {a : α} (h : Follows D Q R p.task) (htask : p.task = .ret a) :
    ∃ g, Q a g ∧ R g := by
  obtain ⟨g, hwp, hR⟩ := h
  rw [htask] at hwp
  exact ⟨g, hwp, hR⟩

end Interp

end OrderApi.Lib
