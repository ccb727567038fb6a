/-
  OrderApi.Lib.Replay
  ───────────────────
  **SERIAL ORDERS, BUILT ONE OPERATION AT A TIME.**

  Each operation `i` has an effect `E i` on a state.  `replay` applies a list of
  operations in order, and `Serial` says that a list is a serial explanation of
  a state: every operation once, its replay ends in that state, and no operation
  stands before one that had to precede it (`R q i`: `q` precedes `i`).

  An explanation grows in two ways:

    • `Serial.append`  an operation takes effect now, so it goes to the end;
    • `Serial.insert`  an operation takes effect "in the past": it goes into the
      middle, and its effect there must travel to the end as the effect `U` seen
      now.  `replay_comm` is the reason it can: `U` commutes with what was done
      since, as long as some property holds all along (`Along`).
-/
import Mathlib.Data.List.Nodup
import Mathlib.Tactic.Common

namespace OrderApi.Lib

variable {ι τ : Type*} (E : ι → τ → τ)

/-! ## §1. Replaying. -/

/-- The state after the operations of a list, in order. -/
def replay (t : τ) (l : List ι) : τ := l.foldl (fun t i => E i t) t

@[simp] theorem replay_cons (t : τ) (i : ι) (l : List ι) :
    replay E t (i :: l) = replay E (E i t) l := rfl

@[simp] theorem replay_append (t : τ) (l m : List ι) :
    replay E t (l ++ m) = replay E (replay E t l) m :=
  List.foldl_append

/-- `p` holds at the start and after each operation of a list. -/
def Along (p : τ → Prop) : τ → List ι → Prop
  | t, [] => p t
  | t, i :: l => p t ∧ Along p (E i t) l

variable {E} {p p' : τ → Prop} {U : τ → τ} {t : τ} {l m : List ι}

theorem Along.head (h : Along E p t l) : p t := by
  cases l with
  | nil => exact h
  | cons i l => exact h.1

theorem along_append : Along E p t (l ++ m) ↔ Along E p t l ∧ Along E p (replay E t l) m := by
  induction l generalizing t with
  | nil => exact ⟨fun h => ⟨h.head, h⟩, fun h => h.2⟩
  | cons i l ih => simp [Along, ih, and_assoc]

theorem Along.last (h : Along E p t l) : p (replay E t l) := by
  have happ := along_append.mp (by rwa [List.append_nil] : Along E p t (l ++ []))
  exact happ.2

/-- What commutes with each operation while `p` holds commutes with a list along
    which `p` holds. -/
theorem replay_comm (hU : ∀ i t, p t → p (E i t) → E i (U t) = U (E i t))
    (h : Along E p t l) : replay E (U t) l = U (replay E t l) := by
  induction l generalizing t with
  | nil => rfl
  | cons i l ih =>
      -- `U` changes places with the first operation, then with the rest
      rw [replay_cons, replay_cons, hU i t h.1 h.2.head]
      exact ih h.2

/-- A property that survives `U` holds along the list also from `U t`. -/
theorem along_comm (hU : ∀ i t, p t → p (E i t) → E i (U t) = U (E i t))
    (hp' : ∀ t, p' t → p' (U t)) (h : Along E p t l) (h' : Along E p' t l) :
    Along E p' (U t) l := by
  induction l generalizing t with
  | nil => exact hp' t h'
  | cons i l ih =>
      refine ⟨hp' t h'.1, ?_⟩
      rw [hU i t h.1 h.2.head]
      exact ih h.2 h'.2

/-! ## §2. Serial explanations. -/

/-- The list `l` explains the state `t` from `t₀`, in an order that respects `R`. -/
structure Serial (E : ι → τ → τ) (R : ι → ι → Prop) (t₀ : τ) (l : List ι) (t : τ) : Prop where
  nodup : l.Nodup
  replay_eq : replay E t₀ l = t
  order : l.Pairwise (fun i j => ¬ R j i)

namespace Serial

variable {R R' : ι → ι → Prop} {t₀ : τ} {i : ι}

theorem nil : Serial E R t₀ [] t₀ := ⟨List.nodup_nil, rfl, List.Pairwise.nil⟩

theorem mono (h : Serial E R t₀ l t) (hR : ∀ i j, i ∈ l → R' j i → R j i) :
    Serial E R' t₀ l t :=
  ⟨h.nodup, h.replay_eq, h.order.imp_of_mem fun hi _ hn hr => hn (hR _ _ hi hr)⟩

/-- An operation that takes effect now goes to the end. -/
theorem append (h : Serial E R t₀ l t) (hi : i ∉ l) (hR : ∀ j ∈ l, ¬ R i j) :
    Serial E R t₀ (l ++ [i]) (E i t) where
  nodup := h.nodup.append (List.nodup_singleton i) (by simpa using hi)
  replay_eq := by rw [replay_append, h.replay_eq]; rfl
  order := by
    rw [List.pairwise_append]
    refine ⟨h.order, List.pairwise_singleton _ _, fun j hj k hk => ?_⟩
    rw [List.mem_singleton] at hk
    exact hk ▸ hR j hj

/-- An operation whose effect travels to the end as `U` may go into the middle. -/
theorem insert (h : Serial E R t₀ (l ++ m) t) (hi : i ∉ l ++ m) (hbefore : ∀ j ∈ l, ¬ R i j)
    (hafter : ∀ j ∈ m, ¬ R j i)
    (htravel : replay E (E i (replay E t₀ l)) m = U (replay E (replay E t₀ l) m)) :
    Serial E R t₀ (l ++ i :: m) (U t) where
  nodup := by
    rw [List.nodup_middle]
    exact List.nodup_cons.mpr ⟨hi, h.nodup⟩
  replay_eq := by
    rw [replay_append, replay_cons, htravel, ← replay_append, h.replay_eq]
  order := by
    -- the old pairs keep their order; the new ones are those with `i`
    obtain ⟨hl, hm, hlm⟩ := List.pairwise_append.mp h.order
    rw [List.pairwise_append, List.pairwise_cons]
    refine ⟨hl, ⟨hafter, hm⟩, fun j hj k hk => ?_⟩
    rcases List.mem_cons.mp hk with rfl | hk
    · exact hbefore j hj
    · exact hlm j hj k hk

end Serial

end OrderApi.Lib
