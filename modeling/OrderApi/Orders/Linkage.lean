/-
  OrderApi.Orders.Linkage
  ───────────────────────
  **THE TWO DEFINITIONS OF `is_valid_order_no`.**

  `main.cpp` asks for a non-empty string, `helpers.hpp` for one that starts with
  `ORD`; both have external linkage, and the linker keeps one of them.  The two
  programs differ on one kind of body only: the second refuses it with a 400, the
  first goes on to look for an order that cannot be there, since every number in
  the table starts with `ORD`.  On a list with elements neither has an answer to
  compare.
-/
import OrderApi.Orders.Bodies
import OrderApi.Orders.SqliteErrors
import OrderApi.Orders.CacheCoherence
import OrderApi.Crow.JsonLoad

namespace OrderApi.Orders

open OrderApi.Lib
open OrderApi.Crow
open OrderApi.Model

/-! ## §1. The two programs. -/

/-- The service with a definition of `is_valid_order_no` linked in. -/
def link (check : RValue → Bool) (env : Env) : Env := { env with isValidOrderNo := check }

/-- `is_valid_order_no` is consulted on entry and nowhere else. -/
theorem step_link (check : RValue → Bool) (env : Env) (out : Outcome) {pc : Pc}
    (h : ∀ call inp, pc ≠ .enter call inp) (w : World) :
    step (link check env) out pc w = step env out pc w := by
  cases pc with
  | enter call inp => exact absurd rfl (h call inp)
  | _ => rfl

/-- A request past its entry does not come back to it. -/
theorem step_not_enter (env : Env) (out : Outcome) (pc : Pc) (w : World) (call : OrderCall)
    (inp : Inputs) : (step env out pc w).1 ≠ .enter call inp := by
  intro hback
  have hlater : (step env out pc w).1.past = false := by rw [hback]; rfl
  cases pc with
  | enter call' inp' =>
      -- what is not lost on entry is past it
      have hlost : enter env inp' call' = .lost := by
        by_contra hne
        exact Bool.noConfusion (hlater.symm.trans (enter_past env hne))
      cases hlost.symm.trans hback
  | lost => cases hback
  | _ => exact Bool.noConfusion (hlater.symm.trans (past_step env out rfl w))

section
variable {env : Env} {f : Fate} {job : Job} {w : World}

/-- Programs that agree on entry run alike. -/
theorem flight_link {check check' : RValue → Bool}
    (h : enter (link check env) job.inp job.call = enter (link check' env) job.inp job.call)
    (n : Nat) : flight (link check env) f job w n = flight (link check' env) f job w n := by
  have hpast : ∀ n, flight (link check env) f job w (n + 1)
      = flight (link check' env) f job w (n + 1)
        ∧ ∀ call inp, (flight (link check env) f job w (n + 1)).pc ≠ .enter call inp := by
    intro n
    induction n with
    | zero =>
        refine ⟨?_, fun call inp => step_not_enter _ _ _ _ call inp⟩
        show advance _ f (start job w) = advance _ f (start job w)
        unfold advance start
        simp only [step, h]
    | succ n ih =>
        obtain ⟨heq, hpc⟩ := ih
        refine ⟨?_, fun call inp => ?_⟩
        · rw [flight_succ, flight_succ (n + 1), ← heq]
          unfold advance
          rw [step_link check env _ hpc, step_link check' env _ hpc]
        · rw [flight_succ]
          exact step_not_enter _ _ _ _ call inp
  cases n with
  | zero => rfl
  | succ n => exact (hpast n).1

/-- The two programs answer alike and leave the same table and Redis contents. -/
def SameOutcome (env : Env) (f : Fate) (job : Job) (w : World) : Prop :=
  ∃ reply w₁ w₂, Ends (link Helpers.isValidOrderNo env) f job w reply w₁
    ∧ Ends (link Main.isValidOrderNo env) f job w reply w₂
    ∧ w₁.table = w₂.table ∧ w₁.cache = w₂.cache

/-- What enters alike ends alike. -/
theorem sameOutcome_of_enter
    (hin : enter (link Helpers.isValidOrderNo env) job.inp job.call ≠ .lost)
    (h : enter (link Helpers.isValidOrderNo env) job.inp job.call
      = enter (link Main.isValidOrderNo env) job.inp job.call) : SameOutcome env f job w := by
  obtain ⟨reply, w', n, hpc, hworld⟩ := exists_ends (link Helpers.isValidOrderNo env) f job w hin
  refine ⟨reply, w', w', ⟨n, hpc, hworld⟩, ⟨n, ?_, ?_⟩, rfl, rfl⟩
  · rw [← flight_link h n]
    exact hpc
  · rw [← flight_link h n]
    exact hworld

end

/-! ## §2. Numbers in the table. -/

/-- Every order number starts with `ORD`. -/
def KeysOrd (t : Table) : Prop := ∀ k r, t.find k = some r → k.toList.take 3 = "ORD".toList

/-- A number that is generated begins with `ORD`. -/
theorem generateOrderNo_ord (inp : Inputs) :
    (generateOrderNo inp).toList.take 3 = "ORD".toList := by
  unfold generateOrderNo
  rw [String.toList_append, String.toList_append]
  rfl

/-- So do all the numbers in the table. -/
theorem keysOrd_run {ι : Type*} [DecidableEq ι] {env : Env} {w : World} {jobs : ι → Job}
    (hempty : w.table = Keyed.empty) (evs : List (Event ι Outcome EnvEvent)) :
    KeysOrd ((handlers env).run (initial w jobs) evs).world.table := by
  induction evs using List.reverseRecOn with
  | nil =>
      intro k r hr
      have hr : w.table.find k = some r := hr
      rw [hempty] at hr
      cases hr
  | append_singleton evs e ih =>
      rw [Machine.run_concat]
      cases e with
      | env x =>
          rw [Machine.fire_env_world, handlers_env, apply_table]
          exact ih
      | proc i out =>
          rw [Machine.fire_proc_world]
          intro k r hr
          have hpc := carries_run env w jobs evs i
          rw [handlers_step] at hr
          cases step_row env out (((handlers env).run (initial w jobs) evs).proc i)
            ((handlers env).run (initial w jobs) evs).world k with
          | keep row =>
              rw [row] at hr
              exact ih k r hr
          | insert o a n r₁ at_ key next fresh row amount_eq status createdAt paidAt =>
              rw [at_] at hpc
              obtain ⟨body, -, -, rfl, -⟩ := hpc
              rw [cStr_eq_self (generateOrderNo_noNul _)] at key
              rw [← key]
              exact generateOrderNo_ord _
          | update o a c n at_ key ok next row =>
              rw [row] at hr
              obtain ⟨r₀, hr₀, -⟩ := Option.map_eq_some_iff.mp hr
              exact ih k r₀ hr₀
          | delete o at_ key ok next row =>
              rw [row] at hr
              cases hr

/-- What SQLite binds starts with `ORD` only if the string does. -/
theorem ord_of_cStr {s : String} (h : (cStr s).toList.take 3 = "ORD".toList) :
    s.toList.take 3 = "ORD".toList := by
  have hlist : (cStr s).toList = s.toList.takeWhile (· ≠ '\x00') := String.toList_ofList
  rw [hlist] at h
  have happ := List.takeWhile_append_dropWhile (p := fun c => decide (c ≠ '\x00')) (l := s.toList)
  have hlen : 3 ≤ (s.toList.takeWhile (· ≠ '\x00')).length := by
    have hthree := congrArg List.length h
    rw [List.length_take] at hthree
    have hord : "ORD".toList.length = 3 := rfl
    omega
  rw [← happ, List.take_append_of_le_length hlen]
  exact h

/-- A number that does not start with `ORD` finds no row. -/
theorem KeysOrd.find_foreign {t : Table} (hkeys : KeysOrd t) {s : String}
    (hord : s.toList.take 3 ≠ "ORD".toList) : t.find (cStr s) = none := by
  cases hfind : t.find (cStr s) with
  | none => rfl
  | some r => exact absurd (ord_of_cStr (hkeys _ r hfind)) hord

/-! ## §3. Where they differ. -/

/-- The body is an object whose `order_no`, of several the one that the look-up
    takes, is a non-empty string that does not start with `ORD`. -/
def Contested (env : Env) (body : String) : Prop :=
  ∃ v s, env.load body = some v ∧ member? env.memberSort "order_no" v = some (.string s) ∧ s ≠ ""
    ∧ s.toList.take 3 ≠ "ORD".toList

section
variable {env : Env} {body : String}

/-- The check of `main.cpp` lets every string but the empty one pass. -/
theorem main_nonempty {s : String} (h : s ≠ "") : Main.isValidOrderNo (.string s) = true := by
  have hlen : s.length ≠ 0 := by
    intro hzero
    exact h (String.length_eq_zero_iff.mp hzero)
  simp only [Main.isValidOrderNo, decide_eq_true_eq]
  omega

/-- On the other numbers the two checks agree. -/
theorem checks_agree {x : RValue}
    (h : ∀ s, x = .string s → s = "" ∨ s.toList.take 3 = "ORD".toList) :
    Helpers.isValidOrderNo x = Main.isValidOrderNo x := by
  cases x with
  | string s =>
      by_cases hempty : s = ""
      · rw [hempty]
        rfl
      · have hord := (h s rfl).resolve_left hempty
        rw [main_nonempty hempty]
        simp [Helpers.isValidOrderNo, hempty, hord]
  | _ => rfl

/-- So do the two programs: nothing else in them looks at the check. -/
theorem payOrderNo_link (h : ¬ Contested env body) :
    payOrderNo (link Helpers.isValidOrderNo env) body
      = payOrderNo (link Main.isValidOrderNo env) body := by
  rw [payOrderNo_eq, payOrderNo_eq]
  refine readMember_congr fun v x hload hmember => ?_
  have hagree : Helpers.isValidOrderNo x = Main.isValidOrderNo x := by
    refine checks_agree ?_
    rintro s rfl
    by_contra hne
    rw [not_or] at hne
    exact h ⟨v, s, hload, hmember, hne.1, hne.2⟩
  show (if Helpers.isValidOrderNo x then _ else _) = if Main.isValidOrderNo x then _ else _
  rw [hagree]
  rfl

/-- A contested body: one program refuses it, the other goes on. -/
theorem payOrderNo_contested (h : Contested env body) :
    ∃ s, payOrderNo (link Helpers.isValidOrderNo env) body
        = .error (refusal env 400 "Missing order_no")
      ∧ payOrderNo (link Main.isValidOrderNo env) body = .ok s
      ∧ s.toList.take 3 ≠ "ORD".toList := by
  obtain ⟨v, s, hload, hmember, hne, hord⟩ := h
  refine ⟨s, ?_, ?_, hord⟩
  · have hrefused : Helpers.isValidOrderNo (.string s) = false := by
      simp only [Helpers.isValidOrderNo, hord, decide_false, Bool.and_false]
    have hlink : (link Helpers.isValidOrderNo env).load body = some v := hload
    rw [payOrderNo_eq, readMember_found hlink hmember]
    show (if Helpers.isValidOrderNo (.string s) then _ else _) = _
    rw [hrefused]
    rfl
  · exact payOrderNo_eq_ok.mpr ⟨v, hload, hmember, main_nonempty hne⟩

/-- No row, no payment: with a number that is not in the table `pay_order` ends
    with a 404 or a 500 and leaves table and Redis alone. -/
theorem pay_absent {f : Fate} {w w' : World} {o : String} {inp : Inputs} {reply : Reply}
    (hbody : payOrderNo env body = .ok o) (hrow : w.table.find (cStr o) = none)
    (h : Ends env f ⟨.payOrder body, inp⟩ w reply w') :
    (Pc.done reply).answer ≠ some 400 ∧ w'.table = w.table ∧ w'.cache = w.cache := by
  obtain ⟨reply', w'', failed, hends, hpay⟩ :=
    ends_of_endsWith (pay_ends (f := f) (w := w) inp hbody)
  obtain ⟨rfl, rfl⟩ := h.unique hends
  cases hpay with
  | failed n message lt fails select w₀ tried =>
      rcases tried with rfl | rfl <;> exact ⟨by simp, rfl, rfl⟩
  | disguised prepared fails => exact ⟨by simp, rfl, rfl⟩
  | missing select row => exact ⟨by simp, rfl, rfl⟩
  | paid select row =>
      obtain ⟨r, hr, -⟩ := row
      rw [hrow] at hr
      cases hr
  | committed calls row amount createdAt =>
      obtain ⟨r, hr, -⟩ := row
      rw [hrow] at hr
      cases hr

/-- A refused body. -/
theorem pay_refused {f : Fate} {w w' : World} {inp : Inputs} {reply reply' : Reply}
    (hbody : payOrderNo env body = .error (.answered reply'))
    (h : Ends env f ⟨.payOrder body, inp⟩ w reply w') : reply = reply' ∧ w' = w := by
  have hdone : Ends env f ⟨.payOrder body, inp⟩ w reply' w :=
    ends_of_enter (enter_pay_refused hbody inp)
  exact h.unique hdone

end

/-- **When the two definitions are interchangeable.**  In every reachable state, for
    every body and every fate of the calls: the two programs answer alike if and
    only if the body does not name a non-empty string without `ORD` in front, and is
    not a list with elements; the table and the Redis contents they leave are the
    same in any case. -/
theorem interchangeable_iff {ι : Type*} [DecidableEq ι] (env : Env) (w : World)
    (hempty : w.table = Keyed.empty) (jobs : ι → Job) (evs : List (Event ι Outcome EnvEvent))
    (f : Fate) (body : String) (inp : Inputs) :
    (SameOutcome env f ⟨.payOrder body, inp⟩ ((handlers env).run (initial w jobs) evs).world
      ↔ ¬ Contested env body ∧ ¬ ListBody env body)
      ∧ ∀ reply₁ reply₂ w₁ w₂,
        Ends (link Helpers.isValidOrderNo env) f ⟨.payOrder body, inp⟩
          ((handlers env).run (initial w jobs) evs).world reply₁ w₁ →
        Ends (link Main.isValidOrderNo env) f ⟨.payOrder body, inp⟩
          ((handlers env).run (initial w jobs) evs).world reply₂ w₂ →
        w₁.table = w₂.table ∧ w₁.cache = w₂.cache := by
  have hkeys : KeysOrd ((handlers env).run (initial w jobs) evs).world.table :=
    keysOrd_run hempty evs
  generalize ((handlers env).run (initial w jobs) evs).world = w' at hkeys
  by_cases hcontested : Contested env body
  · obtain ⟨s, hhelpers, hmain, hord⟩ := payOrderNo_contested hcontested
    have hrow : w'.table.find (cStr s) = none := hkeys.find_foreign hord
    refine ⟨iff_of_false ?_ fun h => h.1 hcontested, ?_⟩
    · rintro ⟨reply, w₁, w₂, h₁, h₂, -⟩
      obtain ⟨rfl, -⟩ := pay_refused hhelpers h₁
      exact (pay_absent hmain hrow h₂).1 rfl
    · intro reply₁ reply₂ w₁ w₂ h₁ h₂
      obtain ⟨-, rfl⟩ := pay_refused hhelpers h₁
      obtain ⟨-, htable, hcache⟩ := pay_absent hmain hrow h₂
      exact ⟨htable.symm, hcache.symm⟩
  by_cases hlist : ListBody env body
  · have hlost : ∀ check, enter (link check env) inp (.payOrder body) = .lost := fun check =>
      (enter_eq_lost_iff inp (.payOrder body)).mpr hlist
    refine ⟨iff_of_false ?_ fun h => h.2 hlist, ?_⟩
    · rintro ⟨reply, w₁, w₂, h₁, -⟩
      exact not_ends_of_lost (hlost _) h₁
    · intro reply₁ reply₂ w₁ w₂ h₁
      exact absurd h₁ (not_ends_of_lost (hlost _))
  · have hsame : SameOutcome env f ⟨.payOrder body, inp⟩ w' := by
      refine sameOutcome_of_enter ?_ ?_
      · exact mt (enter_eq_lost_iff inp (.payOrder body)).mp hlist
      · simp only [enter, payOrderNo_link hcontested]
    refine ⟨iff_of_true hsame ⟨hcontested, hlist⟩, ?_⟩
    intro reply₁ reply₂ w₁ w₂ h₁ h₂
    obtain ⟨reply, w₁', w₂', h₁', h₂', htable, hcache⟩ := hsame
    obtain ⟨-, rfl⟩ := h₁.unique h₁'
    obtain ⟨-, rfl⟩ := h₂.unique h₂'
    exact ⟨htable, hcache⟩

/-- A payment whose number does not start with `ORD`. -/
def foreignBody : String := "\x7b\"order_no\":\"ABC\"\x7d"

theorem foreignBody_contested : Contested readingEnv foreignBody :=
  ⟨.object [("order_no", .string "ABC")], "ABC", by rfl, rfl, by decide, by decide⟩

/-- An order is in the table, and a number without the prefix is to be paid. -/
theorem interchangeable_iff_foreignBody : ({} : World).table = Keyed.empty ∧
    ¬ SameOutcome readingEnv .allOk ⟨.payOrder foreignBody, {}⟩
      ((handlers readingEnv).run (initial {} fun _ : Fin 1 => sampleCreate)
        (schedule [0, 0, 0, 0])).world := by
  refine ⟨rfl, ?_⟩
  rw [(interchangeable_iff readingEnv {} rfl (fun _ : Fin 1 => sampleCreate) (schedule [0, 0, 0, 0])
    .allOk foreignBody {}).1]
  exact fun h => h.1 foreignBody_contested

/-- One program answers 400, the other 404. -/
theorem linkage_shows :
    ¬ ∀ (env : Env) (jobs : Fin 1 → Job) (evs : List (Event (Fin 1) Outcome EnvEvent)) (f : Fate)
      (body : String) (inp : Inputs), SameOutcome env f ⟨.payOrder body, inp⟩
        ((handlers env).run (initial {} jobs) evs).world := by
  intro hall
  obtain ⟨reply, w₁, w₂, h₁, h₂, -⟩ :=
    hall readingEnv (fun _ => sampleCreate) [] .allOk foreignBody {}
  obtain ⟨s, hhelpers, hmain, -⟩ := payOrderNo_contested foreignBody_contested
  obtain ⟨rfl, -⟩ := pay_refused hhelpers h₁
  exact (pay_absent hmain rfl h₂).1 rfl

end OrderApi.Orders
