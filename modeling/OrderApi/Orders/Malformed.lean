/-
  OrderApi.Orders.Malformed
  ─────────────────────────
  **MALFORMED BODIES.**

  `create_order` and `pay_order` mean to answer 400 to every body they have no use
  for.  They do for texts that are no JSON, for the empty list, and for objects
  without the member or with a wrong one.  A scalar document parses, and then `has`
  throws out of the handler; a list with elements parses, and then `has` compares
  keys its elements do not have.  With the `is_valid_order_no` of `main.cpp` linked,
  a payment also looks for numbers that do not start with `ORD`.
-/
import OrderApi.Orders.Linkage

namespace OrderApi.Orders

open OrderApi.Lib
open OrderApi.Crow
open OrderApi.Model

/-! ## §1. The property. -/

/-- The bodies a handler is meant for: an object with an amount above 0, an object
    with an order number that starts with `ORD`.  Of several members under the key
    it is the one that the look-up takes. -/
def WellFormed (env : Env) : OrderCall → Prop
  | .createOrder body => ∃ ms d, env.load body = some (.object ms)
      ∧ member? env.memberSort "amount" (.object ms) = some (.number d) ∧ d.gtZero = true
  | .payOrder body => ∃ ms s, env.load body = some (.object ms)
      ∧ member? env.memberSort "order_no" (.object ms) = some (.string s)
      ∧ s.toList.take 3 = "ORD".toList
  | _ => True

/-- Any other body is answered with 400 and changes nothing, and no exception
    escapes in any case. -/
def MalformedIs400 (env : Env) (f : Fate) (job : Job) (w : World) : Prop :=
  ∃ reply w', Ends env f job w reply w'
    ∧ (¬ WellFormed env job.call → (∃ res, reply = .returned res ∧ res.code = 400) ∧ w' = w)
    ∧ ∀ e, reply ≠ .threw e

/-- The body is a JSON document without members: a number, a string, `true`,
    `false` or `null`. -/
def ScalarBody (env : Env) (body : String) : Prop :=
  ∃ v, env.load body = some v ∧ isScalar v = true

/-! ## §2. The ways to end. -/

section
variable {env : Env} {f : Fate} {job : Job} {w w' : World}

theorem malformed_refused {message : String}
    (h : enter env job.inp job.call = .done (errorReply env 400 message)) :
    MalformedIs400 env f job w :=
  ⟨_, w, ends_of_enter h, fun _ => ⟨⟨_, rfl, rfl⟩, rfl⟩, fun _ => Reply.noConfusion⟩

theorem malformed_accepted {res : Response} (hform : WellFormed env job.call)
    (h : Ends env f job w (.returned res) w') : MalformedIs400 env f job w :=
  ⟨_, w', h, fun hnot => absurd hform hnot, fun _ => Reply.noConfusion⟩

/-- An exception is no 400. -/
theorem not_malformed_thrown {e : Exn} (h : enter env job.inp job.call = .done (.threw e)) :
    ¬ MalformedIs400 env f job w := by
  rintro ⟨reply, w', hends, -, hthrown⟩
  obtain ⟨rfl, -⟩ := hends.unique (ends_of_enter h)
  exact hthrown e rfl

/-- Nor is any other answer to a malformed request. -/
theorem not_malformed_code {reply : Reply} (hform : ¬ WellFormed env job.call)
    (h : Ends env f job w reply w') (hcode : (Pc.done reply).answer ≠ some 400) :
    ¬ MalformedIs400 env f job w := by
  rintro ⟨reply', w'', hends, h400, -⟩
  obtain ⟨rfl, -⟩ := hends.unique h
  obtain ⟨⟨res, rfl, hres⟩, -⟩ := h400 hform
  exact hcode (congrArg some hres)

theorem not_malformed_lost (h : enter env job.inp job.call = .lost) :
    ¬ MalformedIs400 env f job w := by
  rintro ⟨reply, w', hends, -⟩
  exact not_ends_of_lost h hends

/-- A member is found in objects only. -/
theorem object_of_member {sort : MemberSort} {k : String} {v x : RValue}
    (h : member? sort k v = some x) : ∃ ms, v = .object ms := by
  cases v with
  | object ms => exact ⟨ms, rfl⟩
  | _ => cases h

/-- A value with members is no scalar. -/
theorem not_scalarBody {body : String} {v : RValue} (hload : env.load body = some v)
    (h : isScalar v = false) : ¬ ScalarBody env body := by
  rintro ⟨v', hload', hscalar⟩
  obtain rfl := Option.some.inj (hload.symm.trans hload')
  rw [h] at hscalar
  cases hscalar

theorem not_scalarBody_unparsed {body : String} (hload : env.load body = none) :
    ¬ ScalarBody env body := by
  rintro ⟨v, hload', -⟩
  rw [hload] at hload'
  cases hload'

/-- **The condition for a handler that asks its body for a member**: up to that, malformed
    input is a 400 but on scalars and on lists with elements; `P` is the condition behind it. -/
theorem malformed_iff_of_member {α : Type} (key missing : String)
    (check : RValue → Except Early α) {body : String} {P : Prop}
    (henter : ∀ early, readMember env key missing check body = .error early →
      enter env job.inp job.call = early.pc)
    (hmissing : (∀ v, env.load body = some v → member? env.memberSort key v = none) → P)
    (hmember : ∀ v x, env.load body = some v → member? env.memberSort key v = some x →
      (MalformedIs400 env f job w ↔ P)) :
    MalformedIs400 env f job w ↔ ¬ ScalarBody env body ∧ ¬ ListBody env body ∧ P := by
  cases hload : env.load body with
  | none =>
      refine iff_of_true ?_ ⟨not_scalarBody_unparsed hload, not_listBody_unparsed hload, ?_⟩
      · exact malformed_refused (henter _ (readMember_unparsed hload))
      · exact hmissing fun v hv => by cases hload.symm.trans hv
  | some v =>
  cases hscalar : isScalar v with
  | true =>
      refine iff_of_false ?_ fun h => h.1 ⟨v, hload, hscalar⟩
      exact not_malformed_thrown (henter _ (readMember_scalar hload hscalar))
  | false =>
  have hnot := not_scalarBody hload hscalar
  cases hlist : hasElements v with
  | true =>
      refine iff_of_false ?_ fun h => h.2.1 ⟨v, hload, hlist⟩
      exact not_malformed_lost (henter _ (readMember_elements hload hlist))
  | false =>
  have hnolist := not_listBody hload hlist
  cases hfound : member? env.memberSort key v with
  | none =>
      refine iff_of_true ?_ ⟨hnot, hnolist, hmissing fun v' hv' => ?_⟩
      · exact malformed_refused (henter _ (readMember_missing hload hscalar hlist hfound))
      · rw [← Option.some.inj (hload.symm.trans hv')]
        exact hfound
  | some x =>
      rw [hmember v x hload hfound]
      exact ⟨fun h => ⟨hnot, hnolist, h⟩, fun h => h.2.2⟩

/-! ## §3. `create_order`. -/

/-- A member that is refused, or an amount that is stored. -/
theorem create_member_malformed {body : String} {v x : RValue} (inp : Inputs)
    (hload : env.load body = some v) (hmember : member? env.memberSort "amount" v = some x) :
    MalformedIs400 env f ⟨.createOrder body, inp⟩ w := by
  cases hcheck : isValidAmount x with
  | false =>
      have hrefused : createAmount env body = .error (refusal env 400 "Missing amount") := by
        rw [createAmount_eq, readMember_found hload hmember, checkAmount, hcheck,
          if_neg Bool.false_ne_true]
      exact malformed_refused (enter_create_refused hrefused inp)
  | true =>
      cases x with
      | number d =>
          obtain ⟨ms, rfl⟩ := object_of_member hmember
          have hform : WellFormed env (.createOrder body) := ⟨ms, d, hload, hmember, hcheck⟩
          have hbody : createAmount env body = .ok d :=
            createAmount_eq_ok.mpr ⟨_, hload, hmember, hcheck⟩
          obtain ⟨reply, w', failed, hends, hcreate⟩ :=
            ends_of_endsWith (create_ends (f := f) (w := w) inp hbody)
          cases hcreate with
          | failed message cause w₀ tried => exact malformed_accepted hform hends
          | committed table row => exact malformed_accepted hform hends
      | _ => cases hcheck

/-- **The condition for `create_order`.** -/
theorem create_malformed_iff (body : String) (inp : Inputs) :
    MalformedIs400 env f ⟨.createOrder body, inp⟩ w
      ↔ ¬ ScalarBody env body ∧ ¬ ListBody env body := by
  have hiff : MalformedIs400 env f ⟨.createOrder body, inp⟩ w
      ↔ ¬ ScalarBody env body ∧ ¬ ListBody env body ∧ True := by
    refine malformed_iff_of_member "amount" "Missing amount" (checkAmount env) ?_
      (fun _ => trivial) ?_
    · exact fun early h => enter_create_refused (createAmount_eq.trans h) inp
    · exact fun v x hload hmember => iff_true_intro (create_member_malformed inp hload hmember)
  simpa using hiff

/-! ## §4. `pay_order`. -/

/-- Past its checks `pay_order` does not throw. -/
theorem pay_returns {body o : String} (inp : Inputs) (hbody : payOrderNo env body = .ok o) :
    ∃ res w', Ends env f ⟨.payOrder body, inp⟩ w (.returned res) w' := by
  obtain ⟨reply, w', failed, hends, hpay⟩ :=
    ends_of_endsWith (pay_ends (f := f) (w := w) inp hbody)
  cases hpay with
  | failed n message lt fails select w₀ tried => exact ⟨_, _, hends⟩
  | disguised prepared fails => exact ⟨_, _, hends⟩
  | missing select row => exact ⟨_, _, hends⟩
  | paid select row => exact ⟨_, _, hends⟩
  | committed calls row amount createdAt => exact ⟨_, _, hends⟩

/-- The strings the linked check lets through. -/
theorem check_passes {x : RValue}
    (hlink : env.isValidOrderNo = Helpers.isValidOrderNo ∨ env.isValidOrderNo = Main.isValidOrderNo)
    (h : env.isValidOrderNo x = true) : ∃ s, x = .string s ∧ s ≠ ""
      ∧ (s.toList.take 3 = "ORD".toList ∨ env.isValidOrderNo = Main.isValidOrderNo) := by
  rcases hlink with hcheck | hcheck
  · rw [hcheck] at h
    cases x with
    | string s =>
        simp only [Helpers.isValidOrderNo, Bool.and_eq_true, decide_eq_true_eq] at h
        exact ⟨s, rfl, h.1, .inl h.2⟩
    | _ => cases h
  · rw [hcheck] at h
    cases x with
    | string s =>
        refine ⟨s, rfl, ?_, .inr hcheck⟩
        rintro rfl
        cases h
    | _ => cases h

/-- A contested body contests the member that is found. -/
theorem Contested.member {body : String} {v : RValue} (h : Contested env body)
    (hload : env.load body = some v) :
    ∃ s, member? env.memberSort "order_no" v = some (.string s) ∧ s ≠ ""
      ∧ s.toList.take 3 ≠ "ORD".toList := by
  obtain ⟨v', s, hload', hmember, hne, hord⟩ := h
  obtain rfl := Option.some.inj (hload.symm.trans hload')
  exact ⟨s, hmember, hne, hord⟩

/-- A well-formed payment has the prefix. -/
theorem wellFormed_pay {body s : String} {v : RValue} (hload : env.load body = some v)
    (hmember : member? env.memberSort "order_no" v = some (.string s))
    (h : WellFormed env (.payOrder body)) : s.toList.take 3 = "ORD".toList := by
  obtain ⟨ms, s', hload', hmember', hord⟩ := h
  obtain rfl := Option.some.inj (hload.symm.trans hload')
  rw [hmember] at hmember'
  cases hmember'
  exact hord

/-- Past the check, a payment is answered as it should be if its number starts with
    `ORD`.  Any other number goes on to the SELECT, which finds no row. -/
theorem pay_passed_iff (hkeys : KeysOrd w.table) {body s : String} {v : RValue} (inp : Inputs)
    (hload : env.load body = some v)
    (hmember : member? env.memberSort "order_no" v = some (.string s))
    (hcheck : env.isValidOrderNo (.string s) = true) :
    MalformedIs400 env f ⟨.payOrder body, inp⟩ w ↔ s.toList.take 3 = "ORD".toList := by
  have hbody : payOrderNo env body = .ok s := payOrderNo_eq_ok.mpr ⟨v, hload, hmember, hcheck⟩
  obtain ⟨res, w', hends⟩ := pay_returns (f := f) (w := w) inp hbody
  by_cases hord : s.toList.take 3 = "ORD".toList
  · obtain ⟨ms, rfl⟩ := object_of_member hmember
    exact iff_of_true (malformed_accepted ⟨ms, s, hload, hmember, hord⟩ hends) hord
  · refine iff_of_false ?_ hord
    have hrow : w.table.find (cStr s) = none := hkeys.find_foreign hord
    have hform : ¬ WellFormed env (.payOrder body) :=
      fun h => hord (wellFormed_pay hload hmember h)
    exact not_malformed_code hform hends (pay_absent hbody hrow hends).1

/-- **The condition for `pay_order`**, over the checks of either program. -/
theorem pay_malformed_iff (hkeys : KeysOrd w.table)
    (hlink : env.isValidOrderNo = Helpers.isValidOrderNo ∨ env.isValidOrderNo = Main.isValidOrderNo)
    (body : String) (inp : Inputs) :
    MalformedIs400 env f ⟨.payOrder body, inp⟩ w ↔ ¬ ScalarBody env body ∧ ¬ ListBody env body
      ∧ (env.isValidOrderNo = Main.isValidOrderNo → ¬ Contested env body) := by
  refine malformed_iff_of_member "order_no" "Missing order_no" (checkOrderNo env)
    (fun early h => enter_pay_refused (payOrderNo_eq.trans h) inp) ?_ ?_
  · rintro hnone - ⟨v, s, hload, hmember, -⟩
    cases (hnone v hload).symm.trans hmember
  intro v x hload hmember
  cases hcheck : env.isValidOrderNo x with
  | false =>
      have hrefused : payOrderNo env body = .error (refusal env 400 "Missing order_no") := by
        rw [payOrderNo_eq, readMember_found hload hmember, checkOrderNo, hcheck,
          if_neg Bool.false_ne_true]
      refine iff_of_true (malformed_refused (enter_pay_refused hrefused inp)) fun hmain hcon => ?_
      obtain ⟨s, hs, hne, -⟩ := hcon.member hload
      obtain rfl := Option.some.inj (hmember.symm.trans hs)
      rw [hmain, main_nonempty hne] at hcheck
      cases hcheck
  | true =>
      obtain ⟨s, rfl, hne, hord⟩ := check_passes hlink hcheck
      rw [pay_passed_iff hkeys inp hload hmember hcheck]
      constructor
      · intro hs _ hcon
        obtain ⟨s', hs', -, hord'⟩ := hcon.member hload
        rw [hmember] at hs'
        cases hs'
        exact hord' hs
      · -- the definition of `helpers.hpp` lets no other number through
        intro hcon
        by_contra hs
        exact hcon (hord.resolve_left hs) ⟨v, s, hload, hmember, hne, hs⟩

end

/-- **When malformed input is a 400.**  In every reachable state, for every body and
    every fate of the calls: `create_order` refuses what it has no use for with a
    400 and lets no exception escape if and only if the body is neither a scalar
    document nor a list with elements; `pay_order` if and only if, besides, the body
    is not one of those that only the definition of `helpers.hpp` refuses, or that
    is the one linked. -/
theorem malformed_iff {ι : Type*} [DecidableEq ι] (env : Env)
    (hlink : env.isValidOrderNo = Helpers.isValidOrderNo ∨ env.isValidOrderNo = Main.isValidOrderNo)
    (w : World) (hempty : w.table = Keyed.empty) (jobs : ι → Job)
    (evs : List (Event ι Outcome EnvEvent)) (f : Fate) (body : String) (inp : Inputs) :
    (MalformedIs400 env f ⟨.createOrder body, inp⟩ ((handlers env).run (initial w jobs) evs).world
      ↔ ¬ ScalarBody env body ∧ ¬ ListBody env body)
      ∧ (MalformedIs400 env f ⟨.payOrder body, inp⟩ ((handlers env).run (initial w jobs) evs).world
        ↔ ¬ ScalarBody env body ∧ ¬ ListBody env body
          ∧ (env.isValidOrderNo = Main.isValidOrderNo → ¬ Contested env body)) :=
  ⟨create_malformed_iff body inp, pay_malformed_iff (keysOrd_run hempty evs) hlink body inp⟩

/-- The document `5`. -/
theorem five_scalar : ScalarBody readingEnv "5" := ⟨.number one, by rfl, rfl⟩

/-- The body `5`. -/
theorem malformed_iff_five : readingEnv.isValidOrderNo = Helpers.isValidOrderNo ∧
    ({} : World).table = Keyed.empty ∧
    ¬ MalformedIs400 readingEnv .allOk ⟨.payOrder "5", {}⟩
      ((handlers readingEnv).run (initial {} fun _ : Fin 1 => sampleCreate)
        (schedule [0, 0, 0, 0])).world := by
  refine ⟨rfl, rfl, ?_⟩
  rw [(malformed_iff readingEnv (.inl rfl) {} rfl (fun _ : Fin 1 => sampleCreate)
    (schedule [0, 0, 0, 0]) .allOk "5" {}).2]
  exact fun h => h.1 five_scalar

/-- The body `5` makes `create_order` throw. -/
theorem scalar_body_throws :
    ¬ ∀ (env : Env) (jobs : Fin 1 → Job) (evs : List (Event (Fin 1) Outcome EnvEvent)) (f : Fate)
      (body : String) (inp : Inputs), env.isValidOrderNo = Helpers.isValidOrderNo →
      (∀ n, f.sqlite n = .ok) → MalformedIs400 env f ⟨.createOrder body, inp⟩
        ((handlers env).run (initial {} jobs) evs).world := by
  intro hall
  have h := hall readingEnv (fun _ => sampleCreate) [] .allOk "5" {} rfl fun _ => rfl
  exact ((create_malformed_iff "5" {}).mp h).1 five_scalar

end OrderApi.Orders
