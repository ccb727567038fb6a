/-
  OrderApi.Orders.OrderNumbers
  ────────────────────────────
  **ORDER NUMBERS ARE UNAMBIGUOUS.**

  `generate_order_no` writes the clock and the random part one behind the other,
  without a separator and without padding.  From 2001 to 2286 the clock has ten
  decimal digits, so the text splits in one way only.  And a number that was
  handed out is accepted again: however a client spells it in the body of a
  payment, it is decoded to itself, passes either definition of
  `is_valid_order_no`, and names the row that was created.
-/
import OrderApi.Crow.JsonRead
import OrderApi.Orders.Bodies
import OrderApi.Orders.SqliteErrors
import OrderApi.Orders.RowInvariant

namespace OrderApi.Orders

open OrderApi.Lib
open OrderApi.Lib.JsonText
open OrderApi.Crow
open OrderApi.Model

/-! ## §1. The two decimal numbers. -/

/-- The clock shows a time between 2001 and 2286. -/
structure Dated (inp : Inputs) : Prop where
  low : 10 ^ 9 ≤ inp.timestamp
  high : inp.timestamp < 10 ^ 10

theorem toDigits_injective {n m : Nat} (h : Nat.toDigits 10 n = Nat.toDigits 10 m) : n = m := by
  rw [← Nat.ofDigitChars_ten_toDigits (n := n), h, Nat.ofDigitChars_ten_toDigits]

/-- A number with ten digits. -/
theorem length_toDigits_ten {n : Nat} (hlow : 10 ^ 9 ≤ n) (hhigh : n < 10 ^ 10) :
    (Nat.toDigits 10 n).length = 10 := by
  have hle : (Nat.toDigits 10 n).length ≤ 10 :=
    (Nat.length_toDigits_le_iff (by decide) (by decide)).mpr hhigh
  have hgt : ¬ (Nat.toDigits 10 n).length ≤ 9 := by
    rw [Nat.length_toDigits_le_iff (by decide) (by decide)]
    omega
  omega

/-- A number `generate_order_no` makes, by its digits. -/
theorem toList_generateOrderNo {inp : Inputs} {n : Nat} (h : inp.timestamp = n) :
    (generateOrderNo inp).toList
      = "ORD".toList ++ (Nat.toDigits 10 n ++ Nat.toDigits 10 (inp.rand % 100000)) := by
  have hclock : (toString (n : Int)).toList = Nat.toDigits 10 n := by
    show (Nat.repr n).toList = _
    rw [Nat.toList_repr]
  have hrand : (toString (inp.rand % 100000)).toList = Nat.toDigits 10 (inp.rand % 100000) := by
    rw [Nat.toString_eq_repr, Nat.toList_repr]
  unfold generateOrderNo
  rw [h, String.toList_append, String.toList_append, hclock, hrand, List.append_assoc]

/-- Two order numbers that are equal have both their parts in common. -/
theorem generateOrderNo_inj {inp inp' : Inputs} (hd : Dated inp) (hd' : Dated inp')
    (h : generateOrderNo inp = generateOrderNo inp') :
    inp.timestamp = inp'.timestamp ∧ inp.rand % 100000 = inp'.rand % 100000 := by
  obtain ⟨hlow, hhigh⟩ := hd
  obtain ⟨hlow', hhigh'⟩ := hd'
  obtain ⟨n, hn⟩ := Int.eq_ofNat_of_zero_le (show 0 ≤ inp.timestamp by omega)
  obtain ⟨m, hm⟩ := Int.eq_ofNat_of_zero_le (show 0 ≤ inp'.timestamp by omega)
  have hlists := congrArg String.toList h
  rw [toList_generateOrderNo hn, toList_generateOrderNo hm] at hlists
  have hdigits := List.append_cancel_left hlists
  -- ten digits each, so the numbers end at the same place
  have hlen : (Nat.toDigits 10 n).length = (Nat.toDigits 10 m).length := by
    rw [length_toDigits_ten (by omega) (by omega), length_toDigits_ten (by omega) (by omega)]
  obtain ⟨hclock, hrand⟩ := List.append_inj hdigits hlen
  refine ⟨?_, toDigits_injective hrand⟩
  rw [hn, hm, toDigits_injective hclock]

/-! ## §2. Back in the body of a payment. -/

/-- An order number is ASCII. -/
theorem orderForm_ascii {o : String} (h : OrderForm o) : Ascii o.toList := by
  obtain ⟨digits, hlist, -, hdigits⟩ := h
  intro c hc
  rw [hlist] at hc
  rcases List.mem_append.mp hc with hc | hc
  · have hletters : "ORD".toList.all (fun c => c.toNat < 0x80) = true := by decide
    exact of_decide_eq_true (List.all_eq_true.mp hletters c hc)
  · have hdigit := hdigits c hc
    simp only [Char.isDigit, Bool.and_eq_true, decide_eq_true_eq, UInt32.le_iff_toNat_le] at hdigit
    have hnine : c.toNat ≤ 57 := hdigit.2
    omega

/-- Both checks let it pass. -/
theorem orderForm_valid {o : String} (h : OrderForm o) :
    Helpers.isValidOrderNo (.string o) = true ∧ Main.isValidOrderNo (.string o) = true := by
  obtain ⟨digits, hlist, -, -⟩ := h
  have hne : o ≠ "" := by
    rintro rfl
    cases hlist
  have htake : o.toList.take 3 = "ORD".toList := by
    rw [hlist]
    rfl
  have hlen : 0 < o.length := by
    rw [← String.length_toList, hlist]
    simp
  exact ⟨by simp [Helpers.isValidOrderNo, hne, htake], by simp [Main.isValidOrderNo, hlen]⟩

/-- A body whose only member is `order_no`, in any spelling that JSON allows. -/
def PayBody (o body : String) : Prop := OneString "order_no" o body.toList

/-- An order number is written into a body without an escape. -/
theorem orderForm_plain {o : String} (h : OrderForm o) :
    ∀ c ∈ o.toList, 0x20 ≤ c.toNat ∧ c ≠ '"' ∧ c ≠ '\\' := by
  obtain ⟨digits, hlist, -, hdigits⟩ := h
  intro c hc
  rw [hlist] at hc
  rcases List.mem_append.mp hc with hc | hc
  · have hletters : "ORD".toList.all (fun c => 0x20 ≤ c.toNat ∧ c ≠ '"' ∧ c ≠ '\\') = true := by
      decide
    exact of_decide_eq_true (List.all_eq_true.mp hletters c hc)
  · have hdigit := hdigits c hc
    simp only [Char.isDigit, Bool.and_eq_true, decide_eq_true_eq, UInt32.le_iff_toNat_le] at hdigit
    have hzero : 48 ≤ c.toNat := hdigit.1
    refine ⟨by omega, ?_, ?_⟩
    · rintro rfl
      exact absurd hzero (by decide)
    · rintro rfl
      exact absurd hdigit.2 (by decide)

/-- The plain spelling is one of them. -/
theorem payBody_plain {o : String} (ho : OrderForm o) :
    PayBody o ("\x7b\"order_no\":\"" ++ o ++ "\"\x7d") := by
  have hplain : "order_no".toList.all (fun c => 0x20 ≤ c.toNat ∧ c ≠ '"' ∧ c ≠ '\\') = true := by
    decide
  have hkey : StringText "order_no" "\"order_no\"".toList :=
    ⟨_, charsText_plain fun c hc => of_decide_eq_true (List.all_eq_true.mp hplain c hc), rfl⟩
  have hvalue : StringText o ('"' :: o.toList ++ ['"']) :=
    ⟨_, charsText_plain (orderForm_plain ho), rfl⟩
  refine ⟨_, _, hvalue, ⟨_, .one ⟨_, _, _, hkey, spaced_self _, spaced_self _, rfl⟩, ?_, ?_⟩,
    spaced_self _⟩
  · intro m hm
    obtain rfl := List.mem_singleton.mp hm
    exact .string hvalue
  · simp

variable {readDouble : String → Double}

/-- The JSON reader finds it in every spelling of the body. -/
theorem load_payBody {o body : String} (ho : OrderForm o) (h : PayBody o body) :
    load readDouble body = some (.object [("order_no", .string o)]) := by
  have hascii : "order_no".toList.all (fun c => c.toNat < 0x80) = true := by decide
  have hkey : Ascii "order_no".toList :=
    fun c hc => of_decide_eq_true (List.all_eq_true.mp hascii c hc)
  have hload : load readDouble (String.ofList body.toList)
      = some (.object [("order_no", .string o)]) := load_oneString hkey (orderForm_ascii ho) h
  rwa [String.ofList_toList] at hload

/-- The service reads bodies with `crow::json::load` and has one of the two
    definitions of `is_valid_order_no` linked in. -/
structure Linked (readDouble : String → Double) (env : Env) : Prop where
  load : env.load = Crow.load readDouble
  check : env.isValidOrderNo = Helpers.isValidOrderNo ∨ env.isValidOrderNo = Main.isValidOrderNo

/-- The handler reads the order number from every spelling of the body. -/
theorem payOrderNo_payBody {env : Env} (hlink : Linked readDouble env) {o body : String}
    (ho : OrderForm o) (h : PayBody o body) : payOrderNo env body = .ok o := by
  have hvalid : env.isValidOrderNo (.string o) = true := by
    rcases hlink.check with hcheck | hcheck
    · rw [hcheck]
      exact (orderForm_valid ho).1
    · rw [hcheck]
      exact (orderForm_valid ho).2
  exact payOrderNo_eq_ok.mpr ⟨_, by rw [hlink.load, load_payBody ho h], by simp [member?], hvalid⟩

/-! ## §3. The row that was created. -/

section
variable {env : Env} {f : Fate} {w w' : World}

/-- An answered creation has left a PENDING row. -/
theorem create_leaves_row {body : String} {inp : Inputs} {reply : Reply}
    (h : Ends env f ⟨.createOrder body, inp⟩ w reply w')
    (h200 : (Pc.done reply).answer = some 200) : UnpaidRow (generateOrderNo inp) w'.table := by
  cases hbody : createAmount env body with
  | error early =>
      have henter := enter_create_refused hbody inp
      cases early with
      | undefined => exact absurd h (not_ends_of_lost henter)
      | answered reply' =>
      obtain ⟨rfl, -⟩ := h.unique (ends_of_enter henter)
      obtain ⟨code, hcode, hle⟩ := refused_answer env (refuses_createAmount env body _ hbody)
      rw [hcode] at h200
      obtain rfl := Option.some.inj h200
      exact absurd hle (by decide)
  | ok amount =>
      obtain ⟨reply', w'', failed, hends, hcreate⟩ :=
        ends_of_endsWith (create_ends (f := f) (w := w) inp hbody)
      obtain ⟨rfl, rfl⟩ := h.unique hends
      cases hcreate with
      | failed message cause w₀ tried => simp at h200
      | committed table row =>
          rw [cStr_eq_self (generateOrderNo_noNul inp)] at row
          have hfind := Table.find_insertOrder row (generateOrderNo inp)
          rw [if_pos rfl] at hfind
          unfold UnpaidRow
          rw [tryCacheOrder, redisWrite_table _ _ _ _ rfl]
          exact ⟨_, hfind, by simp⟩

/-- With SQLite at work, a payment of a PENDING row is answered with 200. -/
theorem pay_unpaid {body o : String} (inp : Inputs) (hbody : payOrderNo env body = .ok o)
    (ho : NoNul o) (hrow : UnpaidRow o w.table) (hcalls : ∀ n, f.sqlite n = .ok) :
    ∃ reply w', Ends env f ⟨.payOrder body, inp⟩ w reply w'
      ∧ (Pc.done reply).answer = some 200 ∧ PaidRow o w'.table := by
  obtain ⟨r, hr, hstatus⟩ := hrow
  obtain ⟨reply, w', failed, hends, hpay⟩ :=
    ends_of_endsWith (pay_ends (f := f) (w := w) inp hbody)
  refine ⟨reply, w', hends, ?_⟩
  cases hpay with
  | failed n message lt fails select w₀ tried => exact absurd (hcalls n) fails
  | disguised prepared fails => exact absurd (hcalls 1) fails
  | missing select row =>
      rw [cStr_eq_self ho, hr] at row
      cases row
  | paid select row =>
      obtain ⟨r', hr', hpaid⟩ := row
      rw [cStr_eq_self ho, hr] at hr'
      obtain rfl := Option.some.inj hr'
      exact absurd hpaid hstatus
  | committed calls row amount createdAt =>
      refine ⟨rfl, Table.markPaid inp.now r, ?_, rfl⟩
      rw [invalidateCachedOrder, redisWrite_table _ _ _ _ rfl]
      show (w.table.updatePaid (cStr o) inp.now).find o = _
      rw [cStr_eq_self ho, Table.find_updatePaid, if_pos rfl, hr]
      rfl

end

/-- **Order numbers are unambiguous.**  For clocks of ten digits two numbers are
    equal only if clock and random part are; in every spelling of a payment's body
    the number decodes to itself and passes both definitions of
    `is_valid_order_no`; and whatever order `create_order` has answered for, with
    any calls failing, can be paid under its number. -/
theorem order_numbers_unambiguous (readDouble : String → Double) :
    (∀ inp inp', Dated inp → Dated inp' → generateOrderNo inp = generateOrderNo inp' →
      inp.timestamp = inp'.timestamp ∧ inp.rand % 100000 = inp'.rand % 100000)
      ∧ (∀ inp, Dated inp → ∀ body, PayBody (generateOrderNo inp) body →
        load readDouble body = some (.object [("order_no", .string (generateOrderNo inp))])
          ∧ Helpers.isValidOrderNo (.string (generateOrderNo inp)) = true
          ∧ Main.isValidOrderNo (.string (generateOrderNo inp)) = true)
      ∧ ∀ env, Linked readDouble env → ∀ f f' body inp w reply w', Dated inp →
        Ends env f ⟨.createOrder body, inp⟩ w reply w' → (Pc.done reply).answer = some 200 →
        (∀ n, f'.sqlite n = .ok) → ∀ payBody payInp, PayBody (generateOrderNo inp) payBody →
          ∃ reply' w'', Ends env f' ⟨.payOrder payBody, payInp⟩ w' reply' w''
            ∧ (Pc.done reply').answer = some 200 ∧ PaidRow (generateOrderNo inp) w''.table := by
  have hform : ∀ inp, Dated inp → OrderForm (generateOrderNo inp) := by
    intro inp hd
    have hlow := hd.low
    exact generateOrderNo_form (by omega)
  refine ⟨fun inp inp' => generateOrderNo_inj, ?_, ?_⟩
  · intro inp hd body hbody
    exact ⟨load_payBody (hform inp hd) hbody, orderForm_valid (hform inp hd)⟩
  · intro env hlink f f' body inp w reply w' hd hends h200 hcalls payBody payInp hpay
    exact pay_unpaid payInp (payOrderNo_payBody hlink (hform inp hd) hpay)
      (generateOrderNo_noNul inp) (create_leaves_row hends h200) hcalls

/-- The sample order, and the sample body. -/
theorem order_numbers_unambiguous_sample :
    Dated sampleCreate.inp ∧ PayBody "ORD17000000007" samplePayBody ∧
    load (fun _ => one) samplePayBody = some (.object [("order_no", .string "ORD17000000007")]) := by
  have hd : Dated sampleCreate.inp := ⟨by decide, by decide⟩
  have hform : OrderForm (generateOrderNo sampleCreate.inp) := generateOrderNo_form (by decide)
  have hbody : PayBody "ORD17000000007" samplePayBody := payBody_plain hform
  exact ⟨hd, hbody, ((order_numbers_unambiguous fun _ => one).2.1 _ hd _ hbody).1⟩

end OrderApi.Orders
