/-
  OrderApi.Orders.Bodies
  ──────────────────────
  **HOW A REQUEST BODY IS READ**, for every value the parser can return.

  `create_order` and `pay_order` ask the parsed body for one member.  An object is
  sorted and searched; in an empty list nothing is found; a list with elements is
  sorted by keys its elements do not have, and nothing can be said any more; on a
  scalar `has` calls `begin()`, which throws.
-/
import OrderApi.Crow.JsonLoad
import OrderApi.Model.Handlers

namespace OrderApi.Orders

open OrderApi.Crow
open OrderApi.Model

/-- A value that is neither an object nor a list. -/
def isScalar : RValue → Bool
  | .object _ => false
  | .list _ => false
  | _ => true

/-- A list with elements. -/
def hasElements : RValue → Bool
  | .list l => !l.isEmpty
  | _ => false

/-- The member of an object under a key that the look-up takes: of several, the one
    that the sort puts first. -/
def member? (sort : MemberSort) (k : String) : RValue → Option RValue
  | .object members => ((sort.sort members).find? (fun m => m.1 = k)).map Prod.snd
  | _ => none

/-- What a scalar answers to `has`. -/
def notContainer : Exn := .runtimeError "value is not a container"

/-! ## §1. The two accessors. -/

section
variable {sort : MemberSort} {k : String} {v x : RValue}

theorem has_scalar (h : isScalar v = true) : v.has sort k = .error (.thrown notContainer) := by
  cases v with
  | list l => cases h
  | object ms => cases h
  | _ => rfl

/-- A list has elements without names: the behaviour of `has` is not defined. -/
theorem has_elements (h : hasElements v = true) : v.has sort k = .error .undefined := by
  cases v with
  | list l =>
      simp only [hasElements, Bool.not_eq_true'] at h
      simp only [RValue.has, h, Bool.false_eq_true, if_false]
  | _ => cases h

/-- The member is not there. -/
theorem has_missing (hscalar : isScalar v = false) (hlist : hasElements v = false)
    (h : member? sort k v = none) : v.has sort k = .ok false := by
  cases v with
  | object ms =>
      have hnone : (sort.sort ms).find? (fun m => m.1 = k) = none := Option.map_eq_none_iff.mp h
      have hany : (sort.sort ms).any (fun m => m.1 = k) = false := by
        rw [← List.isSome_find?, hnone]
        rfl
      rw [RValue.has, hany]
  | list l =>
      simp only [hasElements, Bool.not_eq_false'] at hlist
      simp only [RValue.has, hlist, if_true]
  | _ => cases hscalar

/-- The member is there, and it is the one that `operator[]` gives. -/
theorem has_found (h : member? sort k v = some x) :
    v.has sort k = .ok true ∧ v.get sort k = .ok x := by
  cases v with
  | object ms =>
      obtain ⟨m, hm, rfl⟩ := Option.map_eq_some_iff.mp h
      have hany : (sort.sort ms).any (fun m => m.1 = k) = true := by
        rw [← List.isSome_find?, hm]
        rfl
      rw [RValue.has, RValue.get, hany, hm]
      exact ⟨rfl, rfl⟩
  | _ => cases h

end

/-! ## §2. A body that is asked for a member. -/

/-- What both handlers do with a body: it is parsed and asked for a member, and `check` goes
    on with that. -/
def readMember {α : Type} (env : Env) (key missing : String) (check : RValue → Except Early α)
    (body : String) : Except Early α := do
  let some v := env.load body | throw (refusal env 400 "Invalid JSON format")
  if !(← attempt (v.has env.memberSort key)) then throw (refusal env 400 missing)
  check (← attempt (v.get env.memberSort key))

/-- The body is a JSON list with elements. -/
def ListBody (env : Env) (body : String) : Prop :=
  ∃ v, env.load body = some v ∧ hasElements v = true

section
variable {α : Type} {env : Env} {key missing : String} {check : RValue → Except Early α}
variable {body : String} {v x : RValue}

/-- A body that is no JSON. -/
theorem readMember_unparsed (h : env.load body = none) :
    readMember env key missing check body = .error (refusal env 400 "Invalid JSON format") := by
  unfold readMember
  rw [h]
  rfl

/-- A scalar. -/
theorem readMember_scalar (h : env.load body = some v) (hscalar : isScalar v = true) :
    readMember env key missing check body = .error (.answered (.threw notContainer)) := by
  unfold readMember
  rw [h]
  dsimp only
  rw [has_scalar hscalar]
  rfl

/-- A list with elements. -/
theorem readMember_elements (h : env.load body = some v) (hlist : hasElements v = true) :
    readMember env key missing check body = .error .undefined := by
  unfold readMember
  rw [h]
  dsimp only
  rw [has_elements hlist]
  rfl

/-- No such member. -/
theorem readMember_missing (h : env.load body = some v) (hscalar : isScalar v = false)
    (hlist : hasElements v = false) (hmember : member? env.memberSort key v = none) :
    readMember env key missing check body = .error (refusal env 400 missing) := by
  unfold readMember
  rw [h]
  dsimp only
  rw [has_missing hscalar hlist hmember]
  rfl

/-- The member decides. -/
theorem readMember_found (h : env.load body = some v)
    (hmember : member? env.memberSort key v = some x) :
    readMember env key missing check body = check x := by
  obtain ⟨hhas, hget⟩ := has_found hmember
  unfold readMember
  rw [h]
  dsimp only
  rw [hhas, hget]
  rfl

/-- **How a body is read**: the member is found and decides, or whatever is made of the member,
    the handler ends early. -/
theorem readMember_cases :
    (∃ v x, env.load body = some v ∧ member? env.memberSort key v = some x
        ∧ ∀ {β : Type} (check : RValue → Except Early β),
          readMember env key missing check body = check x)
      ∨ (∀ v, env.load body = some v → member? env.memberSort key v = none)
        ∧ ∃ early, ∀ {β : Type} (check : RValue → Except Early β),
          readMember env key missing check body = .error early := by
  cases hload : env.load body with
  | none => exact .inr ⟨nofun, _, fun _ => readMember_unparsed hload⟩
  | some v =>
  cases hmember : member? env.memberSort key v with
  | some x => exact .inl ⟨v, x, rfl, hmember, fun _ => readMember_found hload hmember⟩
  | none =>
      refine .inr ⟨fun v' hv' => Option.some.inj hv' ▸ hmember, ?_⟩
      cases hscalar : isScalar v with
      | true => exact ⟨_, fun _ => readMember_scalar hload hscalar⟩
      | false =>
          cases hlist : hasElements v with
          | true => exact ⟨_, fun _ => readMember_elements hload hlist⟩
          | false => exact ⟨_, fun _ => readMember_missing hload hscalar hlist hmember⟩

/-- What a handler goes on with. -/
theorem readMember_eq_ok {a : α} : readMember env key missing check body = .ok a ↔
    ∃ v x, env.load body = some v ∧ member? env.memberSort key v = some x ∧ check x = .ok a := by
  obtain ⟨v, x, hload, hmember, hread⟩ | ⟨hnone, early, hread⟩ :=
    @readMember_cases env key missing body
  · rw [hread]
    constructor
    · exact fun h => ⟨v, x, hload, hmember, h⟩
    · rintro ⟨v', x', hload', hmember', h⟩
      obtain rfl := Option.some.inj (hload.symm.trans hload')
      obtain rfl := Option.some.inj (hmember.symm.trans hmember')
      exact h
  · rw [hread]
    refine iff_of_false nofun ?_
    rintro ⟨v, x, hload, hmember, -⟩
    cases (hnone v hload).symm.trans hmember

/-- Only what is made of the member that is found counts. -/
theorem readMember_congr {check' : RValue → Except Early α}
    (h : ∀ v x, env.load body = some v → member? env.memberSort key v = some x →
      check x = check' x) :
    readMember env key missing check body = readMember env key missing check' body := by
  obtain ⟨v, x, hload, hmember, hread⟩ | ⟨-, early, hread⟩ :=
    @readMember_cases env key missing body
  · rw [hread, hread]
    exact h v x hload hmember
  · rw [hread, hread]

/-- A body with another value is no list with elements. -/
theorem not_listBody (hload : env.load body = some v) (h : hasElements v = false) :
    ¬ ListBody env body := by
  rintro ⟨v', hload', hlist⟩
  obtain rfl := Option.some.inj (hload.symm.trans hload')
  rw [h] at hlist
  cases hlist

theorem not_listBody_unparsed (hload : env.load body = none) : ¬ ListBody env body := by
  rintro ⟨v, hload', -⟩
  rw [hload] at hload'
  cases hload'

/-- **To ask for a member is undefined on the lists with elements, and on no other body.** -/
theorem readMember_undefined_iff (hcheck : ∀ x, check x ≠ .error .undefined) :
    readMember env key missing check body = .error .undefined ↔ ListBody env body := by
  cases hload : env.load body with
  | none =>
      refine iff_of_false ?_ (not_listBody_unparsed hload)
      simp [readMember_unparsed hload, refusal]
  | some v =>
  cases hlist : hasElements v with
  | true => exact iff_of_true (readMember_elements hload hlist) ⟨v, hload, hlist⟩
  | false =>
  refine iff_of_false ?_ (not_listBody hload hlist)
  cases hmember : member? env.memberSort key v with
  | some x =>
      rw [readMember_found hload hmember]
      exact hcheck x
  | none =>
      cases hscalar : isScalar v with
      | true => simp [readMember_scalar hload hscalar]
      | false => simp [readMember_missing hload hscalar hlist hmember, refusal]

end

/-! ## §3. The two handlers. -/

section
variable {env : Env} {body : String} {x : RValue}

/-- What `create_order` makes of the member. -/
def checkAmount (env : Env) (a : RValue) : Except Early Double :=
  if isValidAmount a then attempt a.d else .error (refusal env 400 "Missing amount")

/-- What `pay_order` makes of the member. -/
def checkOrderNo (env : Env) (n : RValue) : Except Early String :=
  if env.isValidOrderNo n then
    (if n.t = .string then attempt n.s else .error (refusal env 400 "order_no must be a string"))
  else .error (refusal env 400 "Missing order_no")

/-- The check of the type behind `is_valid_amount` never fires. -/
theorem createAmount_eq :
    createAmount env body = readMember env "amount" "Missing amount" (checkAmount env) body := by
  have htype : ∀ a : RValue, (do
      if !isValidAmount a then throw (refusal env 400 "Missing amount")
      if a.t ≠ .number then throw (refusal env 400 "Amount must be a number")
      attempt a.d) = checkAmount env a := by
    intro a
    unfold checkAmount
    cases a with
    | number d =>
        show (if !d.gtZero then _ else _) = if d.gtZero then _ else _
        cases d.gtZero <;> rfl
    | _ => rfl
  unfold readMember
  simp only [← htype]
  rfl

theorem payOrderNo_eq :
    payOrderNo env body
      = readMember env "order_no" "Missing order_no" (checkOrderNo env) body := by
  have hchecks : ∀ n : RValue, (do
      if !env.isValidOrderNo n then throw (refusal env 400 "Missing order_no")
      if n.t ≠ .string then throw (refusal env 400 "order_no must be a string")
      attempt n.s) = checkOrderNo env n := by
    intro n
    unfold checkOrderNo
    cases env.isValidOrderNo n with
    | false => rfl
    | true => cases n <;> rfl
  unfold readMember
  simp only [← hchecks]
  rfl

theorem enter_create_refused {early : Early} (h : createAmount env body = .error early)
    (inp : Inputs) : enter env inp (.createOrder body) = early.pc := by
  simp only [enter, h]

theorem enter_pay_refused {early : Early} (h : payOrderNo env body = .error early)
    (inp : Inputs) : enter env inp (.payOrder body) = early.pc := by
  simp only [enter, h]

/-- What `create_order` goes on with. -/
theorem createAmount_eq_ok {d : Double} :
    createAmount env body = .ok d ↔ ∃ v, env.load body = some v
      ∧ member? env.memberSort "amount" v = some (.number d) ∧ d.gtZero = true := by
  have hcheck : ∀ x, checkAmount env x = .ok d ↔ x = .number d ∧ d.gtZero = true := by
    intro x
    unfold checkAmount
    cases x with
    | number d' =>
        cases hgt : d'.gtZero with
        | true => simp only [isValidAmount, hgt, RValue.d, attempt]; grind
        | false => simp only [isValidAmount, hgt]; grind
    | _ => simp [isValidAmount]
  rw [createAmount_eq, readMember_eq_ok]
  simp only [hcheck]
  constructor
  · rintro ⟨v, x, hload, hmember, rfl, hgt⟩
    exact ⟨v, hload, hmember, hgt⟩
  · rintro ⟨v, hload, hmember, hgt⟩
    exact ⟨v, _, hload, hmember, rfl, hgt⟩

/-- What `pay_order` goes on with. -/
theorem payOrderNo_eq_ok {s : String} :
    payOrderNo env body = .ok s ↔ ∃ v, env.load body = some v
      ∧ member? env.memberSort "order_no" v = some (.string s)
      ∧ env.isValidOrderNo (.string s) = true := by
  have hcheck : ∀ x, checkOrderNo env x = .ok s
      ↔ x = .string s ∧ env.isValidOrderNo (.string s) = true := by
    intro x
    unfold checkOrderNo
    cases x with
    | string s' =>
        cases hvalid : env.isValidOrderNo (.string s') with
        | true => simp [RValue.t, RValue.s, attempt]; grind
        | false => simp; grind
    | _ => cases env.isValidOrderNo _ <;> simp [RValue.t]
  rw [payOrderNo_eq, readMember_eq_ok]
  simp only [hcheck]
  constructor
  · rintro ⟨v, x, hload, hmember, rfl, hvalid⟩
    exact ⟨v, hload, hmember, hvalid⟩
  · rintro ⟨v, hload, hmember, hvalid⟩
    exact ⟨v, _, hload, hmember, rfl, hvalid⟩

/-! ## §4. Bodies nothing can be said about. -/

/-- The request asks a list with elements for a member. -/
def SearchesList (env : Env) : OrderCall → Prop
  | .createOrder body => ListBody env body
  | .payOrder body => ListBody env body
  | _ => False

/-- What an accessor of a value without undefined behaviour ends in. -/
theorem attempt_ne_undefined {α : Type} {x : Except Fault α} (h : x ≠ .error .undefined) :
    attempt x ≠ .error .undefined := by
  cases x with
  | ok a => simp [attempt]
  | error fault =>
      cases fault with
      | thrown e => simp [attempt]
      | undefined => exact absurd rfl h

theorem createAmount_undefined_iff : createAmount env body = .error .undefined ↔
    ListBody env body := by
  rw [createAmount_eq]
  refine readMember_undefined_iff fun x => ?_
  unfold checkAmount
  split
  · exact attempt_ne_undefined (by cases x <;> simp [RValue.d])
  · simp [refusal]

theorem payOrderNo_undefined_iff : payOrderNo env body = .error .undefined ↔
    ListBody env body := by
  rw [payOrderNo_eq]
  refine readMember_undefined_iff fun x => ?_
  unfold checkOrderNo
  split
  · split
    · exact attempt_ne_undefined (by cases x <;> simp [RValue.s])
    · simp [refusal]
  · simp [refusal]

theorem early_pc_eq_lost_iff {early : Early} : early.pc = .lost ↔ early = .undefined := by
  cases early <;> simp [Early.pc]

/-- **Which requests are lost on entry.** -/
theorem enter_eq_lost_iff (inp : Inputs) (call : OrderCall) :
    enter env inp call = .lost ↔ SearchesList env call := by
  cases call with
  | createOrder body =>
      show _ ↔ ListBody env body
      rw [← createAmount_undefined_iff]
      cases hbody : createAmount env body with
      | ok amount => simp [enter, hbody]
      | error early => simp [enter, hbody, early_pc_eq_lost_iff]
  | payOrder body =>
      show _ ↔ ListBody env body
      rw [← payOrderNo_undefined_iff]
      cases hbody : payOrderNo env body with
      | ok o => simp [enter, hbody]
      | error early => simp [enter, hbody, early_pc_eq_lost_iff]
  | _ => simp [enter, SearchesList]

end

/-- The service with Crow's reader. -/
def readingEnv : Env := { sampleEnv with load := load fun _ => one }

end OrderApi.Orders
