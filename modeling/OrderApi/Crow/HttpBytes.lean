/-
  OrderApi.Crow.HttpBytes
  ───────────────────────
  **THE LOOP, ONE BYTE AT A TIME.**

  `http_parser_execute` runs through names, values and bodies in inner loops.  What it
  computes is nevertheless a fold over the bytes:

    • `byte`            a round that sees nothing behind its byte;
    • `bytes`           one such round after the other;
    • `run_eq_bytes`    the loop is `bytes`, as long as no `Upgrade` header asks for the
                        byte behind;
    • `byte_onward`     without a delivery a request only goes forward: to the URL, and
                        behind it.
-/
import OrderApi.Crow.HttpInvariant

namespace OrderApi.Crow.HttpParser

section
variable (routed : HttpMethod → List Char → Bool) (buffer : Nat)

/-! ## §1. Bytes. -/

/-- A round at the end of the buffer. -/
def byte (e : Exec) (ch : Char) : Step := round routed buffer e ch []

/-- The bytes one after the other. -/
def bytes (e : Exec) : List Char → Outcome
  | [] => .ended e
  | ch :: rest =>
      match byte routed buffer e ch with
      | .next e _ => bytes e rest
      | .leave e => .left e rest.length
      | .failed _ deliveries => .failed deliveries
      | .aborted => .aborted

end

/-- `P` holds of where the loop goes on and of how many bytes are dealt with. -/
def Step.Nexts (P : Exec → Nat → Prop) : Step → Prop
  | .next e n => P e n
  | _ => True

section
variable {P : Exec → Nat → Prop} {e : Exec} {ch c : Char} {k : Step}

@[simp] theorem nexts_next {n : Nat} : (Step.next e n).Nexts P ↔ P e n := Iff.rfl

@[simp] theorem nexts_leave : (Step.leave e).Nexts P ↔ True := Iff.rfl

@[simp] theorem nexts_failed {err : Errno} {ds : List Delivery} :
    (Step.failed err ds).Nexts P ↔ True := Iff.rfl

@[simp] theorem nexts_aborted : Step.aborted.Nexts P ↔ True := Iff.rfl

@[simp] theorem nexts_advance :
    (e.advance ch).Nexts P ↔ P { e with marks := e.marks.consume [ch] } 0 := Iff.rfl

@[simp] theorem nexts_fail {err : Errno} : (e.fail err).Nexts P ↔ True := Iff.rfl

@[simp] theorem nexts_strict : (e.strict ch c k).Nexts P ↔ (ch = c → k.Nexts P) := by
  unfold Exec.strict
  by_cases h : ch = c <;> simp [h]

@[simp] theorem nexts_assert {b : Bool} : (Exec.assert b k).Nexts P ↔ (b = true → k.Nexts P) := by
  cases b <;> simp [Exec.assert]

/-- `COUNT_HEADER_SIZE` goes on while the header is within the limit. -/
@[simp] theorem nexts_counting {n : Nat} {f : Exec → Step} :
    (e.counting n f).Nexts P ↔
      (e.nread + n ≤ maxHeaderSize → (f { e with nread := e.nread + n }).Nexts P) := by
  unfold Exec.counting
  by_cases h : maxHeaderSize < e.nread + n
  · simp [h, Nat.not_le_of_lt h]
  · simp [h, Nat.le_of_not_lt h]

@[simp] theorem nexts_ite {p : Prop} [Decidable p] {s t : Step} :
    (if p then s else t).Nexts P ↔ (p → s.Nexts P) ∧ (¬ p → t.Nexts P) := by
  by_cases h : p <;> simp [h]

end

/-! ## §2. A request goes forward. -/

/-- Before the URL, in it, behind it. -/
def State.stage : State → Nat
  | .dead | .startReq | .reqMethod | .reqSpacesBeforeUrl => 0
  | s => if s.inUrl then 1 else 2

/-- One byte is dealt with and, unless a request has been delivered, the stage is no
    earlier one, `message_complete` stays, and before the URL `url_start_mark` is not set. -/
def Onward (e e' : Exec) (more : Nat) : Prop :=
  more = 0 ∧ (e'.deliveries = e.deliveries →
    e.self.state.stage ≤ e'.self.state.stage
      ∧ e'.self.messageComplete = e.self.messageComplete
      ∧ (e'.self.state.stage = 0 → e.marks.urlStart = none → e'.marks.urlStart = none))

theorem State.stage_le (s : State) : s.stage ≤ 2 := by
  cases s <;> decide

section
variable {routed : HttpMethod → List Char → Bool} {buffer : Nat} {e e' : Exec} {ch : Char}

/-- Behind the URL there is nothing more to say. -/
theorem onward_later (h : e'.self.state.stage = 2)
    (hself : e'.self.messageComplete = e.self.messageComplete) : Onward e e' 0 := by
  refine ⟨rfl, fun _ => ⟨h ▸ State.stage_le _, hself, fun hzero => ?_⟩⟩
  rw [h] at hzero
  cases hzero

theorem onward_delivered {d : Delivery} (h : e'.deliveries = e.deliveries ++ [d]) {n : Nat}
    (hn : n = 0) : Onward e e' n := by
  refine ⟨hn, fun hsame => ?_⟩
  rw [h] at hsame
  simp at hsame

theorem onward_stay (hs : e'.self = e.self)
    (hmark : e'.marks.urlStart = e.marks.urlStart.map (· + 1)) : Onward e e' 0 := by
  refine ⟨rfl, fun _ => ⟨Nat.le_of_eq (by rw [hs]), by rw [hs], fun _ hnone => ?_⟩⟩
  rw [hmark, hnone]
  rfl

/-- To a state that is no earlier one, where the marks move on by a byte. -/
theorem onward_goto (h : e.self.state.stage ≤ e'.self.state.stage)
    (hself : e'.self.messageComplete = e.self.messageComplete)
    (hmark : e'.self.state.stage = 0 → e'.marks.urlStart = e.marks.urlStart.map (· + 1)) :
    Onward e e' 0 := by
  refine ⟨rfl, fun _ => ⟨h, hself, fun hzero hnone => ?_⟩⟩
  rw [hmark hzero, hnone]
  rfl

/-- The first byte of a request leaves the parser in front of its URL. -/
theorem onward_startReq (hs : e.self.state = .startReq) : (startReq e ch).Nexts (Onward e) := by
  unfold startReq
  simp only [nexts_ite, nexts_fail, nexts_advance]
  refine ⟨fun _ => onward_stay rfl rfl, fun _ => ⟨fun _ => trivial, fun _ => ?_⟩⟩
  cases firstMethod ch with
  | none => trivial
  | some m => exact onward_goto (by rw [hs]; exact Nat.zero_le _) rfl fun _ => rfl

/-- So do the bytes of the method. -/
theorem onward_reqMethod (hs : e.self.state = .reqMethod) : (reqMethod e ch).Nexts (Onward e) := by
  have hread : ∀ p : Parser, (methodRead { e with self.toParser := p } ch).Nexts (Onward e) := by
    intro p
    exact onward_goto (by rw [hs]; exact Nat.zero_le _) rfl fun _ => rfl
  unfold reqMethod
  simp only [nexts_ite, nexts_fail]
  refine ⟨fun _ => trivial, fun _ => ⟨fun _ => hread _, fun _ =>
    ⟨fun _ => hread e.self.toParser, fun _ => ⟨fun _ => ?_, fun _ => trivial⟩⟩⟩⟩
  cases otherMethod e.self.method e.self.index ch with
  | none => trivial
  | some m => exact hread { e.self.toParser with method := m }

/-- A character of the URL leads into the URL. -/
theorem onward_urlChar {e₀ : Exec} (hstage : e₀.self.state.stage ≤ 1)
    (hself : e.self.messageComplete = e₀.self.messageComplete) :
    (urlChar buffer e ch).Nexts (Onward e₀) := by
  have hin : ∀ {e' : Exec}, e'.self.state.inUrl = true →
      e'.self.messageComplete = e.self.messageComplete → Onward e₀ e' 0 := by
    intro e' hin hcomplete
    have hone : e'.self.state.stage = 1 := by
      cases hs : e'.self.state <;> rw [hs] at hin <;> first | rfl | cases hin
    refine ⟨rfl, fun _ => ⟨hone ▸ hstage, hcomplete.trans hself, fun hzero => ?_⟩⟩
    rw [hone] at hzero
    cases hzero
  have hspec := parseUrlChar_spec e.self.state ch
  unfold urlChar
  split
  · trivial
  · exact hin rfl rfl
  · rename_i hdead _
    exact hin (hspec.resolve_left hdead).1 rfl

/-- Behind the method the URL begins. -/
theorem onward_reqSpacesBeforeUrl (hs : e.self.state = .reqSpacesBeforeUrl) :
    (reqSpacesBeforeUrl buffer e ch).Nexts (Onward e) := by
  unfold reqSpacesBeforeUrl
  simp only [nexts_ite, nexts_advance]
  refine ⟨fun _ => onward_stay rfl rfl, fun _ => onward_urlChar (by rw [hs]; decide) ?_⟩
  split <;> rfl

theorem onward_urlPrefix (hs : e.self.state.stage ≤ 1) :
    (urlPrefix buffer e ch).Nexts (Onward e) := by
  unfold urlPrefix
  simp only [nexts_ite, nexts_fail]
  exact ⟨fun _ => trivial, fun _ => onward_urlChar hs rfl⟩

/-- `on_url` keeps the parser itself, and it goes on if there is a route. -/
theorem nexts_flushUrl {P : Exec → Nat → Prop} {k : Exec → Step}
    (hk : ∀ e', e'.self.toParser = e.self.toParser →
      e'.self.messageComplete = e.self.messageComplete → (k e').Nexts P) :
    (flushUrl routed e k).Nexts P := by
  unfold flushUrl
  split
  · exact hk e rfl rfl
  · simp only [nexts_ite, nexts_failed]
    exact ⟨fun _ => hk _ rfl rfl, fun _ => trivial⟩

/-- The URL goes on or ends. -/
theorem onward_urlRest (hs : e.self.state.stage ≤ 1) :
    (urlRest routed buffer e ch).Nexts (Onward e) := by
  unfold urlRest
  simp only [nexts_ite, nexts_fail]
  refine ⟨fun _ => ?_, fun _ => ⟨fun _ => ⟨fun _ => trivial, fun _ => ?_⟩,
    fun _ => onward_urlChar hs rfl⟩⟩
  · exact nexts_flushUrl fun e' hp hself =>
      onward_later (congrArg (fun p => p.state.stage) hp) hself
  · refine nexts_flushUrl fun e' hp hself => onward_later ?_ hself
    refine (congrArg (fun p => p.state.stage) hp).trans ?_
    show State.stage (if ch = '\r' then .reqLineAlmostDone else .headerFieldStart) = 2
    split <;> rfl

theorem onward_reqHttpStart : (reqHttpStart e ch).Nexts (Onward e) := by
  unfold reqHttpStart
  simp only [nexts_ite, nexts_fail, nexts_advance]
  exact ⟨fun _ => onward_stay rfl rfl, fun _ => ⟨fun _ => onward_later rfl rfl, fun _ =>
    ⟨fun _ => onward_later rfl rfl, fun _ => trivial⟩⟩⟩

theorem onward_versionLetter {c : Char} {s : State} (hs : s.stage = 2) :
    (versionLetter c s e ch).Nexts (Onward e) := by
  unfold versionLetter
  simp only [nexts_strict, nexts_advance]
  exact fun _ => onward_later hs rfl

theorem onward_reqHttpMajor : (reqHttpMajor e ch).Nexts (Onward e) := by
  unfold reqHttpMajor
  simp only [nexts_ite, nexts_fail, nexts_advance]
  exact ⟨fun _ => trivial, fun _ => onward_later rfl rfl⟩

theorem onward_reqHttpDot : (reqHttpDot e ch).Nexts (Onward e) := by
  unfold reqHttpDot
  simp only [nexts_ite, nexts_fail, nexts_advance]
  exact ⟨fun _ => trivial, fun _ => onward_later rfl rfl⟩

theorem onward_reqHttpMinor : (reqHttpMinor e ch).Nexts (Onward e) := by
  unfold reqHttpMinor
  simp only [nexts_ite, nexts_fail, nexts_advance]
  exact ⟨fun _ => trivial, fun _ => onward_later rfl rfl⟩

theorem onward_reqHttpEnd : (reqHttpEnd e ch).Nexts (Onward e) := by
  unfold reqHttpEnd
  simp only [nexts_ite, nexts_fail, nexts_advance]
  exact ⟨fun _ => onward_later rfl rfl, fun _ => ⟨fun _ => onward_later rfl rfl, fun _ => trivial⟩⟩

theorem onward_reqLineAlmostDone : (reqLineAlmostDone e ch).Nexts (Onward e) := by
  unfold reqLineAlmostDone
  simp only [nexts_ite, nexts_fail, nexts_advance]
  exact ⟨fun _ => trivial, fun _ => onward_later rfl rfl⟩

theorem onward_headerAlmostDone : (headerAlmostDone e ch).Nexts (Onward e) := by
  unfold headerAlmostDone
  simp only [nexts_ite, nexts_fail, nexts_advance]
  exact ⟨fun _ => trivial, fun _ => onward_later rfl rfl⟩

/-- The end of a header, from wherever it is reached. -/
theorem onward_headersDone {e₀ : Exec} (hds : e.deliveries = e₀.deliveries)
    (hself : e.self.messageComplete = e₀.self.messageComplete) :
    (headersDone e ch).Nexts (Onward e₀) := by
  unfold headersDone
  simp only [nexts_strict, nexts_ite, nexts_leave, nexts_fail, nexts_advance]
  refine fun _ => ⟨fun _ => trivial, fun _ => ⟨fun _ => onward_later rfl hself, fun _ =>
    ⟨fun _ => trivial, fun _ => ⟨fun _ => ?_, fun _ => onward_later rfl hself⟩⟩⟩⟩
  exact onward_delivered (congrArg (· ++ _) hds) rfl

/-- The end of the header may be the end of the request. -/
theorem onward_headersAlmostDone {e₀ : Exec} (hds : e.deliveries = e₀.deliveries)
    (hself : e.self.messageComplete = e₀.self.messageComplete) :
    (headersAlmostDone e ch).Nexts (Onward e₀) := by
  unfold headersAlmostDone
  simp only [nexts_strict, nexts_ite, nexts_fail, nexts_advance]
  refine fun _ => ⟨fun _ => onward_delivered (congrArg (· ++ _) hds) rfl, fun _ =>
    ⟨fun _ => trivial, fun _ => onward_headersDone hds (Eq.trans ?_ hself)⟩⟩
  unfold onHeadersComplete
  split <;> rfl

/-- The first byte of a header line. -/
theorem onward_headerFieldStart {e₀ : Exec} (hds : e.deliveries = e₀.deliveries)
    (hself : e.self.messageComplete = e₀.self.messageComplete) :
    (headerFieldStart e ch).Nexts (Onward e₀) := by
  unfold headerFieldStart
  simp only [nexts_ite, nexts_advance]
  refine ⟨fun _ => onward_later rfl hself, fun _ =>
    ⟨fun _ => onward_headersAlmostDone hds hself, fun _ => ?_⟩⟩
  cases token ch with
  | none => trivial
  | some c => exact onward_later rfl hself

end

/-! ## §3. The inner loops at the end of the buffer. -/

@[simp] theorem Marks.consume_nil (m : Marks) : m.consume [] = m := by
  simp [Marks.consume]

section
variable {e : Exec} {ch c : Char} {rest : List Char}

theorem headerField_stop (h : token ch = none) :
    headerField e ch rest = e.counting 0 fun e =>
      if ch = ':' then .next (flushHeaderField (e.pass.goto .headerValueDiscardWs)) 0
      else e.fail .invalidHeaderToken := by
  simp [headerField, fieldLoop, h]

/-- A character of a name. -/
theorem headerField_token {q : Parser} (h : token ch = some c)
    (hq : fieldChar e.self.toParser c ch = some q) :
    headerField e ch [] =
      { e with self.toParser := q, marks := e.marks.consume [ch] : Exec }.counting 0
        (.next · 0) := by
  simp [headerField, fieldLoop, h, hq]

theorem headerValue_stop (h : ch = '\r' ∨ ch = '\n') :
    headerValue e ch rest = e.counting 0 fun e =>
      let e := flushHeaderValue (e.pass.goto .headerAlmostDone)
      if ch = '\r' then .next e 0 else .next (e.goto .headerValueLws) 0 := by
  simp [headerValue, valueLoop, h]

theorem headerValue_control (h : ¬ (ch = '\r' ∨ ch = '\n')) (hc : isHeaderChar ch = false) :
    headerValue e ch rest = e.fail .invalidHeaderToken := by
  simp [headerValue, valueLoop, h, hc]

theorem headerValue_error {err : Errno} (h : ¬ (ch = '\r' ∨ ch = '\n'))
    (hc : isHeaderChar ch = true) (hq : valueChar e.self.toParser ch = some (.error err)) :
    headerValue e ch rest = e.fail err := by
  simp [headerValue, valueLoop, h, hc, hq]

/-- A character of a value. -/
theorem headerValue_char {q : Parser} (h : ¬ (ch = '\r' ∨ ch = '\n'))
    (hc : isHeaderChar ch = true) (hq : valueChar e.self.toParser ch = some (.ok q)) :
    headerValue e ch [] =
      { e with self.toParser := q, marks := e.marks.consume [ch] : Exec }.counting 0
        (.next · 0) := by
  simp [headerValue, valueLoop, h, hc, hq, Except.map]

/-- What a byte does to a name. -/
theorem headerField_cases (hname : e.self.headerState.ofName = true) (ch : Char) :
    (token ch = none)
      ∨ ∃ c q, token ch = some c ∧ fieldChar e.self.toParser c ch = some q
          ∧ q.headerState.ofName = true ∧ q.state = e.self.state := by
  cases htok : token ch with
  | none => exact .inl rfl
  | some c =>
      obtain ⟨q, hq, hqname, hstate, -⟩ := fieldChar_ofName hname c ch
      exact .inr ⟨c, q, rfl, hq, hqname, hstate⟩

/-- What a byte does to a value. -/
theorem headerValue_cases (hvalue : e.self.headerState.ofValue = true)
    (hlength : e.self.contentLength ≤ ullongMax) (ch : Char) :
    (ch = '\r' ∨ ch = '\n')
      ∨ (¬ (ch = '\r' ∨ ch = '\n') ∧ isHeaderChar ch = false)
      ∨ (∃ err, ¬ (ch = '\r' ∨ ch = '\n') ∧ isHeaderChar ch = true
          ∧ valueChar e.self.toParser ch = some (.error err))
      ∨ ∃ q, ¬ (ch = '\r' ∨ ch = '\n') ∧ isHeaderChar ch = true
          ∧ valueChar e.self.toParser ch = some (.ok q)
          ∧ q.headerState.ofValue = true ∧ q.state = e.self.state
          ∧ q.contentLength ≤ ullongMax := by
  by_cases hend : ch = '\r' ∨ ch = '\n'
  · exact .inl hend
  · cases hc : isHeaderChar ch with
    | false => exact .inr (.inl ⟨hend, rfl⟩)
    | true =>
        obtain ⟨r, hr, hspec⟩ := valueChar_ofValue hvalue hlength ch
        cases r with
        | error err => exact .inr (.inr (.inl ⟨err, hend, rfl, hr⟩))
        | ok q => exact .inr (.inr (.inr ⟨q, hend, rfl, hr, hspec q rfl⟩))

/-- The callbacks of the marks complete no request; so with the two below. -/
theorem flushHeaderField_messageComplete (e : Exec) :
    (flushHeaderField e).self.messageComplete = e.self.messageComplete := by
  unfold flushHeaderField
  split
  · rfl
  · unfold onHeaderField
    repeat' split
    all_goals rfl

theorem flushHeaderValue_messageComplete (e : Exec) :
    (flushHeaderValue e).self.messageComplete = e.self.messageComplete := by
  unfold flushHeaderValue
  split
  · rfl
  · unfold onHeaderValue
    split <;> rfl

theorem flushBody_messageComplete (e : Exec) :
    (flushBody e).self.messageComplete = e.self.messageComplete := by
  unfold flushBody
  split <;> rfl

/-- They keep the state and what was delivered; so with the four below. -/
theorem flushHeaderField_state (e : Exec) : (flushHeaderField e).self.state = e.self.state := by
  unfold flushHeaderField
  split
  · rfl
  · unfold onHeaderField
    repeat' split
    all_goals rfl

theorem flushHeaderValue_state (e : Exec) : (flushHeaderValue e).self.state = e.self.state := by
  unfold flushHeaderValue
  split
  · rfl
  · unfold onHeaderValue
    split <;> rfl

theorem flushHeaderValue_deliveries (e : Exec) :
    (flushHeaderValue e).deliveries = e.deliveries := by
  unfold flushHeaderValue
  split <;> rfl

theorem flushBody_state (e : Exec) : (flushBody e).self.state = e.self.state := by
  unfold flushBody
  split <;> rfl

theorem flushBody_deliveries (e : Exec) : (flushBody e).deliveries = e.deliveries := by
  unfold flushBody
  split <;> rfl

/-- A name goes on or ends. -/
theorem onward_headerField (hs : e.self.state = .headerField)
    (hname : e.self.headerState.ofName = true) : (headerField e ch []).Nexts (Onward e) := by
  obtain htok | ⟨c, q, htok, hq, -, hstate⟩ := headerField_cases hname ch
  · rw [headerField_stop htok]
    simp only [nexts_counting, nexts_ite, nexts_next, nexts_fail]
    refine fun _ => ⟨fun _ => onward_later ?_ (flushHeaderField_messageComplete _),
      fun _ => trivial⟩
    rw [flushHeaderField_state]
    rfl
  · rw [headerField_token htok hq]
    simp only [nexts_counting, nexts_next]
    exact fun _ => onward_later (by dsimp only; rw [hstate, hs]; rfl) rfl

/-- A value goes on or ends. -/
theorem onward_headerValue (hs : e.self.state = .headerValue)
    (hvalue : e.self.headerState.ofValue = true) (hlength : e.self.contentLength ≤ ullongMax) :
    (headerValue e ch []).Nexts (Onward e) := by
  obtain hend | ⟨hend, hc⟩ | ⟨err, hend, hc, herr⟩ | ⟨q, hend, hc, hq, -, hstate, -⟩ :=
    headerValue_cases hvalue hlength ch
  · rw [headerValue_stop hend]
    simp only [nexts_counting, nexts_ite, nexts_next]
    refine fun _ => ⟨fun _ => onward_later ?_ (flushHeaderValue_messageComplete _),
      fun _ => onward_later rfl (flushHeaderValue_messageComplete _)⟩
    rw [flushHeaderValue_state]
    rfl
  · rw [headerValue_control hend hc]
    trivial
  · rw [headerValue_error hend hc herr]
    trivial
  · rw [headerValue_char hend hc hq]
    simp only [nexts_counting, nexts_next]
    exact fun _ => onward_later (by dsimp only; rw [hstate, hs]; rfl) rfl

/-- A value begins without a change of the state. -/
theorem valueStart_state {p q : Parser} {more : List Char} (h : valueStart p ch more = .ok q) :
    q.state = p.state := by
  unfold valueStart at h
  split at h
  · cases h
    rfl
  · cases h
    rfl
  · cases h
    rfl
  · split at h
    · cases h
    · split at h
      · cases h
      · cases h
        rfl
  · cases h
    rfl
  · cases h
    rfl
  · cases h
    rfl

/-- The first character of a value. -/
theorem onward_headerValueStart {e₀ : Exec}
    (hself : e.self.messageComplete = e₀.self.messageComplete) :
    (headerValueStart e ch rest).Nexts (Onward e₀) := by
  unfold headerValueStart
  dsimp only
  split
  · rename_i q hq
    exact onward_later (by dsimp only; rw [valueStart_state hq]; rfl) hself
  · trivial

theorem onward_headerValueDiscardWs :
    (headerValueDiscardWs e ch rest).Nexts (Onward e) := by
  unfold headerValueDiscardWs
  simp only [nexts_ite, nexts_advance]
  exact ⟨fun _ => onward_stay rfl rfl, fun _ => ⟨fun _ => onward_later rfl rfl, fun _ =>
    ⟨fun _ => onward_later rfl rfl, fun _ => onward_headerValueStart rfl⟩⟩⟩

theorem onward_headerValueLws : (headerValueLws e ch rest).Nexts (Onward e) := by
  unfold headerValueLws
  simp only [nexts_ite]
  exact ⟨fun _ => onward_headerValueStart rfl, fun _ => onward_headerFieldStart rfl rfl⟩

theorem onward_headerValueDiscardLws : (headerValueDiscardLws e ch).Nexts (Onward e) := by
  unfold headerValueDiscardLws
  simp only [nexts_ite, nexts_advance]
  exact ⟨fun _ => onward_later rfl rfl, fun _ => onward_headerFieldStart
    (flushHeaderValue_deliveries _) (flushHeaderValue_messageComplete _)⟩

/-- Bytes of a body; the last one completes the request. -/
theorem onward_bodyIdentity (hs : e.self.state = .bodyIdentity) :
    (bodyIdentity e ch []).Nexts (Onward e) := by
  have hone : (takeBody e ch []).2 - 1 = 0 := by
    show min e.self.contentLength 1 - 1 = 0
    omega
  unfold bodyIdentity
  simp only [nexts_assert, nexts_ite, nexts_next]
  refine fun _ => ⟨fun _ => ?_, fun _ => ?_⟩
  · exact onward_delivered (congrArg (· ++ _) (flushBody_deliveries _)) hone
  · rw [hone]
    refine onward_later ?_ rfl
    rw [takeBody_toParser]
    simp only [hs]
    rfl

/-- Bytes of a chunk. -/
theorem onward_chunkData (hs : e.self.state = .chunkData) :
    (chunkData e ch []).Nexts (Onward e) := by
  have hone : (takeBody e ch []).2 - 1 = 0 := by
    show min e.self.contentLength 1 - 1 = 0
    omega
  unfold chunkData
  simp only [nexts_assert, nexts_next]
  intro _
  rw [hone]
  split
  · exact onward_later rfl rfl
  · refine onward_later ?_ rfl
    rw [takeBody_toParser]
    simp only [hs]
    rfl

/-- The size of a chunk begins. -/
theorem onward_chunkSizeStart : (chunkSizeStart e ch).Nexts (Onward e) := by
  unfold chunkSizeStart
  simp only [nexts_assert]
  intro _
  cases unhex ch with
  | none => trivial
  | some n => exact onward_later rfl rfl

/-- The size goes on or ends. -/
theorem onward_chunkSize (hs : e.self.state = .chunkSize) : (chunkSize e ch).Nexts (Onward e) := by
  unfold chunkSize
  simp only [nexts_assert, nexts_ite, nexts_advance]
  refine fun _ => ⟨fun _ => onward_later rfl rfl, fun _ => ?_⟩
  cases unhex ch with
  | none =>
      simp only [nexts_ite, nexts_fail, nexts_advance]
      exact ⟨fun _ => onward_later rfl rfl, fun _ => trivial⟩
  | some n =>
      simp only [nexts_ite, nexts_fail, nexts_advance]
      exact ⟨fun _ => trivial, fun _ => onward_later (by dsimp only; rw [hs]; rfl) rfl⟩

theorem onward_chunkParameters : (chunkParameters e ch).Nexts (Onward e) := by
  unfold chunkParameters
  simp only [nexts_assert, nexts_ite, nexts_advance]
  exact fun _ => ⟨fun _ => onward_later rfl rfl, fun _ => onward_stay rfl rfl⟩

theorem onward_chunkSizeAlmostDone : (chunkSizeAlmostDone e ch).Nexts (Onward e) := by
  unfold chunkSizeAlmostDone
  simp only [nexts_assert, nexts_strict, nexts_ite, nexts_advance]
  exact fun _ _ => ⟨fun _ => onward_later rfl rfl, fun _ => onward_later rfl rfl⟩

theorem onward_chunkDataAlmostDone : (chunkDataAlmostDone e ch).Nexts (Onward e) := by
  unfold chunkDataAlmostDone
  simp only [nexts_assert, nexts_strict, nexts_advance]
  exact fun _ _ => onward_later (by rw [flushBody_state]; rfl) (flushBody_messageComplete _)

theorem onward_chunkDataDone : (chunkDataDone e ch).Nexts (Onward e) := by
  unfold chunkDataDone
  simp only [nexts_assert, nexts_strict, nexts_advance]
  exact fun _ _ => onward_later rfl rfl

end

section
variable {routed : HttpMethod → List Char → Bool} {buffer : Nat} {e : Exec} {ch : Char}

/-- **A byte leads forward**, if anywhere. -/
theorem onward_switch (h : Inv e) (n : Nat) :
    (switch routed buffer { e with nread := n } ch []).Nexts (Onward e) := by
  have hready := h.ready
  unfold switch
  cases hs : e.self.state with
  | dead =>
      simp only [nexts_ite, nexts_fail, nexts_advance]
      exact ⟨fun _ => onward_stay rfl rfl, fun _ => trivial⟩
  | startReq => exact onward_startReq hs
  | reqMethod => exact onward_reqMethod hs
  | reqSpacesBeforeUrl => exact onward_reqSpacesBeforeUrl hs
  | reqSchema | reqSchemaSlash | reqSchemaSlashSlash | reqServerStart =>
      exact onward_urlPrefix (by rw [hs]; decide)
  | reqServer | reqServerWithAt | reqPath | reqQueryStringStart | reqQueryString =>
      exact onward_urlRest (by rw [hs]; decide)
  | reqHttpStart => exact onward_reqHttpStart
  | reqHttpH | reqHttpHT | reqHttpHTT | reqHttpI | reqHttpIC | reqHttpHTTP =>
      exact onward_versionLetter rfl
  | headerValueDiscardWsAlmostDone => exact onward_versionLetter rfl
  | reqHttpMajor => exact onward_reqHttpMajor
  | reqHttpDot => exact onward_reqHttpDot
  | reqHttpMinor => exact onward_reqHttpMinor
  | reqHttpEnd => exact onward_reqHttpEnd
  | reqLineAlmostDone => exact onward_reqLineAlmostDone
  | headerFieldStart => exact onward_headerFieldStart rfl rfl
  | headerField =>
      rw [hs] at hready
      exact onward_headerField hs hready
  | headerValueDiscardWs => exact onward_headerValueDiscardWs
  | headerValueDiscardLws => exact onward_headerValueDiscardLws
  | headerValueStart => exact onward_headerValueStart rfl
  | headerValue =>
      rw [hs] at hready
      exact onward_headerValue hs hready h.length
  | headerValueLws => exact onward_headerValueLws
  | headerAlmostDone => exact onward_headerAlmostDone
  | chunkSizeStart => exact onward_chunkSizeStart
  | chunkSize => exact onward_chunkSize hs
  | chunkParameters => exact onward_chunkParameters
  | chunkSizeAlmostDone => exact onward_chunkSizeAlmostDone
  | headersAlmostDone => exact onward_headersAlmostDone rfl rfl
  | headersDone => exact onward_headersDone rfl rfl
  | chunkData => exact onward_chunkData hs
  | chunkDataAlmostDone => exact onward_chunkDataAlmostDone
  | chunkDataDone => exact onward_chunkDataDone
  | bodyIdentity => exact onward_bodyIdentity hs
  | messageDone => exact onward_delivered rfl rfl

/-- **A round goes forward**, whatever its state. -/
theorem byte_onward (h : Inv e) : (byte routed buffer e ch).Nexts (Onward e) := by
  unfold byte round
  simp only [nexts_ite, nexts_counting]
  exact ⟨fun _ _ => onward_switch h _, fun _ => onward_switch h e.nread⟩

end

/-! ## §4. The loop is a fold over the bytes. -/

section
variable (routed : HttpMethod → List Char → Bool) (buffer : Nat)

/-- The loop after a round, on what is behind the byte. -/
def Step.onto (s : Step) (rest : List Char) : Outcome :=
  match s with
  | .next e more => run routed buffer e more rest
  | .leave e => .left e rest.length
  | .failed _ deliveries => .failed deliveries
  | .aborted => .aborted

end

section
variable {routed : HttpMethod → List Char → Bool} {buffer : Nat} {e : Exec} {ch c : Char}
  {rest : List Char}

theorem run_cons :
    run routed buffer e 0 (ch :: rest)
      = (round routed buffer e ch rest).onto routed buffer rest := by
  unfold run Step.onto
  rfl

/-- The count of the header size, in front of the rest of the loop. -/
theorem counting_onto {n : Nat} {k : Exec → Step} :
    (e.counting n k).onto routed buffer rest =
      if maxHeaderSize < e.nread + n then .failed e.deliveries
      else (k { e with nread := e.nread + n }).onto routed buffer rest := by
  unfold Exec.counting
  split <;> rfl

theorem Marks.consume_append (m : Marks) (cs ds : List Char) :
    m.consume (cs ++ ds) = (m.consume cs).consume ds := by
  simp only [Marks.consume, Option.map_map, List.length_append, Function.comp_def,
    List.append_assoc, Nat.add_assoc]

/-- Counting one byte and then the others comes to the same as counting all of them. -/
theorem counted_twice {count n : Nat} {ds : List Delivery} {o o' : Outcome} (h : o = o') :
    (if maxHeaderSize < count + (n + 1) then .failed ds else o)
      = if maxHeaderSize < count + 1 then .failed ds
        else if maxHeaderSize < count + 1 + n then .failed ds else o' := by
  rw [h, Nat.add_assoc, Nat.add_comm 1 n]
  by_cases hover : maxHeaderSize < count + (n + 1)
  · simp [hover]
  · have hfirst : ¬ maxHeaderSize < count + 1 := by omega
    rw [if_neg hover, if_neg hfirst]

/-- The loop over a name when it runs to the end of the buffer. -/
theorem headerField_all {q : Parser} {n : Nat}
    (hloop : fieldLoop e.self.toParser (ch :: rest) = some (q, n))
    (hdrop : (ch :: rest).drop n = []) :
    headerField e ch rest =
      { e with self.toParser := q, marks := e.marks.consume ((ch :: rest).take n) : Exec }.counting
        (n - 1) (.next · (n - 1)) := by
  unfold headerField
  simp only [hloop, hdrop]

/-- The loop over a name when it ends before the buffer does. -/
theorem headerField_upto {q : Parser} {n : Nat} {stop : Char} {more : List Char}
    (hloop : fieldLoop e.self.toParser (ch :: rest) = some (q, n))
    (hdrop : (ch :: rest).drop n = stop :: more) :
    headerField e ch rest =
      { e with
        self.toParser := q, marks := e.marks.consume ((ch :: rest).take n) : Exec }.counting n
        fun e =>
          if stop = ':' then .next (flushHeaderField (e.pass.goto .headerValueDiscardWs)) n
          else e.fail .invalidHeaderToken := by
  unfold headerField
  simp only [hloop, hdrop]

/-- The loop over a name, with its first round on its own. -/
theorem headerField_peel {q : Parser} (htok : token ch = some c)
    (hq : fieldChar e.self.toParser c ch = some q) (hname : q.headerState.ofName = true)
    (next : Char) :
    (headerField e ch (next :: rest)).onto routed buffer (next :: rest)
      = ({ e with self.toParser := q, marks := e.marks.consume [ch] : Exec }.counting 1 fun e =>
          headerField e next rest).onto routed buffer rest := by
  obtain ⟨r, n, hloop, -⟩ := fieldLoop_spec hname (next :: rest)
  have hwhole : fieldLoop e.self.toParser (ch :: next :: rest) = some (r, n + 1) := by
    rw [fieldLoop, htok]
    simp [hq, hloop]
  have hmarks : e.marks.consume ((ch :: next :: rest).take (n + 1))
      = (e.marks.consume [ch]).consume ((next :: rest).take n) :=
    Marks.consume_append _ [ch] _
  have hmore : ∀ k : Nat, ({ e with
      self.toParser := q, marks := e.marks.consume [ch], nread := k } : Exec).self.toParser = q :=
    fun _ => rfl
  cases hdrop : (next :: rest).drop n with
  | nil =>
      have hpos : 0 < n := by
        rw [List.drop_eq_nil_iff, List.length_cons] at hdrop
        omega
      obtain ⟨m, rfl⟩ : ∃ m, n = m + 1 := ⟨n - 1, by omega⟩
      rw [headerField_all hwhole hdrop, hmarks, counting_onto, counting_onto,
        headerField_all (hmore _ ▸ hloop) hdrop, counting_onto]
      refine counted_twice ?_
      rw [Nat.add_right_comm e.nread 1]
      rfl
  | cons stop more =>
      rw [headerField_upto hwhole hdrop, hmarks, counting_onto, counting_onto,
        headerField_upto (hmore _ ▸ hloop) hdrop, counting_onto]
      refine counted_twice ?_
      rw [Nat.add_right_comm e.nread 1]
      dsimp only
      split <;> rfl

/-- The loop over a value when it runs to the end of the buffer. -/
theorem headerValue_all {q : Parser} {n : Nat}
    (hloop : valueLoop e.self.toParser (ch :: rest) = some (.ok (q, n)))
    (hdrop : (ch :: rest).drop n = []) :
    headerValue e ch rest =
      { e with self.toParser := q, marks := e.marks.consume ((ch :: rest).take n) : Exec }.counting
        (n - 1) (.next · (n - 1)) := by
  unfold headerValue
  simp only [hloop, hdrop]

/-- The loop over a value when it ends before the buffer does. -/
theorem headerValue_upto {q : Parser} {n : Nat} {stop : Char} {more : List Char}
    (hloop : valueLoop e.self.toParser (ch :: rest) = some (.ok (q, n)))
    (hdrop : (ch :: rest).drop n = stop :: more) :
    headerValue e ch rest =
      { e with
        self.toParser := q, marks := e.marks.consume ((ch :: rest).take n) : Exec }.counting n
        fun e =>
          let e := flushHeaderValue (e.pass.goto .headerAlmostDone)
          if stop = '\r' then .next e n else .next (e.goto .headerValueLws) n := by
  unfold headerValue
  simp only [hloop, hdrop]

theorem headerValue_failed {err : Errno}
    (hloop : valueLoop e.self.toParser (ch :: rest) = some (.error err)) :
    headerValue e ch rest = e.fail err := by
  unfold headerValue
  simp only [hloop]

/-- The loop over a value, with its first round on its own. -/
theorem headerValue_peel {q : Parser} (hend : ¬ (ch = '\r' ∨ ch = '\n'))
    (hc : isHeaderChar ch = true) (hq : valueChar e.self.toParser ch = some (.ok q))
    (hvalue : q.headerState.ofValue = true) (hlength : q.contentLength ≤ ullongMax)
    (next : Char) :
    (headerValue e ch (next :: rest)).onto routed buffer (next :: rest)
      = ({ e with self.toParser := q, marks := e.marks.consume [ch] : Exec }.counting 1 fun e =>
          headerValue e next rest).onto routed buffer rest := by
  obtain ⟨result, hloop, -⟩ := valueLoop_spec hvalue hlength (next :: rest)
  have hwhole : valueLoop e.self.toParser (ch :: next :: rest)
      = some (result.map fun r => (r.1, r.2 + 1)) := by
    rw [valueLoop, if_neg hend]
    simp [hc, hq, hloop]
  have hmore : ∀ k : Nat, ({ e with
      self.toParser := q, marks := e.marks.consume [ch], nread := k } : Exec).self.toParser = q :=
    fun _ => rfl
  cases result with
  | error err =>
      rw [headerValue_failed hwhole, counting_onto, headerValue_failed (hmore _ ▸ hloop)]
      split <;> rfl
  | ok result =>
      obtain ⟨r, n⟩ := result
      have hmarks : e.marks.consume ((ch :: next :: rest).take (n + 1))
          = (e.marks.consume [ch]).consume ((next :: rest).take n) :=
        Marks.consume_append _ [ch] _
      cases hdrop : (next :: rest).drop n with
      | nil =>
          have hpos : 0 < n := by
            rw [List.drop_eq_nil_iff, List.length_cons] at hdrop
            omega
          obtain ⟨m, rfl⟩ : ∃ m, n = m + 1 := ⟨n - 1, by omega⟩
          rw [headerValue_all hwhole hdrop, hmarks, counting_onto, counting_onto,
            headerValue_all (hmore _ ▸ hloop) hdrop, counting_onto]
          refine counted_twice ?_
          rw [Nat.add_right_comm e.nread 1]
          rfl
      | cons stop more =>
          rw [headerValue_upto hwhole hdrop, hmarks, counting_onto, counting_onto,
            headerValue_upto (hmore _ ▸ hloop) hdrop, counting_onto]
          refine counted_twice ?_
          rw [Nat.add_right_comm e.nread 1]
          dsimp only
          split <;> rfl

/-- A body is taken byte by byte. -/
theorem takeBody_cons (hmore : 1 < e.self.contentLength) (next : Char) :
    takeBody e ch (next :: rest)
      = ((takeBody (takeBody e ch []).1 next rest).1,
          (takeBody (takeBody e ch []).1 next rest).2 + 1) := by
  obtain ⟨c, hc⟩ : ∃ c, e.self.contentLength = c + 1 := ⟨e.self.contentLength - 1, by omega⟩
  have hfirst : takeBody e ch [] = ({ markBody e with
      self.contentLength := c, marks := (markBody e).marks.consume [ch] }, 1) := by
    have hone : min (c + 1) [ch].length = 1 := by
      rw [List.length_singleton]
      omega
    unfold takeBody
    simp only [hc, hone]
    rfl
  have hlen : min (c + 1) (ch :: next :: rest).length = min c (next :: rest).length + 1 := by
    rw [List.length_cons]
    omega
  have hmarks : (markBody e).marks.consume (ch :: (next :: rest).take (min c (next :: rest).length))
      = ((markBody e).marks.consume [ch]).consume
          ((next :: rest).take (min c (next :: rest).length)) :=
    Marks.consume_append _ [ch] _
  rw [hfirst]
  unfold takeBody
  simp only [hc, hlen, List.take_succ_cons, hmarks, Nat.add_sub_add_right]
  rfl

/-- The states that look at more than their byte. -/
def State.looksAhead : State → Bool
  | .headerField | .headerValueDiscardWs | .headerValueStart | .headerValue | .headerValueLws
  | .chunkData | .bodyIdentity => true
  | _ => false

/-- Where no inner loop looks ahead, a round sees its byte only. -/
theorem round_eq_byte (hs : e.self.state.looksAhead = false) :
    round routed buffer e ch rest = byte routed buffer e ch := by
  have hswitch : ∀ n, switch routed buffer { e with nread := n } ch rest
      = switch routed buffer { e with nread := n } ch [] := by
    intro n
    unfold switch
    cases hstate : e.self.state <;> rw [hstate] at hs <;> first | rfl | cases hs
  unfold byte round Exec.counting
  simp only [hswitch]

/-- Only the value of `Upgrade` is judged by the byte behind its first. -/
theorem valueStart_alone {p : Parser} (h : p.headerState ≠ .upgrade) :
    valueStart p ch rest = valueStart p ch [] := by
  unfold valueStart
  cases hs : p.headerState <;> first | rfl | exact absurd hs h

theorem headerValueStart_alone (h : e.self.headerState ≠ .upgrade) :
    headerValueStart e ch rest = headerValueStart e ch [] := by
  unfold headerValueStart
  simp only [valueStart_alone (p := { (markHeaderValue e).self.toParser with
    state := .headerValue, index := 0 }) h]

/-- At the end of the buffer the value of `Upgrade` is never h2. -/
theorem headerValueStart_upgrade (h : e.self.headerState = .upgrade) (ch : Char) :
    ∃ e', headerValueStart e ch [] = .next e' 0 ∧ e'.self.flags.upgrade = true := by
  have hstart : (markHeaderValue e).self.headerState = .upgrade := h
  unfold headerValueStart valueStart
  simp only [hstart]
  exact ⟨_, rfl, by simp⟩

/-- A blank in front of a value does not look at what is behind it. -/
theorem headerValueDiscardWs_alone
    (h : ∀ e' n, headerValueDiscardWs e ch [] = .next e' n → e'.self.flags.upgrade = false) :
    headerValueDiscardWs e ch rest = headerValueDiscardWs e ch [] := by
  unfold headerValueDiscardWs at h ⊢
  by_cases hspace : ch = ' ' ∨ ch = '\t'
  · simp only [if_pos hspace]
  by_cases hcr : ch = '\r'
  · simp only [if_neg hspace, if_pos hcr]
  by_cases hlf : ch = '\n'
  · simp only [if_neg hspace, if_neg hcr, if_pos hlf]
  simp only [if_neg hspace, if_neg hcr, if_neg hlf] at h ⊢
  by_cases hup : e.self.headerState = .upgrade
  · obtain ⟨e', hstep, hflag⟩ := headerValueStart_upgrade hup ch
    rw [h e' 0 hstep] at hflag
    cases hflag
  · exact headerValueStart_alone hup

/-- A value that goes on on the next line is read without a look at what is behind. -/
theorem headerValueLws_alone (h : e.self.headerState.ofValue = true) :
    headerValueLws e ch rest = headerValueLws e ch [] := by
  unfold headerValueLws
  split
  · refine headerValueStart_alone fun hup => ?_
    dsimp only at hup
    split at hup
    · cases hup
    · rw [hup] at h
      cases h
  · rfl

theorem round_header (hs : e.self.state.parsingHeader = true) :
    round routed buffer e ch rest = e.counting 1 fun e => switch routed buffer e ch rest :=
  if_pos hs

theorem round_body (hs : e.self.state.parsingHeader = false) :
    round routed buffer e ch rest = switch routed buffer e ch rest := by
  unfold round
  rw [if_neg (by rw [hs]; decide)]

theorem counting_congr {n : Nat} {k k' : Exec → Step}
    (h : ∀ m, k { e with nread := m } = k' { e with nread := m }) :
    e.counting n k = e.counting n k' := by
  unfold Exec.counting
  rw [h]

/-- The round in a state of the header. -/
theorem round_in {s : State} (hs : e.self.state = s) (hheader : s.parsingHeader = true)
    {k : Exec → Step} (hk : ∀ e', e'.self.state = s → switch routed buffer e' ch rest = k e') :
    round routed buffer e ch rest = e.counting 1 k := by
  rw [round_header (by rw [hs]; exact hheader)]
  exact counting_congr fun m => hk _ hs

/-- The round in a name. -/
theorem round_headerField (hs : e.self.state = .headerField) :
    round routed buffer e ch rest = e.counting 1 fun e => headerField e ch rest :=
  round_in hs rfl fun e' hs' => by simp only [switch, hs']

/-- The round in a value. -/
theorem round_headerValue (hs : e.self.state = .headerValue) :
    round routed buffer e ch rest = e.counting 1 fun e => headerValue e ch rest :=
  round_in hs rfl fun e' hs' => by simp only [switch, hs']

/-- The round in front of a value. -/
theorem round_headerValueDiscardWs (hs : e.self.state = .headerValueDiscardWs) :
    round routed buffer e ch rest = e.counting 1 fun e => headerValueDiscardWs e ch rest :=
  round_in hs rfl fun e' hs' => by simp only [switch, hs']

/-- The round behind the line of a value. -/
theorem round_headerValueLws (hs : e.self.state = .headerValueLws) :
    round routed buffer e ch rest = e.counting 1 fun e => headerValueLws e ch rest :=
  round_in hs rfl fun e' hs' => by simp only [switch, hs']

/-- **Within a name**, the inner loop is a fold over its bytes. -/
theorem run_headerField (hs : e.self.state = .headerField)
    (hname : e.self.headerState.ofName = true) (next : Char) :
    run routed buffer e 0 (ch :: next :: rest)
      = (byte routed buffer e ch).onto routed buffer (next :: rest) := by
  rw [run_cons, byte, round_headerField hs, round_headerField hs, counting_onto, counting_onto]
  split
  · rfl
  · rename_i hover
    obtain htok | ⟨c, q, htok, hq, hqname, hqs⟩ := headerField_cases hname ch
    · rw [headerField_stop htok, headerField_stop htok]
    · rw [headerField_peel (e := { e with nread := e.nread + 1 }) htok hq hqname,
        headerField_token (e := { e with nread := e.nread + 1 }) htok hq,
        counting_onto (n := 0), if_neg hover]
      exact (run_cons.trans (congrArg (Step.onto routed buffer · rest)
        (round_headerField (hqs.trans hs)))).symm

/-- **Within a value**, so it is. -/
theorem run_headerValue (hs : e.self.state = .headerValue)
    (hvalue : e.self.headerState.ofValue = true) (hlength : e.self.contentLength ≤ ullongMax)
    (next : Char) :
    run routed buffer e 0 (ch :: next :: rest)
      = (byte routed buffer e ch).onto routed buffer (next :: rest) := by
  rw [run_cons, byte, round_headerValue hs, round_headerValue hs, counting_onto, counting_onto]
  split
  · rfl
  · rename_i hover
    obtain hend | ⟨hend, hc⟩ | ⟨err, hend, hc, herr⟩ | ⟨q, hend, hc, hq, hqvalue, hqs, hqlength⟩ :=
      headerValue_cases hvalue hlength ch
    · rw [headerValue_stop hend, headerValue_stop hend]
    · rw [headerValue_control hend hc, headerValue_control hend hc]
    · rw [headerValue_error (e := { e with nread := e.nread + 1 }) hend hc herr,
        headerValue_error (e := { e with nread := e.nread + 1 }) hend hc herr]
    · rw [headerValue_peel (e := { e with nread := e.nread + 1 }) hend hc hq hqvalue hqlength,
        headerValue_char (e := { e with nread := e.nread + 1 }) hend hc hq,
        counting_onto (n := 0), if_neg hover]
      exact (run_cons.trans (congrArg (Step.onto routed buffer · rest)
        (round_headerValue (hqs.trans hs)))).symm

/-- The last byte of a body is taken alone. -/
theorem takeBody_last (h : e.self.contentLength = 1) : takeBody e ch rest = takeBody e ch [] := by
  have hone : min 1 (ch :: rest).length = 1 := by
    rw [List.length_cons]
    omega
  unfold takeBody
  simp only [h, hone]
  rfl

theorem takeBody_pos (h : 0 < e.self.contentLength) : 0 < (takeBody e ch rest).2 := by
  show 0 < min e.self.contentLength (ch :: rest).length
  rw [List.length_cons]
  omega

/-- The round in a body, where `done` is what becomes of it when nothing is missing:
    the other bytes may as well be taken in their own rounds. -/
theorem run_takeBody (done : Exec → Exec) (hdone : ∀ e, e.self.contentLength ≠ 0 → done e = e)
    (hround : ∀ e' : Exec, e'.self.state = e.self.state → e'.self.flags = e.self.flags →
      Counted e'.self.toParser → ∀ ch rest, round routed buffer e' ch rest
        = .next (done (takeBody e' ch rest).1) ((takeBody e' ch rest).2 - 1))
    (hcounted : Counted e.self.toParser) (next : Char) :
    run routed buffer e 0 (ch :: next :: rest)
      = (byte routed buffer e ch).onto routed buffer (next :: rest) := by
  rw [run_cons, byte, hround e rfl rfl hcounted, hround e rfl rfl hcounted]
  obtain hone | hmore := Nat.lt_or_ge 1 e.self.contentLength |>.symm
  · have hlast : e.self.contentLength = 1 := Nat.le_antisymm hone hcounted.1
    rw [takeBody_last hlast]
  · have hlength : (takeBody e ch []).1.self.contentLength = e.self.contentLength - 1 := by
      show e.self.contentLength - min e.self.contentLength 1 = _
      omega
    have hleft : Counted (takeBody e ch []).1.self.toParser := by
      have hbound := hcounted.2
      exact ⟨by omega, by omega⟩
    have hone : (takeBody e ch []).2 = 1 := by
      show min e.self.contentLength 1 = 1
      omega
    have hpos : 0 < (takeBody (takeBody e ch []).1 next rest).2 := takeBody_pos hleft.1
    obtain ⟨n, hn⟩ : ∃ n, (takeBody (takeBody e ch []).1 next rest).2 = n + 1 :=
      ⟨_, (Nat.succ_pred_eq_of_pos hpos).symm⟩
    rw [takeBody_cons hmore, hone, hdone _ (Nat.pos_iff_ne_zero.mp hleft.1)]
    show run routed buffer _ _ _ = run routed buffer _ 0 (next :: rest)
    rw [run_cons, hround (takeBody e ch []).1 rfl rfl hleft, hn]
    rfl

/-- **Within a counted body**, the copy at once is a fold over its bytes. -/
theorem run_bodyIdentity (hs : e.self.state = .bodyIdentity) (hcounted : Counted e.self.toParser)
    (next : Char) :
    run routed buffer e 0 (ch :: next :: rest)
      = (byte routed buffer e ch).onto routed buffer (next :: rest) := by
  refine run_takeBody
    (fun e =>
      if e.self.contentLength = 0 then messageComplete (flushBody (e.goto .messageDone)) else e)
    (fun e hlength => if_neg hlength) (fun e' hs' _ hcounted' ch rest => ?_) hcounted next
  rw [round_body (by rw [hs', hs]; rfl)]
  unfold switch
  simp only [hs', hs, bodyIdentity, Exec.assert, lengthKnown_of_counted hcounted', if_true]
  split <;> rfl

/-- **Within a chunk**, so it is. -/
theorem run_chunkData (hs : e.self.state = .chunkData) (hchunked : e.self.flags.chunked = true)
    (hcounted : Counted e.self.toParser) (next : Char) :
    run routed buffer e 0 (ch :: next :: rest)
      = (byte routed buffer e ch).onto routed buffer (next :: rest) := by
  refine run_takeBody
    (fun e => if e.self.contentLength = 0 then e.goto .chunkDataAlmostDone else e)
    (fun e hlength => if_neg hlength) (fun e' hs' hflags hcounted' ch rest => ?_) hcounted next
  rw [round_body (by rw [hs', hs]; rfl)]
  unfold switch
  simp only [hs', hs, chunkData, Exec.assert, hflags, hchunked, lengthKnown_of_counted hcounted',
    Bool.and_self, if_true]

/-- **The loop takes one byte after the other**, unless it would look behind a byte that
    begins the value of `Upgrade`. -/
theorem run_byte (h : Inv e)
    (hup : ∀ e' n, byte routed buffer e ch = .next e' n → rest ≠ [] →
      e'.self.flags.upgrade = false) :
    run routed buffer e 0 (ch :: rest) = (byte routed buffer e ch).onto routed buffer rest := by
  cases rest with
  | nil => exact run_cons
  | cons next rest =>
      have hready := h.ready
      by_cases hlooks : e.self.state.looksAhead = false
      · rw [run_cons, round_eq_byte hlooks]
      · cases hs : e.self.state with
        | headerField =>
            rw [hs] at hready
            exact run_headerField hs hready next
        | headerValue =>
            rw [hs] at hready
            exact run_headerValue hs hready h.length next
        | bodyIdentity =>
            rw [hs] at hready
            exact run_bodyIdentity hs hready next
        | chunkData =>
            rw [hs] at hready
            exact run_chunkData hs hready.1 hready.2 next
        | headerValueStart =>
            rw [hs] at hready
            exact hready.elim
        | headerValueLws =>
            rw [hs] at hready
            rw [run_cons, byte, round_headerValueLws hs, round_headerValueLws hs]
            refine congrArg (Step.onto routed buffer · (next :: rest)) (counting_congr fun m => ?_)
            exact headerValueLws_alone hready
        | headerValueDiscardWs =>
            rw [run_cons, byte, round_headerValueDiscardWs hs, round_headerValueDiscardWs hs]
            rw [byte, round_headerValueDiscardWs hs] at hup
            rw [counting_onto, counting_onto]
            split
            · rfl
            · rename_i hover
              rw [Exec.counting, if_neg hover] at hup
              rw [headerValueDiscardWs_alone fun e' n hstep => hup e' n hstep (by simp)]
        | _ =>
            rw [hs] at hlooks
            exact absurd rfl hlooks

/-- The loop on a buffer is a fold over its bytes, as long as `F_UPGRADE` is not set by
    a byte that is not the last. -/
theorem run_eq_bytes (data : List Char) (h : Inv e) (hnul : '\x00' ∉ data)
    (hup : ∀ front back, data = front ++ back → back ≠ [] → ∀ e',
      bytes routed buffer e front = .ended e' → e'.self.flags.upgrade = false) :
    run routed buffer e 0 data = bytes routed buffer e data := by
  induction data generalizing e with
  | nil => rfl
  | cons ch rest ih =>
      have hne : ch ≠ '\x00' := fun heq => hnul (heq ▸ List.mem_cons_self)
      have hrest : '\x00' ∉ rest := fun hmem => hnul (List.mem_cons_of_mem _ hmem)
      have hinv : (byte routed buffer e ch).All Inv Delivered := inv_round h fun _ => hne
      have honward : (byte routed buffer e ch).Nexts (Onward e) := byte_onward h
      rw [run_byte h fun e' n hstep hmore => hup [ch] rest rfl hmore e' (by simp [bytes, hstep])]
      unfold bytes
      cases hstep : byte routed buffer e ch with
      | next e' n =>
          rw [hstep] at hinv honward
          rw [honward.1]
          refine ih hinv hrest fun front back hdata hback e'' hend => ?_
          exact hup (ch :: front) back (by rw [hdata]; rfl) hback e'' (by simp [bytes, hstep, hend])
      | leave e' => rfl
      | failed err ds => rfl
      | aborted => rfl

/-- One byte, and the rest. -/
theorem bytes_cons :
    bytes routed buffer e (ch :: rest) =
      match byte routed buffer e ch with
      | .next e' _ => bytes routed buffer e' rest
      | .leave e' => .left e' rest.length
      | .failed _ ds => .failed ds
      | .aborted => .aborted := rfl

/-- What comes first, and what comes behind it. -/
theorem bytes_append (front back : List Char) :
    bytes routed buffer e (front ++ back) =
      match bytes routed buffer e front with
      | .ended e' => bytes routed buffer e' back
      | .left e' unread => .left e' (unread + back.length)
      | .failed ds => .failed ds
      | .aborted => .aborted := by
  induction front generalizing e with
  | nil => rfl
  | cons ch front ih =>
      rw [List.cons_append, bytes_cons, bytes_cons]
      cases hstep : byte routed buffer e ch with
      | next e' n => exact ih
      | leave e' => simp
      | failed err ds => rfl
      | aborted => rfl

end

end OrderApi.Crow.HttpParser
