/-
  OrderApi.Crow.HttpInvariant
  ───────────────────────────
  **WHAT HOLDS OF THE PARSER AT EVERY BYTE.**

  Bytes come from anybody.  Whatever they are and however they are cut into reads,

    • no assertion of `http_parser_execute` fails,
    • the header that is being read stays within `CROW_HTTP_MAX_HEADER_SIZE`, and
    • what the connection is handed has a URL of visible ASCII characters, names that
      are tokens, and values without line ends.

  The invariant has three parts.  `FitAt` says which mark is set in which state,
  `ReadyAt` what the assertions of a state rely on, `Clean` what the texts that have
  been collected consist of.
-/
import OrderApi.Crow.HttpParser
import OrderApi.Crow.JsonLoad

namespace OrderApi.Crow.HttpParser

/-! ## §1. What a round leads to. -/

/-- A state without a mark. -/
def State.plain : State → Bool
  | .headerField | .headerValue | .bodyIdentity | .chunkData | .chunkDataAlmostDone => false
  | s => !s.inUrl

/-- `P` holds of where the loop goes on and of where it leaves, with the number of
    bytes stored and no mark, `D` of what has been delivered by the end, and no assertion
    fails. -/
def Step.All (P : Exec → Prop) (D : List Delivery → Prop) : Step → Prop
  | .next e _ => P e
  | .leave e => P e ∧ e.self.nread = e.nread ∧ e.self.state.plain = true
  | .failed _ ds => D ds
  | .aborted => False

section
variable {P : Exec → Prop} {D : List Delivery → Prop} {e : Exec} {ch c : Char} {k : Step}

@[simp] theorem all_next {n : Nat} : (Step.next e n).All P D ↔ P e := Iff.rfl

@[simp] theorem all_leave :
    (Step.leave e).All P D ↔ P e ∧ e.self.nread = e.nread ∧ e.self.state.plain = true := Iff.rfl

@[simp] theorem all_failed {err : Errno} {ds : List Delivery} :
    (Step.failed err ds).All P D ↔ D ds := Iff.rfl

@[simp] theorem all_advance :
    (e.advance ch).All P D ↔ P { e with marks := e.marks.consume [ch] } := Iff.rfl

@[simp] theorem all_fail {err : Errno} : (e.fail err).All P D ↔ D e.deliveries := Iff.rfl

@[simp] theorem all_strict :
    (e.strict ch c k).All P D ↔ (ch = c → k.All P D) ∧ (ch ≠ c → D e.deliveries) := by
  unfold Exec.strict
  by_cases h : ch = c <;> simp [h]

@[simp] theorem all_assert {b : Bool} : (Exec.assert b k).All P D ↔ b = true ∧ k.All P D := by
  cases b <;> simp [Exec.assert, Step.All]

/-- `COUNT_HEADER_SIZE` fails as soon as the header is too long; behind it the counter is within the
    limit. -/
@[simp] theorem all_counting {n : Nat} {f : Exec → Step} :
    (e.counting n f).All P D ↔
      (e.nread + n ≤ maxHeaderSize → (f { e with nread := e.nread + n }).All P D)
        ∧ (maxHeaderSize < e.nread + n → D e.deliveries) := by
  unfold Exec.counting
  by_cases h : maxHeaderSize < e.nread + n
  · simp [h, Nat.not_le_of_lt h]
  · simp [h, Nat.le_of_not_lt h]

@[simp] theorem all_ite {p : Prop} [Decidable p] {s t : Step} :
    (if p then s else t).All P D ↔ (p → s.All P D) ∧ (¬ p → t.All P D) := by
  by_cases h : p <;> simp [h]

end

/-! ## §2. Marks. -/

namespace Marks

/-- No mark is set. -/
def Bare (m : Marks) : Prop :=
  m.headerField = none ∧ m.headerValue = none ∧ m.url = none ∧ m.body = none

/-- Only the mark of a name is set. -/
def OnField (m : Marks) : Prop :=
  m.headerField.isSome = true ∧ m.headerValue = none ∧ m.url = none ∧ m.body = none

/-- Only the mark of a value is set. -/
def OnValue (m : Marks) : Prop :=
  m.headerField = none ∧ m.headerValue.isSome = true ∧ m.url = none ∧ m.body = none

/-- Only the mark of a URL is set. -/
def OnUrl (m : Marks) : Prop :=
  m.headerField = none ∧ m.headerValue = none ∧ m.url.isSome = true ∧ m.body = none

/-- No mark is set but perhaps that of a body. -/
def OnBody (m : Marks) : Prop := m.headerField = none ∧ m.headerValue = none ∧ m.url = none

variable {m : Marks} {cs : List Char}

@[simp] theorem bare_consume : (m.consume cs).Bare ↔ m.Bare := by simp [Bare, consume]

@[simp] theorem onField_consume : (m.consume cs).OnField ↔ m.OnField := by simp [OnField, consume]

@[simp] theorem onValue_consume : (m.consume cs).OnValue ↔ m.OnValue := by simp [OnValue, consume]

@[simp] theorem onUrl_consume : (m.consume cs).OnUrl ↔ m.OnUrl := by simp [OnUrl, consume]

@[simp] theorem onBody_consume : (m.consume cs).OnBody ↔ m.OnBody := by simp [OnBody, consume]

end Marks

/-- Only the mark that belongs to the state is set. -/
def FitAt (m : Marks) : State → Prop
  | .headerField => m.OnField
  | .headerValue => m.OnValue
  | .bodyIdentity | .chunkData | .chunkDataAlmostDone => m.OnBody
  | s => if s.inUrl then m.OnUrl else m.Bare

/-! ## §3. What the assertions rely on. -/

/-- A state of the matcher over names. -/
def HeaderState.ofName : HeaderState → Bool
  | .general | .c | .co | .con | .matchingConnection | .matchingProxyConnection
  | .matchingContentLength | .matchingTransferEncoding | .matchingUpgrade
  | .connection | .contentLength | .transferEncoding | .upgrade => true
  | _ => false

/-- A state of the matcher over values. -/
def HeaderState.ofValue : HeaderState → Bool
  | .general | .contentLengthNum | .contentLengthWs | .matchingTransferEncodingTokenStart
  | .matchingTransferEncodingChunked | .matchingTransferEncodingToken
  | .matchingConnectionKeepAlive | .matchingConnectionClose
  | .transferEncodingChunked | .connectionKeepAlive | .connectionClose => true
  | _ => false

/-- There is a number of bytes to read. -/
def Counted (p : Parser) : Prop := 0 < p.contentLength ∧ p.contentLength < ullongMax

/-- What the assertions in a state ask for. -/
def ReadyAt (p : Parser) (nread : Nat) : State → Prop
  | .headerField | .headerValueDiscardWs | .headerValueDiscardWsAlmostDone
  | .headerValueDiscardLws => p.headerState.ofName = true
  | .headerValue | .headerAlmostDone | .headerValueLws => p.headerState.ofValue = true
  -- only ever passed through
  | .headerValueStart => False
  | .chunkSizeStart => p.flags.chunked = true ∧ nread = 0
  | .chunkSize | .chunkParameters | .chunkSizeAlmostDone =>
      p.flags.chunked = true ∧ p.contentLength ≠ ullongMax
  | .chunkData => p.flags.chunked = true ∧ Counted p
  | .chunkDataAlmostDone => p.flags.chunked = true ∧ p.contentLength = 0
  | .chunkDataDone => p.flags.chunked = true
  | .bodyIdentity => Counted p
  | _ => True

/-! ## §4. Texts. -/

/-- Visible ASCII characters, and no `#`. -/
def UrlText (cs : List Char) : Prop := ∀ c ∈ cs, 32 < c.toNat ∧ c.toNat < 127 ∧ c ≠ '#'

/-- The characters of a name. -/
def NameText (cs : List Char) : Prop := ∀ c ∈ cs, (token c).isSome = true

/-- No line ends. -/
def ValueText (cs : List Char) : Prop := ∀ c ∈ cs, c ≠ '\r' ∧ c ≠ '\n'

/-- What a request is made of. -/
structure WellFormed (req : RawRequest) : Prop where
  rawUrl : UrlText req.rawUrl
  url : UrlText req.url
  names : ∀ f ∈ req.headers, NameText f.1
  values : ∀ f ∈ req.headers, ValueText f.2

/-- What the texts that have been collected are made of. -/
structure Clean (req : RawRequest) (field value : List Char) (m : Marks) : Prop where
  req : WellFormed req
  field : NameText field
  value : ValueText value
  markUrl : UrlText (m.url.getD [])
  markField : NameText (m.headerField.getD [])
  markValue : ValueText (m.headerValue.getD [])

/-- Every request that has been delivered is well formed. -/
def Delivered (ds : List Delivery) : Prop :=
  ∀ req, (.handled req ∈ ds ∨ .unrouted req ∈ ds) → WellFormed req

/-- **The invariant of the loop.** -/
structure Inv (e : Exec) : Prop where
  fit : FitAt e.marks e.self.state
  ready : ReadyAt e.self.toParser e.nread e.self.state
  size : e.nread ≤ maxHeaderSize
  length : e.self.contentLength ≤ ullongMax
  clean : Clean e.self.req e.self.headerField e.self.headerValue e.marks
  delivered : Delivered e.deliveries

/-! ## §5. Rounds that only change the state. -/

/-- What a round keeps whatever the state is; `M` says which marks are set. -/
structure Holding (M : Marks → Prop) (e : Exec) : Prop where
  marks : M e.marks
  size : e.nread ≤ maxHeaderSize
  length : e.self.contentLength ≤ ullongMax
  clean : Clean e.self.req e.self.headerField e.self.headerValue e.marks
  delivered : Delivered e.deliveries

/-- Nothing is held by a mark. -/
abbrev Open (e : Exec) : Prop := Holding Marks.Bare e

section
variable {M : Marks → Prop} {e : Exec}

/-- The parser may change as it likes. -/
theorem Holding.parser (h : Holding M e) (p : Parser) (hp : p.contentLength ≤ ullongMax) :
    Holding M { e with self.toParser := p } :=
  ⟨h.marks, h.size, hp, h.clean, h.delivered⟩

theorem Holding.recount (h : Holding M e) {n : Nat} (hn : n ≤ maxHeaderSize) :
    Holding M { e with nread := n } :=
  ⟨h.marks, hn, h.length, h.clean, h.delivered⟩

theorem Clean.passed {req : RawRequest} {field value : List Char} {m : Marks}
    (h : Clean req field value m) (u : Option Nat) :
    Clean req field value { m with urlStart := u } :=
  ⟨h.req, h.field, h.value, h.markUrl, h.markField, h.markValue⟩

/-- More of what a mark may hold. -/
theorem Clean.consume {req : RawRequest} {field value : List Char} {m : Marks}
    (h : Clean req field value m) {cs : List Char} (hurl : m.url = none ∨ UrlText cs)
    (hfield : m.headerField = none ∨ NameText cs) (hvalue : m.headerValue = none ∨ ValueText cs) :
    Clean req field value (m.consume cs) := by
  have hmore : ∀ {P : Char → Prop} {mark : Option (List Char)}, (∀ c ∈ mark.getD [], P c) →
      (mark = none ∨ ∀ c ∈ cs, P c) → ∀ c ∈ (mark.map (· ++ cs)).getD [], P c := by
    intro P mark hmark hcs
    cases mark with
    | none => simp
    | some text =>
        have hcs := hcs.resolve_left (by simp)
        exact List.forall_mem_append.mpr ⟨hmark, hcs⟩
  exact ⟨h.req, h.field, h.value, hmore h.markUrl hurl, hmore h.markField hfield,
    hmore h.markValue hvalue⟩

end

section
variable {e : Exec} {s : State} {ch : Char}

theorem fitAt_plain {m : Marks} (h : s.plain = true) : FitAt m s ↔ m.Bare := by
  cases s <;> first | rfl | cases h

theorem Inv.opened (h : Inv e) (hs : e.self.state.plain = true) : Open e :=
  ⟨(fitAt_plain hs).mp h.fit, h.size, h.length, h.clean, h.delivered⟩

theorem Open.consumed (h : Open e) (cs : List Char) :
    Open { e with marks := e.marks.consume cs } := by
  obtain ⟨hfield, hvalue, hurl, hbody⟩ := h.marks
  exact ⟨Marks.bare_consume.mpr h.marks, h.size, h.length,
    h.clean.consume (.inl hurl) (.inl hfield) (.inl hvalue), h.delivered⟩

/-- On to a state without a mark. -/
theorem Open.inv (h : Open e) (hs : e.self.state.plain = true)
    (hready : ReadyAt e.self.toParser e.nread e.self.state) : Inv e :=
  ⟨(fitAt_plain hs).mpr h.marks, hready, h.size, h.length, h.clean, h.delivered⟩

theorem Open.advance (h : Open e) (hs : e.self.state.plain = true)
    (hready : ReadyAt e.self.toParser e.nread e.self.state) :
    (e.advance ch).All Inv Delivered :=
  (h.consumed [ch]).inv hs hready

theorem Open.goto (h : Open e) (hs : s.plain = true) (hready : ReadyAt e.self.toParser e.nread s) :
    ((e.goto s).advance ch).All Inv Delivered := by
  refine Open.advance (e := e.goto s) (h.parser _ (by exact h.length)) hs ?_
  cases s <;> exact hready

end

section
variable {e : Exec} {ch : Char} (h : Open e)
include h

/-- The first byte of a request: a line end, or a letter that a method begins with. -/
theorem inv_startReq (hs : e.self.state = .startReq) : (startReq e ch).All Inv Delivered := by
  have hstay : (e.advance ch).All Inv Delivered := h.advance (by rw [hs]; rfl) (by rw [hs]; trivial)
  unfold startReq
  simp only [all_ite, all_fail]
  refine ⟨fun _ => hstay, fun _ => ⟨fun _ => h.delivered, fun _ => ?_⟩⟩
  cases firstMethod ch with
  | none => exact h.delivered
  | some m => exact Open.advance (h.parser _ (Nat.le_refl ullongMax)) rfl trivial

/-- A byte of the method is passed over. -/
theorem inv_methodRead (hs : e.self.state.plain = true)
    (hready : ReadyAt e.self.toParser e.nread e.self.state) :
    (methodRead e ch).All Inv Delivered := by
  have hclean := h.clean
  have hopen : Open { e with
      self.req.method := e.self.method, self.index := e.self.index + 1 } :=
    ⟨h.marks, h.size, h.length,
      ⟨⟨hclean.req.rawUrl, hclean.req.url, hclean.req.names, hclean.req.values⟩, hclean.field,
        hclean.value, hclean.markUrl, hclean.markField, hclean.markValue⟩, h.delivered⟩
  refine hopen.advance hs ?_
  cases hstate : e.self.state <;> simp [hstate, ReadyAt, Counted] at hready ⊢ <;> exact hready

/-- The letters of the method: the second one still picks among those with the same first one. -/
theorem inv_reqMethod (hs : e.self.state = .reqMethod) : (reqMethod e ch).All Inv Delivered := by
  have hread : ∀ p : Parser, (p.state = .reqMethod ∨ p.state = .reqSpacesBeforeUrl) →
      p.contentLength = e.self.contentLength →
      (methodRead { e with self.toParser := p } ch).All Inv Delivered := by
    rintro p hp hlength
    have hopen := h.parser p (hlength ▸ h.length)
    obtain hp | hp := hp
    · exact inv_methodRead hopen (by simp [hp, State.plain, State.inUrl]) (by simp [hp, ReadyAt])
    · exact inv_methodRead hopen (by simp [hp, State.plain, State.inUrl]) (by simp [hp, ReadyAt])
  unfold reqMethod
  simp only [all_ite, all_fail]
  refine ⟨fun _ => h.delivered, fun _ => ⟨fun _ => hread _ (.inr rfl) rfl, fun _ =>
    ⟨fun _ => hread e.self.toParser (.inl hs) rfl, fun _ => ⟨fun _ => ?_, fun _ => h.delivered⟩⟩⟩⟩
  cases otherMethod e.self.method e.self.index ch with
  | none => exact h.delivered
  | some m => exact hread { e.self.toParser with method := m } (.inl hs) rfl

/-- Behind the URL comes the `H` of the version. -/
theorem inv_reqHttpStart (hs : e.self.state = .reqHttpStart) :
    (reqHttpStart e ch).All Inv Delivered := by
  unfold reqHttpStart
  simp only [all_ite, all_fail]
  refine ⟨fun _ => h.advance (by rw [hs]; rfl) (by rw [hs]; trivial), fun _ => ⟨fun _ => ?_,
    fun _ => ⟨fun _ => ?_, fun _ => h.delivered⟩⟩⟩
  · exact h.goto rfl trivial
  · exact h.goto rfl trivial

/-- The letters of `HTTP` are told apart one by one. -/
theorem inv_versionLetter {c : Char} {s : State} (hs : s.plain = true)
    (hready : ReadyAt e.self.toParser e.nread s) :
    (versionLetter c s e ch).All Inv Delivered := by
  unfold versionLetter
  simp only [all_strict]
  exact ⟨fun _ => h.goto hs hready, fun _ => h.delivered⟩

theorem inv_reqHttpMajor : (reqHttpMajor e ch).All Inv Delivered := by
  unfold reqHttpMajor
  simp only [all_ite, all_fail]
  exact ⟨fun _ => h.delivered, fun _ => Open.advance (h.parser _ (by exact h.length)) rfl trivial⟩

theorem inv_reqHttpDot : (reqHttpDot e ch).All Inv Delivered := by
  unfold reqHttpDot
  simp only [all_ite, all_fail]
  exact ⟨fun _ => h.delivered, fun _ => h.goto rfl trivial⟩

theorem inv_reqHttpMinor : (reqHttpMinor e ch).All Inv Delivered := by
  unfold reqHttpMinor
  simp only [all_ite, all_fail]
  exact ⟨fun _ => h.delivered, fun _ => Open.advance (h.parser _ (by exact h.length)) rfl trivial⟩

theorem inv_reqHttpEnd : (reqHttpEnd e ch).All Inv Delivered := by
  unfold reqHttpEnd
  simp only [all_ite, all_fail]
  exact ⟨fun _ => h.goto rfl trivial, fun _ => ⟨fun _ => h.goto rfl trivial, fun _ => h.delivered⟩⟩

theorem inv_reqLineAlmostDone : (reqLineAlmostDone e ch).All Inv Delivered := by
  unfold reqLineAlmostDone
  simp only [all_ite, all_fail]
  exact ⟨fun _ => h.delivered, fun _ => h.goto rfl trivial⟩

end

/-! ## §6. URLs. -/

/-- A character of a URL. -/
def UrlByte (c : Char) : Prop := 32 < c.toNat ∧ c.toNat < 127 ∧ c ≠ '#'

instance (c : Char) : Decidable (UrlByte c) := inferInstanceAs (Decidable (_ ∧ _ ∧ _))

/-- `Char.ofNat` has the code it is given, or 0 if that is not one of a character. -/
theorem toNat_ofNat_or (n : Nat) : (Char.ofNat n).toNat = n ∨ (Char.ofNat n).toNat = 0 := by
  unfold Char.ofNat
  by_cases h : n.isValidChar
  · rw [dif_pos h]
    exact .inl rfl
  · rw [dif_neg h]
    exact .inr rfl

/-- Letters have codes between those of `@` and of an open brace. -/
theorem toNat_of_isAlpha {c : Char} (h : isAlpha c = true) : 64 < c.toNat ∧ c.toNat < 123 := by
  unfold isAlpha lower at h
  simp only [Bool.and_eq_true, decide_eq_true_eq, char_le_iff] at h
  obtain ⟨hlow, hhigh⟩ := h
  have ha : 'a'.toNat = 97 := rfl
  have hz : 'z'.toNat = 122 := rfl
  have hle : c.toNat ≤ c.toNat ||| 0x20 := Nat.left_le_or
  have hsmall : c.toNat ≤ 64 → c.toNat ||| 0x20 ≤ 96 := by
    intro hc
    obtain hlt | heq := Nat.lt_or_eq_of_le hc
    · have hor := Nat.or_lt_two_pow (n := 6) hlt (by decide : 0x20 < 2 ^ 6)
      omega
    · rw [heq]
      decide
  obtain hn | hn := toNat_ofNat_or (c.toNat ||| 0x20)
  · omega
  · omega

/-- Letters may be part of a URL. -/
theorem urlByte_of_isAlpha {c : Char} (h : isAlpha c = true) : UrlByte c := by
  obtain ⟨hlow, hhigh⟩ := toNat_of_isAlpha h
  refine ⟨by omega, by omega, ?_⟩
  rintro rfl
  exact absurd hlow (by decide)

/-- So may digits. -/
theorem urlByte_of_isNum {c : Char} (h : isNum c = true) : UrlByte c := by
  unfold isNum at h
  simp only [Bool.and_eq_true, decide_eq_true_eq, char_le_iff] at h
  have h0 : '0'.toNat = 48 := rfl
  have h9 : '9'.toNat = 57 := rfl
  refine ⟨by omega, by omega, ?_⟩
  rintro rfl
  exact absurd h.1 (by decide)

/-- So may what a user name is made of. -/
theorem urlByte_of_isUserinfoChar {c : Char} (h : isUserinfoChar c = true) : UrlByte c := by
  have hmarks : ∀ c ∈ ['-', '_', '.', '!', '~', '*', '\'', '(', ')'], UrlByte c := by
    simp [UrlByte]
  have hothers : ∀ c ∈ ['%', ';', ':', '&', '=', '+', '$', ','], UrlByte c := by
    simp [UrlByte]
  unfold isUserinfoChar isMark at h
  simp only [Bool.or_eq_true, decide_eq_true_eq] at h
  obtain ((halpha | hnum) | hmark) | hother := h
  · exact urlByte_of_isAlpha halpha
  · exact urlByte_of_isNum hnum
  · exact hmarks c hmark
  · exact hothers c hother

theorem urlByte_of_isUrlChar {c : Char} (h : isUrlChar c = true) : UrlByte c := by
  unfold isUrlChar at h
  simp only [Bool.and_eq_true, decide_eq_true_eq, ne_eq] at h
  exact ⟨h.1.1.1, h.1.1.2, h.1.2⟩

/-- Where a character of a URL may lead. -/
def UrlStep (ch : Char) (s : State) : Prop := s = .dead ∨ (s.inUrl = true ∧ UrlByte ch)

theorem UrlStep.ite {ch : Char} {p : Prop} [Decidable p] {s t : State} (hs : p → UrlStep ch s)
    (ht : UrlStep ch t) : UrlStep ch (if p then s else t) := by
  split
  · exact hs ‹_›
  · exact ht

theorem UrlStep.char {ch c : Char} {s t : State} (hc : UrlByte c) (hs : s.inUrl = true)
    (ht : UrlStep ch t) : UrlStep ch (if ch = c then s else t) :=
  .ite (fun h => .inr ⟨hs, h ▸ hc⟩) ht

/-- `parse_url_char` gives up, or it keeps to bytes that a URL may have and goes on to another state
    of the URL. -/
theorem parseUrlChar_spec (s : State) (ch : Char) : UrlStep ch (parseUrlChar s ch) := by
  have hdead : UrlStep ch .dead := .inl rfl
  have hserver : UrlStep ch (parseUrlChar.server ch) := by
    refine .char (by decide) rfl (.char (by decide) rfl (.char (by decide) rfl ?_))
    refine .ite (fun hc => .inr ⟨rfl, ?_⟩) hdead
    simp only [Bool.or_eq_true, decide_eq_true_eq] at hc
    obtain (hc | rfl) | rfl := hc
    · exact urlByte_of_isUserinfoChar hc
    · decide
    · decide
  have hquery : UrlStep ch (parseUrlChar.query ch) :=
    .ite (fun hc => .inr ⟨rfl, urlByte_of_isUrlChar hc⟩) (.char (by decide) rfl hdead)
  unfold parseUrlChar
  refine .ite (fun _ => hdead) ?_
  cases s with
  | reqSpacesBeforeUrl =>
      refine .ite (fun hc => .inr ⟨rfl, ?_⟩)
        (.ite (fun hc => .inr ⟨rfl, urlByte_of_isAlpha hc⟩) hdead)
      obtain rfl | rfl := hc <;> decide
  | reqSchema =>
      exact .ite (fun hc => .inr ⟨rfl, urlByte_of_isAlpha hc⟩) (.char (by decide) rfl hdead)
  | reqSchemaSlash => exact .char (by decide) rfl hdead
  | reqSchemaSlashSlash => exact .char (by decide) rfl hdead
  | reqServerWithAt => exact .ite (fun _ => hdead) hserver
  | reqServerStart => exact hserver
  | reqServer => exact hserver
  | reqPath =>
      exact .ite (fun hc => .inr ⟨rfl, urlByte_of_isUrlChar hc⟩) (.char (by decide) rfl hdead)
  | reqQueryStringStart => exact hquery
  | reqQueryString => exact hquery
  | _ => exact hdead

/-- The mark of a URL is set. -/
abbrev InUrl (e : Exec) : Prop := Holding Marks.OnUrl e

section
variable {routed : HttpMethod → List Char → Bool} {buffer : Nat} {e : Exec} {ch : Char}

theorem readyAt_inUrl {p : Parser} {n : Nat} {s : State} (h : s.inUrl = true) : ReadyAt p n s := by
  cases s <;> trivial

/-- Within a URL its mark is set and no other. -/
theorem fitAt_inUrl {m : Marks} {s : State} (h : s.inUrl = true) : FitAt m s ↔ m.OnUrl := by
  cases s <;> first | rfl | cases h

/-- One more character of the URL. -/
theorem InUrl.advance (h : InUrl e) (hs : e.self.state.inUrl = true) (hch : UrlByte ch) :
    (e.advance ch).All Inv Delivered := by
  obtain ⟨hfield, hvalue, hurl, hbody⟩ := h.marks
  have htext : UrlText [ch] := by
    intro c hc
    rw [List.mem_singleton.mp hc]
    exact hch
  exact ⟨(fitAt_inUrl hs).mpr (Marks.onUrl_consume.mpr h.marks), readyAt_inUrl hs, h.size, h.length,
    h.clean.consume (.inr htext) (.inl hfield) (.inl hvalue), h.delivered⟩

/-- A byte of the URL is passed over, and it is one that a URL may have. -/
theorem inv_urlChar (h : InUrl e) : (urlChar buffer e ch).All Inv Delivered := by
  have hspec := parseUrlChar_spec e.self.state ch
  unfold urlChar
  split
  · exact h.delivered
  · rename_i hs
    rw [hs] at hspec
    obtain hdead | ⟨hin, hch⟩ := hspec
    · cases hdead
    · exact InUrl.advance (h.parser _ (by exact h.length)) rfl hch
  · rename_i hdead _
    obtain ⟨hin, hch⟩ := hspec.resolve_left hdead
    exact InUrl.advance (h.parser _ (by exact h.length)) hin hch

/-- The callback of a URL. -/
theorem Clean.onUrl {h : HTTPParser} {m : Marks} {url : List Char}
    (hclean : Clean h.req h.headerField h.headerValue m) (hmark : m.url = some url) :
    WellFormed (onUrl h url).req := by
  have hurl := hclean.markUrl
  rw [hmark, Option.getD_some] at hurl
  have hraw : UrlText (h.req.rawUrl ++ url) := by
    intro c hc
    obtain hc | hc := List.mem_append.mp hc
    · exact hclean.req.rawUrl c hc
    · exact hurl c hc
  refine ⟨hraw, ?_, hclean.req.names, hclean.req.values⟩
  show UrlText (if h.qsPoint ≠ 0 then (h.req.rawUrl ++ url).take h.qsPoint else h.req.rawUrl ++ url)
  split
  · exact fun c hc => hraw c (List.mem_of_mem_take hc)
  · exact hraw

/-- One more request that is well formed. -/
theorem Delivered.snoc {ds : List Delivery} {d : Delivery} {req : RawRequest} (h : Delivered ds)
    (hd : d = .handled req ∨ d = .unrouted req) (hreq : WellFormed req) :
    Delivered (ds ++ [d]) := by
  intro req' hmem
  simp only [List.mem_append, List.mem_singleton] at hmem
  obtain (hmem | hmem) | (hmem | hmem) := hmem
  · exact h req' (.inl hmem)
  · obtain rfl | rfl := hd
    · cases hmem
      exact hreq
    · cases hmem
  · exact h req' (.inr hmem)
  · obtain rfl | rfl := hd
    · cases hmem
    · cases hmem
      exact hreq

/-- The end of a URL: the connection may have no route for it. -/
theorem InUrl.flush (h : InUrl e) {P : Exec → Prop} {k : Exec → Step}
    (hk : ∀ e', Open e' → e'.self.toParser = e.self.toParser → e'.nread = e.nread →
      (k e').All P Delivered) :
    (flushUrl routed e k).All P Delivered := by
  obtain ⟨hfield, hvalue, hurl, hbody⟩ := h.marks
  obtain ⟨url, hurl⟩ := Option.isSome_iff_exists.mp hurl
  have hreq := h.clean.onUrl hurl
  unfold flushUrl
  simp only [hurl, all_ite, all_failed]
  refine ⟨fun _ => hk _ ⟨⟨hfield, hvalue, rfl, hbody⟩, h.size, h.length, ?_, h.delivered⟩ rfl rfl,
    fun _ => h.delivered.snoc (.inr rfl) hreq⟩
  exact ⟨hreq, h.clean.field, h.clean.value, by simp [UrlText], h.clean.markField,
    h.clean.markValue⟩

/-- Where a URL may end it does, and `on_url` gets it: the request is routed, or it is handed on
    unrouted. -/
theorem inv_urlRest (h : InUrl e) : (urlRest routed buffer e ch).All Inv Delivered := by
  unfold urlRest
  simp only [all_ite, all_fail]
  refine ⟨fun _ => ?_, fun _ => ⟨fun _ => ⟨fun _ => h.delivered, fun _ => ?_⟩,
    fun _ => inv_urlChar h⟩⟩
  · refine InUrl.flush (h.parser _ (by exact h.length)) fun e' he' hp hn => he'.advance ?_ ?_
    · rw [hp]
      rfl
    · rw [hp]
      trivial
  · refine InUrl.flush (h.parser _ (by exact h.length)) fun e' he' hp hn => he'.advance ?_ ?_
    · rw [hp]
      dsimp only
      split <;> rfl
    · rw [hp]
      dsimp only
      split <;> trivial

theorem inv_urlPrefix (h : InUrl e) : (urlPrefix buffer e ch).All Inv Delivered := by
  unfold urlPrefix
  simp only [all_ite, all_fail]
  exact ⟨fun _ => h.delivered, fun _ => inv_urlChar h⟩

/-- The first byte behind the blank begins the URL. -/
theorem inv_reqSpacesBeforeUrl (h : Open e) (hs : e.self.state = .reqSpacesBeforeUrl) :
    (reqSpacesBeforeUrl buffer e ch).All Inv Delivered := by
  obtain ⟨hfield, hvalue, hurl, hbody⟩ := h.marks
  have hmarked : InUrl (markUrl e) := by
    refine ⟨⟨hfield, hvalue, rfl, hbody⟩, h.size, h.length, ⟨h.clean.req, h.clean.field,
      h.clean.value, ?_, h.clean.markField, h.clean.markValue⟩, h.delivered⟩
    simp [markUrl, hurl, UrlText]
  unfold reqSpacesBeforeUrl
  simp only [all_ite]
  refine ⟨fun _ => h.advance (by rw [hs]; rfl) (by rw [hs]; trivial), fun _ => inv_urlChar ?_⟩
  split
  · exact hmarked.parser _ (by exact h.length)
  · exact hmarked

end

/-! ## §7. Names. -/

/-- A character of a known header name either keeps to the word or falls back to `general`. -/
theorem matchWord_all {S : HeaderState → Prop} {word : String} {found failed hs : HeaderState}
    {index : Nat} {c : Char} (hfound : S found) (hfailed : S failed) (hhs : S hs) :
    S (matchWord word found failed hs index c) := by
  unfold matchWord
  split
  · exact hfailed
  · split
    · exact hfound
    · exact hhs

/-- The matcher over names stays among its states. -/
theorem fieldChar_ofName {p : Parser} (h : p.headerState.ofName = true) (c ch : Char) :
    ∃ q, fieldChar p c ch = some q ∧ q.headerState.ofName = true ∧ q.state = p.state
      ∧ q.contentLength = p.contentLength := by
  have hmatch : ∀ (word : String) (found : HeaderState) (index : Nat), found.ofName = true →
      (matchWord word found .general p.headerState index c).ofName = true :=
    fun word found index hfound => matchWord_all (S := fun hs => hs.ofName = true) hfound rfl h
  unfold fieldChar
  cases hs : p.headerState with
  | general => exact ⟨p, rfl, h, rfl, rfl⟩
  | c => exact ⟨_, rfl, by dsimp only; split <;> rfl, rfl, rfl⟩
  | co => exact ⟨_, rfl, by dsimp only; split <;> rfl, rfl, rfl⟩
  | con => exact ⟨_, rfl, by dsimp only; split <;> (try split) <;> rfl, rfl, rfl⟩
  | matchingConnection => exact ⟨_, rfl, hs ▸ hmatch _ _ _ rfl, rfl, rfl⟩
  | matchingProxyConnection => exact ⟨_, rfl, hs ▸ hmatch _ _ _ rfl, rfl, rfl⟩
  | matchingContentLength => exact ⟨_, rfl, hs ▸ hmatch _ _ _ rfl, rfl, rfl⟩
  | matchingTransferEncoding => exact ⟨_, rfl, hs ▸ hmatch _ _ _ rfl, rfl, rfl⟩
  | matchingUpgrade => exact ⟨_, rfl, hs ▸ hmatch _ _ _ rfl, rfl, rfl⟩
  | connection => exact ⟨_, rfl, by dsimp only; split <;> rfl, rfl, rfl⟩
  | contentLength => exact ⟨_, rfl, by dsimp only; split <;> rfl, rfl, rfl⟩
  | transferEncoding => exact ⟨_, rfl, by dsimp only; split <;> rfl, rfl, rfl⟩
  | upgrade => exact ⟨_, rfl, by dsimp only; split <;> rfl, rfl, rfl⟩
  | _ =>
      rw [hs] at h
      cases h

/-- What the loop over a name takes. -/
theorem fieldLoop_spec {p : Parser} (h : p.headerState.ofName = true) (cs : List Char) :
    ∃ q n, fieldLoop p cs = some (q, n) ∧ q.headerState.ofName = true ∧ q.state = p.state
      ∧ q.contentLength = p.contentLength ∧ NameText (cs.take n) := by
  induction cs generalizing p with
  | nil => exact ⟨p, 0, rfl, h, rfl, rfl, by simp [NameText]⟩
  | cons ch cs ih =>
      unfold fieldLoop
      cases htok : token ch with
      | none => exact ⟨p, 0, rfl, h, rfl, rfl, by simp [NameText]⟩
      | some c =>
          obtain ⟨q, hq, hname, hstate, hlength⟩ := fieldChar_ofName h c ch
          obtain ⟨r, n, hr, hrname, hrstate, hrlength, htext⟩ := ih hname
          refine ⟨r, n + 1, by simp [hq, hr], hrname, hrstate.trans hstate,
            hrlength.trans hlength, ?_⟩
          intro d hd
          rw [List.take_succ_cons, List.mem_cons] at hd
          obtain rfl | hd := hd
          · rw [htok]
            rfl
          · exact htext d hd

/-- The mark of a name is set. -/
abbrev InField (e : Exec) : Prop := Holding Marks.OnField e

section
variable {e : Exec} {ch : Char} {rest : List Char}

/-- More of the name. -/
theorem InField.consumed (h : InField e) {cs : List Char} (hcs : NameText cs) :
    InField { e with marks := e.marks.consume cs } := by
  obtain ⟨hfield, hvalue, hurl, hbody⟩ := h.marks
  exact ⟨Marks.onField_consume.mpr h.marks, h.size, h.length,
    h.clean.consume (.inl hurl) (.inr hcs) (.inl hvalue), h.delivered⟩

theorem InField.pass (h : InField e) : InField e.pass :=
  ⟨h.marks, h.size, h.length, h.clean.passed _, h.delivered⟩

/-- Within a name, the invariant is that the name so far is a token. -/
theorem InField.inv (h : InField e) (hs : e.self.state = .headerField)
    (hname : e.self.headerState.ofName = true) : Inv e := by
  refine ⟨?_, ?_, h.size, h.length, h.clean, h.delivered⟩
  · rw [hs]
    exact h.marks
  · rw [hs]
    exact hname

/-- The callback of a name. -/
theorem InField.flush (h : InField e) :
    Open (flushHeaderField e) ∧ (flushHeaderField e).self.toParser = e.self.toParser := by
  obtain ⟨hfield, hvalue, hurl, hbody⟩ := h.marks
  obtain ⟨name, hfield⟩ := Option.isSome_iff_exists.mp hfield
  have hclean := h.clean
  have hname : NameText name := by
    have htext := hclean.markField
    rwa [hfield, Option.getD_some] at htext
  have hnil : ValueText [] := by simp [ValueText]
  unfold flushHeaderField
  rw [hfield]
  dsimp only
  unfold onHeaderField
  split
  · exact ⟨⟨⟨rfl, hvalue, hurl, hbody⟩, h.size, h.length, ⟨hclean.req,
      List.forall_mem_append.mpr ⟨hclean.field, hname⟩, hclean.value, hclean.markUrl,
      by simp [NameText], hclean.markValue⟩, h.delivered⟩, rfl⟩
  · split
    · refine ⟨⟨⟨rfl, hvalue, hurl, hbody⟩, h.size, h.length,
        ⟨⟨hclean.req.rawUrl, hclean.req.url, ?_, ?_⟩, hname, hnil, hclean.markUrl,
          by simp [NameText], hclean.markValue⟩, h.delivered⟩, rfl⟩
      · intro f hf
        obtain hf | hf := List.mem_append.mp hf
        · exact hclean.req.names f hf
        · obtain rfl := List.mem_singleton.mp hf
          exact hclean.field
      · intro f hf
        obtain hf | hf := List.mem_append.mp hf
        · exact hclean.req.values f hf
        · obtain rfl := List.mem_singleton.mp hf
          exact hclean.value
    · exact ⟨⟨⟨rfl, hvalue, hurl, hbody⟩, h.size, h.length, ⟨hclean.req, hname, hclean.value,
        hclean.markUrl, by simp [NameText], hclean.markValue⟩, h.delivered⟩, rfl⟩

/-- The name goes on, or the colon ends it and `on_header_field` gets it. -/
theorem inv_headerField (h : InField e) (hs : e.self.state = .headerField)
    (hname : e.self.headerState.ofName = true) : (headerField e ch rest).All Inv Delivered := by
  obtain ⟨q, n, hloop, hq, hstate, hlength, htext⟩ := fieldLoop_spec hname (ch :: rest)
  have hread := InField.consumed (h.parser q (hlength ▸ h.length)) htext
  unfold headerField
  rw [hloop]
  dsimp only
  split
  · simp only [all_counting, all_next]
    exact ⟨fun hsize => InField.inv (hread.recount hsize) (hstate.trans hs) hq,
      fun _ => h.delivered⟩
  · simp only [all_counting, all_ite, all_next, all_fail]
    refine ⟨fun hsize => ⟨fun _ => ?_, fun _ => h.delivered⟩, fun _ => h.delivered⟩
    obtain ⟨hopen, hparser⟩ :=
      InField.flush (InField.pass ((hread.recount hsize).parser
        { q with state := .headerValueDiscardWs } hread.length))
    refine hopen.inv ?_ ?_
    · exact congrArg (fun p => State.plain p.state) hparser
    · rw [hparser]
      exact hq

end

/-! ## §8. Values. -/

/-- `lower` sets one bit of the byte, so it makes a blank of a blank and of a NUL only. -/
theorem lower_eq_space {c : Char} (h : lower c = ' ' ∨ lower c = '\t') : c = '\x00' ∨ c = ' ' := by
  have hle : c.toNat ≤ c.toNat ||| 0x20 := Nat.left_le_or
  have hge : 0x20 ≤ c.toNat ||| 0x20 := Nat.right_le_or
  have hlow : ∀ n, n < 33 → n ||| 0x20 = 32 → n = 0 ∨ n = 32 := by decide
  have hchar : ∀ {d : Char}, c.toNat = d.toNat → c = d := fun h => Char.toNat_inj.mp h
  unfold lower at h
  obtain h | h := h
  · have htoNat := congrArg Char.toNat h
    have hspace : ' '.toNat = 32 := rfl
    obtain hn | hn := toNat_ofNat_or (c.toNat ||| 0x20)
    · obtain hc | hc := hlow c.toNat (by omega) (by omega)
      · exact .inl (hchar hc)
      · exact .inr (hchar hc)
    · omega
  · have htoNat := congrArg Char.toNat h
    have htab : '\t'.toNat = 9 := rfl
    obtain hn | hn := toNat_ofNat_or (c.toNat ||| 0x20)
    · omega
    · omega

/-- The first character of a value takes the matcher from names to values: a space
    cannot come here, and neither may a NUL, which `CROW_LOWER` turns into one. -/
theorem valueStart_ofValue {p q : Parser} {ch : Char} {more : List Char}
    (hp : (p.headerState.ofName = true ∧ ch ≠ ' ') ∨ p.headerState.ofValue = true)
    (hnul : ch ≠ '\x00') (hlength : p.contentLength ≤ ullongMax)
    (h : valueStart p ch more = .ok q) :
    q.headerState.ofValue = true ∧ q.state = p.state ∧ q.contentLength ≤ ullongMax := by
  unfold valueStart at h
  split at h
  · cases h
    exact ⟨rfl, rfl, hlength⟩
  · cases h
    exact ⟨by dsimp only; split <;> rfl, rfl, hlength⟩
  · rename_i hs
    cases h
    exact ⟨by rw [hs]; rfl, rfl, hlength⟩
  · split at h
    · cases h
    · split at h
      · cases h
      · cases h
        refine ⟨rfl, rfl, ?_⟩
        rename_i hnum _
        have hdigit := (urlByte_of_isNum (by simpa using hnum)).2.1
        show ch.toNat - 48 ≤ ullongMax
        have hmax : 127 < ullongMax := by decide
        omega
  · rename_i hs
    cases h
    exact ⟨by rw [hs]; rfl, rfl, hlength⟩
  · rename_i hs
    cases h
    refine ⟨?_, rfl, hlength⟩
    dsimp only
    split
    · rfl
    · split
      · rfl
      · split
        · rename_i hspace
          obtain rfl | rfl := lower_eq_space hspace
          · exact absurd rfl hnul
          · rw [hs] at hp
            obtain ⟨-, hne⟩ | hvalue := hp
            · exact absurd rfl hne
            · cases hvalue
        · rfl
  · cases h
    exact ⟨rfl, rfl, hlength⟩

/-- A digit of `Content-Length` counts up to the limit, or the request is refused. -/
theorem lengthDigit_ofValue {p q : Parser} {ch : Char} (hlength : p.contentLength ≤ ullongMax)
    (h : lengthDigit p ch = .ok q) :
    q.headerState.ofValue = true ∧ q.state = p.state ∧ q.contentLength ≤ ullongMax := by
  unfold lengthDigit at h
  split at h
  · cases h
    exact ⟨rfl, rfl, hlength⟩
  · split at h
    · cases h
    · split at h
      · cases h
      · rename_i hnum hsmall
        cases h
        refine ⟨rfl, rfl, ?_⟩
        unfold isNum at hnum
        simp only [Bool.not_eq_true', Bool.and_eq_false_iff, decide_eq_false_iff_not, char_le_iff,
          not_or, Decidable.not_not] at hnum
        have h9 : '9'.toNat = 57 := rfl
        have hmax : ullongMax = 2 ^ 64 - 1 := rfl
        show p.contentLength * 10 + (ch.toNat - 48) ≤ ullongMax
        omega

/-- The matcher over values stays among its states. -/
theorem valueChar_ofValue {p : Parser} (h : p.headerState.ofValue = true)
    (hlength : p.contentLength ≤ ullongMax) (ch : Char) :
    ∃ r, valueChar p ch = some r ∧ ∀ q, r = .ok q →
      q.headerState.ofValue = true ∧ q.state = p.state ∧ q.contentLength ≤ ullongMax := by
  have hgoto : ∀ hs : HeaderState, hs.ofValue = true →
      ∃ r, (some (.ok { p with headerState := hs }) : Option (Except Errno Parser)) = some r
        ∧ ∀ q, r = .ok q →
          q.headerState.ofValue = true ∧ q.state = p.state ∧ q.contentLength ≤ ullongMax := by
    intro hs hvalue
    refine ⟨_, rfl, fun q hq => ?_⟩
    cases hq
    exact ⟨hvalue, rfl, hlength⟩
  have hgo : ∀ (word : String) (found failed : HeaderState), found.ofValue = true →
      failed.ofValue = true →
      ∃ r, (some (.ok { p with
          index := p.index + 1
          headerState := matchWord word found failed p.headerState (p.index + 1) (lower ch) }) :
          Option (Except Errno Parser)) = some r
        ∧ ∀ q, r = .ok q →
          q.headerState.ofValue = true ∧ q.state = p.state ∧ q.contentLength ≤ ullongMax := by
    intro word found failed hfound hfailed
    refine ⟨_, rfl, fun q hq => ?_⟩
    cases hq
    exact ⟨matchWord_all (S := fun hs => hs.ofValue = true) hfound hfailed h, rfl, hlength⟩
  have hstay : ∀ q, (Except.ok p : Except Errno Parser) = .ok q →
      q.headerState.ofValue = true ∧ q.state = p.state ∧ q.contentLength ≤ ullongMax := by
    intro q hq
    cases hq
    exact ⟨h, rfl, hlength⟩
  unfold valueChar
  cases hs : p.headerState with
  | general => exact ⟨_, rfl, hstay⟩
  | contentLengthNum => exact ⟨_, rfl, fun q hq => lengthDigit_ofValue hlength hq⟩
  | contentLengthWs =>
      dsimp only
      split
      · exact ⟨_, rfl, hstay⟩
      · exact ⟨_, rfl, fun q hq => by cases hq⟩
  | matchingTransferEncodingTokenStart =>
      dsimp only
      split
      · exact hgoto _ rfl
      · split
        · exact hgoto _ rfl
        · split
          · exact hgoto _ rfl
          · exact hgoto _ rfl
  | matchingTransferEncodingChunked =>
      rw [hs] at hgo
      exact hgo "chunked" .transferEncodingChunked .matchingTransferEncodingToken rfl rfl
  | matchingTransferEncodingToken =>
      dsimp only
      split
      · refine ⟨_, rfl, fun q hq => ?_⟩
        cases hq
        exact ⟨rfl, rfl, hlength⟩
      · exact ⟨_, rfl, hstay⟩
  | matchingConnectionKeepAlive =>
      rw [hs] at hgo
      exact hgo "keep-alive" .connectionKeepAlive .general rfl rfl
  | matchingConnectionClose =>
      rw [hs] at hgo
      exact hgo "close" .connectionClose .general rfl rfl
  | transferEncodingChunked => exact hgoto _ (by split <;> rfl)
  | connectionKeepAlive => exact hgoto _ (by split <;> rfl)
  | connectionClose => exact hgoto _ (by split <;> rfl)
  | _ =>
      rw [hs] at h
      cases h

/-- What the loop over a value takes. -/
theorem valueLoop_spec {p : Parser} (h : p.headerState.ofValue = true)
    (hlength : p.contentLength ≤ ullongMax) (cs : List Char) :
    ∃ r, valueLoop p cs = some r ∧ ∀ q n, r = .ok (q, n) →
      q.headerState.ofValue = true ∧ q.state = p.state ∧ q.contentLength ≤ ullongMax
        ∧ ValueText (cs.take n) := by
  induction cs generalizing p with
  | nil =>
      refine ⟨_, rfl, fun q n hq => ?_⟩
      cases hq
      exact ⟨h, rfl, hlength, by simp [ValueText]⟩
  | cons ch cs ih =>
      unfold valueLoop
      split
      · refine ⟨_, rfl, fun q n hq => ?_⟩
        cases hq
        exact ⟨h, rfl, hlength, by simp [ValueText]⟩
      · rename_i hend
        split
        · exact ⟨_, rfl, fun q n hq => by cases hq⟩
        · obtain ⟨r, hr, hspec⟩ := valueChar_ofValue h hlength ch
          rw [hr]
          cases r with
          | error err => exact ⟨_, rfl, fun q n hq => by cases hq⟩
          | ok q =>
              obtain ⟨hvalue, hstate, hqlength⟩ := hspec q rfl
              obtain ⟨r, hr, hrest⟩ := ih hvalue hqlength
              refine ⟨_, by dsimp only; rw [hr]; rfl, fun t n ht => ?_⟩
              cases r with
              | error err => cases ht
              | ok r =>
                  cases ht
                  obtain ⟨htvalue, htstate, htlength, htext⟩ := hrest _ _ rfl
                  refine ⟨htvalue, htstate.trans hstate, htlength, ?_⟩
                  intro d hd
                  rw [List.take_succ_cons, List.mem_cons] at hd
                  obtain rfl | hd := hd
                  · exact not_or.mp hend
                  · exact htext d hd

/-- The mark of a value is set. -/
abbrev InValue (e : Exec) : Prop := Holding Marks.OnValue e

section
variable {e : Exec} {ch : Char} {rest : List Char}

/-- More of the value. -/
theorem InValue.consumed (h : InValue e) {cs : List Char} (hcs : ValueText cs) :
    InValue { e with marks := e.marks.consume cs } := by
  obtain ⟨hfield, hvalue, hurl, hbody⟩ := h.marks
  exact ⟨Marks.onValue_consume.mpr h.marks, h.size, h.length,
    h.clean.consume (.inl hurl) (.inl hfield) (.inr hcs), h.delivered⟩

theorem InValue.pass (h : InValue e) : InValue e.pass :=
  ⟨h.marks, h.size, h.length, h.clean.passed _, h.delivered⟩

/-- Within a value, the invariant is that the value so far has no line end. -/
theorem InValue.inv (h : InValue e) (hs : e.self.state = .headerValue)
    (hvalue : e.self.headerState.ofValue = true) : Inv e := by
  refine ⟨?_, ?_, h.size, h.length, h.clean, h.delivered⟩
  · rw [hs]
    exact h.marks
  · rw [hs]
    exact hvalue

theorem Open.markHeaderValue (h : Open e) : InValue (markHeaderValue e) := by
  obtain ⟨hfield, hvalue, hurl, hbody⟩ := h.marks
  refine ⟨⟨hfield, rfl, hurl, hbody⟩, h.size, h.length, ⟨h.clean.req, h.clean.field, h.clean.value,
    h.clean.markUrl, h.clean.markField, ?_⟩, h.delivered⟩
  simp [HttpParser.markHeaderValue, hvalue, ValueText]

/-- The callback of a value. -/
theorem InValue.flush (h : InValue e) :
    Open (flushHeaderValue e) ∧ (flushHeaderValue e).self.toParser = e.self.toParser := by
  obtain ⟨hfield, hvalue, hurl, hbody⟩ := h.marks
  obtain ⟨value, hvalue⟩ := Option.isSome_iff_exists.mp hvalue
  have hclean := h.clean
  have htext : ValueText value := by
    have hmark := hclean.markValue
    rwa [hvalue, Option.getD_some] at hmark
  unfold flushHeaderValue
  rw [hvalue]
  dsimp only
  unfold onHeaderValue
  split
  · exact ⟨⟨⟨hfield, rfl, hurl, hbody⟩, h.size, h.length, ⟨hclean.req, hclean.field, htext,
      hclean.markUrl, hclean.markField, by simp [ValueText]⟩, h.delivered⟩, rfl⟩
  · exact ⟨⟨⟨hfield, rfl, hurl, hbody⟩, h.size, h.length, ⟨hclean.req, hclean.field,
      List.forall_mem_append.mpr ⟨hclean.value, htext⟩, hclean.markUrl, hclean.markField,
      by simp [ValueText]⟩, h.delivered⟩, rfl⟩

/-- The first character of a value is not a blank and not a line end, so that it may be part of the
    value. -/
theorem inv_headerValueStart (h : Open e)
    (hname : (e.self.headerState.ofName = true ∧ ch ≠ ' ') ∨ e.self.headerState.ofValue = true)
    (hnul : ch ≠ '\x00') (hend : ch ≠ '\r' ∧ ch ≠ '\n') :
    (headerValueStart e ch rest).All Inv Delivered := by
  have hmarked := h.markHeaderValue
  have htext : ValueText [ch] := by
    intro c hc
    rw [List.mem_singleton.mp hc]
    exact hend
  unfold headerValueStart
  dsimp only
  split
  · rename_i q hq
    obtain ⟨hvalue, hstate, hlength⟩ :=
      valueStart_ofValue (p := { e.self.toParser with state := .headerValue, index := 0 })
        hname hnul h.length hq
    exact InValue.inv (InValue.consumed (hmarked.parser q hlength) htext) hstate hvalue
  · exact h.delivered

/-- The value goes on, or a line end ends it and `on_header_value` gets it. -/
theorem inv_headerValue (h : InValue e) (hs : e.self.state = .headerValue)
    (hvalue : e.self.headerState.ofValue = true) : (headerValue e ch rest).All Inv Delivered := by
  obtain ⟨r, hloop, hspec⟩ := valueLoop_spec hvalue h.length (ch :: rest)
  unfold headerValue
  rw [hloop]
  cases r with
  | error err => exact h.delivered
  | ok r =>
      obtain ⟨q, n⟩ := r
      obtain ⟨hq, hstate, hlength, htext⟩ := hspec q n rfl
      have hread := InValue.consumed (h.parser q hlength) htext
      dsimp only
      split
      · simp only [all_counting, all_next]
        exact ⟨fun hsize => InValue.inv (hread.recount hsize) (hstate.trans hs) hq,
          fun _ => h.delivered⟩
      · simp only [all_counting, all_ite, all_next]
        refine ⟨fun hsize => ?_, fun _ => h.delivered⟩
        obtain ⟨hopen, hparser⟩ :=
          InValue.flush (InValue.pass ((hread.recount hsize).parser
            { q with state := .headerAlmostDone } hlength))
        refine ⟨fun _ => hopen.inv ?_ ?_, fun _ => ?_⟩
        · exact congrArg (fun p => State.plain p.state) hparser
        · rw [hparser]
          exact hq
        · refine Open.inv (hopen.parser _ hopen.length) rfl ?_
          exact (congrArg (fun p => HeaderState.ofValue p.headerState) hparser).trans hq

theorem inv_headerAlmostDone (h : Open e) (hvalue : e.self.headerState.ofValue = true) :
    (headerAlmostDone e ch).All Inv Delivered := by
  unfold headerAlmostDone
  simp only [all_ite, all_fail]
  exact ⟨fun _ => h.delivered, fun _ => h.goto rfl hvalue⟩

end

/-! ## §9. The end of a header and of a request. -/

section
variable {M : Marks → Prop} {e : Exec} {ch : Char} {rest : List Char}

theorem wellFormed_empty : WellFormed {} := by
  refine ⟨?_, ?_, ?_, ?_⟩ <;> simp [UrlText]

/-- An answered request leaves a parser with nothing collected. -/
theorem Holding.messageComplete (h : Holding M e) : Holding M (messageComplete e) := by
  have hclean := h.clean
  have hdelivered : Delivered (HttpParser.messageComplete e).deliveries :=
    h.delivered.snoc (.inl rfl) hclean.req
  by_cases hup : e.self.req.takesUpgrade = true
  · have hself : (HttpParser.messageComplete e).self = { e.self with messageComplete := true } :=
      if_pos hup
    refine ⟨h.marks, h.size, ?_, ?_, hdelivered⟩
    · rw [hself]
      exact h.length
    · rw [hself]
      exact hclean
  · have hself : (HttpParser.messageComplete e).self
        = { e.self with messageComplete := true : HTTPParser }.clear := if_neg hup
    refine ⟨h.marks, h.size, ?_, ?_, hdelivered⟩
    · rw [hself]
      exact h.length
    · rw [hself]
      exact ⟨wellFormed_empty, by simp [NameText, HTTPParser.clear],
        by simp [ValueText, HTTPParser.clear], hclean.markUrl, hclean.markField, hclean.markValue⟩

/-- The states in which a request may be complete. -/
def State.final : State → Bool
  | .headersAlmostDone | .headersDone | .messageDone => true
  | _ => false

/-- The end of a request leaves the state as it is or goes to the next request. -/
theorem messageComplete_state (e : Exec) :
    (HttpParser.messageComplete e).self.state = e.self.state
      ∨ (HttpParser.messageComplete e).self.state = .startReq := by
  unfold HttpParser.messageComplete
  dsimp only
  split
  · exact .inl rfl
  · exact .inr rfl

theorem messageComplete_nread (e : Exec) :
    (HttpParser.messageComplete e).self.nread = e.self.nread := by
  unfold HttpParser.messageComplete
  dsimp only
  split <;> rfl

/-- Where the parser is when a request is complete, no mark is set. -/
theorem messageComplete_plain (hs : e.self.state.final = true) :
    (HttpParser.messageComplete e).self.state.plain = true := by
  obtain hstate | hstate := messageComplete_state e
  · rw [hstate]
    cases hcase : e.self.state <;> rw [hcase] at hs <;> first | rfl | cases hs
  · rw [hstate]
    rfl

/-- The complete request is delivered, and it is well formed. -/
theorem inv_messageComplete (h : Open e) (hs : e.self.state.final = true) :
    Inv (messageComplete e) := by
  refine Open.inv h.messageComplete (messageComplete_plain hs) ?_
  obtain hstate | hstate := messageComplete_state e
  · rw [hstate]
    cases hcase : e.self.state <;> rw [hcase] at hs <;> trivial
  · rw [hstate]
    trivial

theorem messageComplete_advance (h : Open e) (hs : e.self.state.final = true) (ch : Char) :
    ((messageComplete e).advance ch).All Inv Delivered := by
  have hinv := inv_messageComplete h hs
  exact Open.advance h.messageComplete (messageComplete_plain hs) hinv.ready

/-- The last header joins the others. -/
theorem Holding.onHeadersComplete (h : Holding M e) :
    Holding M { e with self := onHeadersComplete e.self } := by
  have hclean := h.clean
  have hset : ∀ self : HTTPParser, Holding M { e with self } →
      Holding M { e with self := setConnectionParameters self } := fun self hself =>
    ⟨h.marks, h.size, hself.length, ⟨⟨hself.clean.req.rawUrl, hself.clean.req.url,
      hself.clean.req.names, hself.clean.req.values⟩, hself.clean.field, hself.clean.value,
      hself.clean.markUrl, hself.clean.markField, hself.clean.markValue⟩, h.delivered⟩
  refine hset _ ?_
  split
  · refine ⟨h.marks, h.size, h.length, ⟨⟨hclean.req.rawUrl, hclean.req.url, ?_, ?_⟩,
      by simp [NameText], by simp [ValueText], hclean.markUrl, hclean.markField, hclean.markValue⟩,
      h.delivered⟩
    · exact List.forall_mem_append.mpr ⟨hclean.req.names, by simpa using hclean.field⟩
    · exact List.forall_mem_append.mpr ⟨hclean.req.values, by simpa using hclean.value⟩
  · exact h

theorem onHeadersComplete_toParser (h : HTTPParser) :
    (onHeadersComplete h).toParser = h.toParser := by
  unfold HttpParser.onHeadersComplete
  split <;> rfl

/-- The last line feed of the header: the request is complete, or its body is read. -/
theorem inv_headersDone (h : Open e) (hs : e.self.state = .headersDone) :
    (headersDone e ch).All Inv Delivered := by
  have hopen : Open { e with self.nread := 0, nread := 0 } :=
    ⟨h.marks, Nat.zero_le _, h.length, h.clean, h.delivered⟩
  have hdone := messageComplete_advance hopen (by rw [hs]; rfl) ch
  unfold headersDone
  simp only [all_strict, all_ite, all_leave, all_fail]
  refine ⟨fun _ => ⟨fun _ => ⟨inv_messageComplete hopen (by rw [hs]; rfl),
    messageComplete_nread _, messageComplete_plain (by rw [hs]; rfl)⟩, fun _ => ⟨fun hchunked => ?_,
    fun _ => ⟨fun _ => h.delivered, fun _ => ⟨fun _ => hdone, fun hlength => ?_⟩⟩⟩⟩,
    fun _ => h.delivered⟩
  · exact hopen.goto rfl ⟨hchunked, rfl⟩
  · have hbody := Open.consumed (hopen.parser _ (by exact h.length)) [ch]
    have hpos := Nat.pos_of_ne_zero fun hzero => hlength (.inl hzero)
    have hlt := Nat.lt_of_le_of_ne h.length fun hmax => hlength (.inr hmax)
    obtain ⟨hfield, hvalue, hurl, -⟩ := hbody.marks
    exact ⟨⟨hfield, hvalue, hurl⟩, ⟨hpos, hlt⟩, hbody.size, hbody.length, hbody.clean,
      hbody.delivered⟩

/-- The end of the header, or the trailers of a chunked body. -/
theorem inv_headersAlmostDone (h : Open e) (hs : e.self.state = .headersAlmostDone) :
    (headersAlmostDone e ch).All Inv Delivered := by
  have hdone := messageComplete_advance h (by rw [hs]; rfl) ch
  unfold headersAlmostDone
  simp only [all_strict, all_ite, all_fail]
  refine ⟨fun _ => ⟨fun _ => hdone, fun _ => ⟨fun _ => h.delivered, fun _ => ?_⟩⟩,
    fun _ => h.delivered⟩
  refine inv_headersDone (Holding.onHeadersComplete (h.parser _ (by exact h.length))) ?_
  rw [onHeadersComplete_toParser]

theorem firstHeaderState_ofName (c : Char) : (firstHeaderState c).ofName = true := by
  unfold firstHeaderState
  repeat' split
  all_goals rfl

/-- A line end ends the header; anything else has to begin a name. -/
theorem inv_headerFieldStart (h : Open e) : (headerFieldStart e ch).All Inv Delivered := by
  unfold headerFieldStart
  simp only [all_ite]
  refine ⟨fun _ => h.goto rfl trivial, fun _ => ⟨fun _ =>
    inv_headersAlmostDone (h.parser _ (by exact h.length)) rfl, fun _ => ?_⟩⟩
  cases htok : token ch with
  | none => exact h.delivered
  | some c =>
      obtain ⟨hfield, hvalue, hurl, hbody⟩ := h.marks
      have hmarked : InField (markHeaderField e) := by
        refine ⟨⟨rfl, hvalue, hurl, hbody⟩, h.size, h.length, ⟨h.clean.req, h.clean.field,
          h.clean.value, h.clean.markUrl, ?_, h.clean.markValue⟩, h.delivered⟩
        simp [markHeaderField, hfield, NameText]
      have htext : NameText [ch] := by
        intro d hd
        rw [List.mem_singleton.mp hd, htok]
        rfl
      exact InField.inv (InField.consumed (hmarked.parser _ (by exact h.length)) htext) rfl
        (firstHeaderState_ofName c)

/-- Blanks before the value are dropped. -/
theorem inv_headerValueDiscardWs (h : Open e) (hs : e.self.state = .headerValueDiscardWs)
    (hname : e.self.headerState.ofName = true) (hnul : ch ≠ '\x00') :
    (headerValueDiscardWs e ch rest).All Inv Delivered := by
  unfold headerValueDiscardWs
  simp only [all_ite]
  refine ⟨fun _ => h.advance (by rw [hs]; rfl) (by rw [hs]; exact hname), fun hspace =>
    ⟨fun _ => h.goto rfl hname, fun hcr => ⟨fun _ => h.goto rfl hname, fun hlf => ?_⟩⟩⟩
  exact inv_headerValueStart h (.inl ⟨hname, fun h => hspace (.inl h)⟩) hnul ⟨hcr, hlf⟩

/-- A line that begins with a blank goes on with the value of the line before. -/
theorem inv_headerValueLws (h : Open e) (hvalue : e.self.headerState.ofValue = true)
    (hnul : ch ≠ '\x00') : (headerValueLws e ch rest).All Inv Delivered := by
  unfold headerValueLws
  simp only [all_ite]
  refine ⟨fun hspace => ?_, fun _ => inv_headerFieldStart (h.parser _ (by exact h.length))⟩
  refine inv_headerValueStart (h.parser _ (by exact h.length)) (.inr ?_) hnul ?_
  · dsimp only
    split
    · rfl
    · exact hvalue
  · obtain rfl | rfl := hspace <;> decide

/-- Behind an empty line of a value comes its rest or the next header. -/
theorem inv_headerValueDiscardLws (h : Open e) (hname : e.self.headerState.ofName = true) :
    (headerValueDiscardLws e ch).All Inv Delivered := by
  unfold headerValueDiscardLws
  simp only [all_ite]
  refine ⟨fun _ => h.goto rfl hname, fun _ => inv_headerFieldStart ?_⟩
  exact (InValue.flush (h.markHeaderValue.parser _ (by exact h.length))).1

end

/-! ## §10. Bodies and chunks. -/

/-- No mark is set but perhaps that of a body. -/
abbrev InBody (e : Exec) : Prop := Holding Marks.OnBody e

section
variable {e : Exec} {ch : Char} {rest : List Char}

theorem InBody.inv (h : InBody e) (hfit : FitAt e.marks e.self.state ↔ e.marks.OnBody)
    (hready : ReadyAt e.self.toParser e.nread e.self.state) : Inv e :=
  ⟨hfit.mpr h.marks, hready, h.size, h.length, h.clean, h.delivered⟩

/-- More of the body. -/
theorem InBody.takeBody (h : InBody e) (ch : Char) (rest : List Char) :
    InBody (takeBody e ch rest).1 := by
  obtain ⟨hfield, hvalue, hurl⟩ := h.marks
  have hmarked : InBody (markBody e) :=
    ⟨h.marks, h.size, h.length, ⟨h.clean.req, h.clean.field, h.clean.value, h.clean.markUrl,
      h.clean.markField, h.clean.markValue⟩, h.delivered⟩
  refine ⟨Marks.onBody_consume.mpr hmarked.marks, h.size, ?_,
    hmarked.clean.consume (.inl hurl) (.inl hfield) (.inl hvalue), h.delivered⟩
  exact Nat.le_trans (Nat.sub_le _ _) h.length

theorem takeBody_toParser :
    (takeBody e ch rest).1.self.toParser
      = { e.self.toParser with
          contentLength := e.self.contentLength - min e.self.contentLength (ch :: rest).length } :=
  rfl

/-- The callback of a body. -/
theorem InBody.flush (h : InBody e) :
    Open (flushBody e) ∧ (flushBody e).self.toParser = e.self.toParser := by
  obtain ⟨hfield, hvalue, hurl⟩ := h.marks
  unfold flushBody
  split
  · exact ⟨⟨⟨hfield, hvalue, hurl, ‹_›⟩, h.size, h.length, h.clean, h.delivered⟩, rfl⟩
  · exact ⟨⟨⟨hfield, hvalue, hurl, rfl⟩, h.size, h.length, ⟨⟨h.clean.req.rawUrl, h.clean.req.url,
      h.clean.req.names, h.clean.req.values⟩, h.clean.field, h.clean.value, h.clean.markUrl,
      h.clean.markField, h.clean.markValue⟩, h.delivered⟩, rfl⟩

theorem lengthKnown_of_counted (h : Counted e.self.toParser) : lengthKnown e = true := by
  unfold lengthKnown
  simp only [Bool.and_eq_true, decide_eq_true_eq]
  exact ⟨Nat.pos_iff_ne_zero.mp h.1, Nat.ne_of_lt h.2⟩

/-- Bytes of a body with a length. -/
theorem inv_bodyIdentity (h : InBody e) (hs : e.self.state = .bodyIdentity)
    (hcounted : Counted e.self.toParser) : (bodyIdentity e ch rest).All Inv Delivered := by
  have htaken := h.takeBody ch rest
  unfold bodyIdentity
  simp only [all_assert, all_ite, all_next]
  refine ⟨lengthKnown_of_counted hcounted, fun _ => ?_, fun hmore => ?_⟩
  · obtain ⟨hopen, hparser⟩ := InBody.flush (htaken.parser
      { (takeBody e ch rest).1.self.toParser with state := .messageDone } htaken.length)
    refine inv_messageComplete hopen ?_
    exact congrArg (fun p => State.final p.state) hparser
  · refine htaken.inv ?_ ?_
    · rw [takeBody_toParser]
      simp only [hs]
      rfl
    · have hpos := Nat.pos_of_ne_zero hmore
      have hlt := Nat.lt_of_le_of_lt (Nat.sub_le e.self.contentLength
        (min e.self.contentLength (ch :: rest).length)) hcounted.2
      rw [takeBody_toParser] at hpos ⊢
      simp only [hs]
      exact ⟨hpos, hlt⟩

theorem inv_messageDone (h : Open e) (hs : e.self.state = .messageDone) :
    (messageDone e ch).All Inv Delivered :=
  messageComplete_advance h (by rw [hs]; rfl) ch

/-- A hexadecimal digit is less than sixteen. -/
theorem unhex_lt {n : Nat} (h : unhex ch = some n) : n < 16 := by
  have hnum : isNum ch = true → digit ch < 10 := by
    intro hnum
    unfold isNum at hnum
    simp only [Bool.and_eq_true, decide_eq_true_eq, char_le_iff] at hnum
    have h9 : '9'.toNat = 57 := rfl
    show ch.toNat - 48 < 10
    omega
  have hF : 'F'.toNat = 70 := rfl
  have hf : 'f'.toNat = 102 := rfl
  have hA : 'A'.toNat = 65 := rfl
  have ha : 'a'.toNat = 97 := rfl
  unfold unhex at h
  simp only [Bool.and_eq_true, decide_eq_true_eq, char_le_iff] at h
  split at h
  · rename_i hdigit
    have hlt := hnum hdigit
    cases h
    omega
  · split at h
    · cases h
      omega
    · split at h
      · cases h
        omega
      · split at h
        · cases h
          omega
        · cases h

/-- The first digit of a chunk's size. -/
theorem inv_chunkSizeStart (h : Open e) (hchunked : e.self.flags.chunked = true)
    (hread : e.nread = 1) : (chunkSizeStart e ch).All Inv Delivered := by
  unfold chunkSizeStart
  simp only [all_assert, Bool.and_eq_true, decide_eq_true_eq]
  refine ⟨⟨hread, hchunked⟩, ?_⟩
  cases hn : unhex ch with
  | none => exact h.delivered
  | some n =>
      have hlt := unhex_lt hn
      have hmax : 16 < ullongMax := by decide
      exact Open.advance (h.parser _ (by dsimp only; omega)) rfl
        ⟨hchunked, by dsimp only; omega⟩

/-- The size goes on, or parameters or the end of the line follow it. -/
theorem inv_chunkSize (h : Open e) (hs : e.self.state = .chunkSize)
    (hchunked : e.self.flags.chunked = true) (hlength : e.self.contentLength ≠ ullongMax) :
    (chunkSize e ch).All Inv Delivered := by
  unfold chunkSize
  simp only [all_assert, all_ite]
  refine ⟨hchunked, fun _ => h.goto rfl ⟨hchunked, hlength⟩, fun _ => ?_⟩
  cases hn : unhex ch with
  | none =>
      simp only [all_ite, all_fail]
      exact ⟨fun _ => h.goto rfl ⟨hchunked, hlength⟩, fun _ => h.delivered⟩
  | some n =>
      simp only [all_ite, all_fail]
      refine ⟨fun _ => h.delivered, fun hsmall => ?_⟩
      have hlt := unhex_lt hn
      have hmax : ullongMax = 2 ^ 64 - 1 := rfl
      refine Open.advance (h.parser _ (by dsimp only; omega)) (by dsimp only; rw [hs]; rfl) ?_
      simp only [hs]
      exact ⟨hchunked, by dsimp only; omega⟩

/-- Parameters of a chunk are passed over. -/
theorem inv_chunkParameters (h : Open e) (hs : e.self.state = .chunkParameters)
    (hchunked : e.self.flags.chunked = true) (hlength : e.self.contentLength ≠ ullongMax) :
    (chunkParameters e ch).All Inv Delivered := by
  unfold chunkParameters
  simp only [all_assert, all_ite]
  refine ⟨hchunked, fun _ => h.goto rfl ⟨hchunked, hlength⟩, fun _ => ?_⟩
  exact h.advance (by rw [hs]; rfl) (by rw [hs]; exact ⟨hchunked, hlength⟩)

/-- The line feed behind the size: the last chunk has size zero. -/
theorem inv_chunkSizeAlmostDone (h : Open e) (hchunked : e.self.flags.chunked = true)
    (hlength : e.self.contentLength ≠ ullongMax) :
    (chunkSizeAlmostDone e ch).All Inv Delivered := by
  have hopen : Open { e with self.nread := 0, nread := 0 } :=
    ⟨h.marks, Nat.zero_le _, h.length, h.clean, h.delivered⟩
  unfold chunkSizeAlmostDone
  simp only [all_assert, all_strict, all_ite]
  refine ⟨hchunked, fun _ => ⟨fun _ =>
    Open.advance (hopen.parser _ (by exact h.length)) rfl trivial, fun hmore => ?_⟩,
    fun _ => h.delivered⟩
  have hdata := Open.consumed (hopen.parser _ (by exact h.length)) [ch]
  have hlt := Nat.lt_of_le_of_ne h.length hlength
  obtain ⟨hfield, hvalue, hurl, -⟩ := hdata.marks
  exact ⟨⟨hfield, hvalue, hurl⟩, ⟨hchunked, Nat.pos_of_ne_zero hmore, hlt⟩, hdata.size,
    hdata.length, hdata.clean, hdata.delivered⟩

/-- Bytes of a chunk. -/
theorem inv_chunkData (h : InBody e) (hs : e.self.state = .chunkData)
    (hchunked : e.self.flags.chunked = true) (hcounted : Counted e.self.toParser) :
    (chunkData e ch rest).All Inv Delivered := by
  have htaken := h.takeBody ch rest
  unfold chunkData
  simp only [all_assert, Bool.and_eq_true, all_next]
  refine ⟨⟨hchunked, lengthKnown_of_counted hcounted⟩, ?_⟩
  split
  · rename_i hzero
    exact InBody.inv (htaken.parser _ htaken.length) Iff.rfl ⟨hchunked, hzero⟩
  · rename_i hmore
    refine htaken.inv ?_ ?_
    · rw [takeBody_toParser]
      simp only [hs]
      rfl
    · have hpos := Nat.pos_of_ne_zero hmore
      have hlt := Nat.lt_of_le_of_lt (Nat.sub_le e.self.contentLength
        (min e.self.contentLength (ch :: rest).length)) hcounted.2
      rw [takeBody_toParser] at hpos ⊢
      simp only [hs]
      exact ⟨hchunked, hpos, hlt⟩

/-- The carriage return behind a chunk. -/
theorem inv_chunkDataAlmostDone (h : InBody e) (hchunked : e.self.flags.chunked = true)
    (hzero : e.self.contentLength = 0) : (chunkDataAlmostDone e ch).All Inv Delivered := by
  unfold chunkDataAlmostDone
  simp only [all_assert, all_strict, Bool.and_eq_true, decide_eq_true_eq]
  refine ⟨⟨hchunked, hzero⟩, fun _ => ?_, fun _ => h.delivered⟩
  obtain ⟨hopen, hparser⟩ :=
    InBody.flush (h.parser { e.self.toParser with state := .chunkDataDone } h.length)
  refine hopen.advance ?_ ?_
  · exact congrArg (fun p => State.plain p.state) hparser
  · rw [hparser]
    exact hchunked

/-- The line feed behind a chunk; the next size follows. -/
theorem inv_chunkDataDone (h : Open e) (hchunked : e.self.flags.chunked = true) :
    (chunkDataDone e ch).All Inv Delivered := by
  have hopen : Open { e with self.nread := 0, nread := 0 } :=
    ⟨h.marks, Nat.zero_le _, h.length, h.clean, h.delivered⟩
  unfold chunkDataDone
  simp only [all_assert, all_strict]
  exact ⟨hchunked, fun _ => hopen.goto rfl ⟨hchunked, rfl⟩, fun _ => h.delivered⟩

end

/-! ## §11. The loop. -/

section
variable {routed : HttpMethod → List Char → Bool} {buffer : Nat} {e : Exec} {ch : Char}
  {rest : List Char}

/-- **One round keeps the invariant**, whatever the byte. -/
theorem inv_switch (h : Inv e) (hnul : e.self.state.parsingHeader = true → ch ≠ '\x00') {n : Nat}
    (hn : n ≤ maxHeaderSize) (hfirst : e.self.state = .chunkSizeStart → n = 1) :
    (switch routed buffer { e with nread := n } ch rest).All Inv Delivered := by
  have hmarks := h.fit
  have hready := h.ready
  have hplain : e.self.state.plain = true → Open { e with nread := n } :=
    fun hs => (h.opened hs).recount hn
  have hheld : ∀ {M : Marks → Prop}, M e.marks → Holding M { e with nread := n } :=
    fun hM => ⟨hM, hn, h.length, h.clean, h.delivered⟩
  unfold switch
  cases hs : e.self.state with
  | dead =>
      rw [hs] at hplain
      simp only [all_ite, all_fail]
      exact ⟨fun _ => (hplain rfl).advance (by rw [hs]; rfl) (by rw [hs]; trivial),
        fun _ => h.delivered⟩
  | startReq => exact inv_startReq (hplain (by rw [hs]; rfl)) hs
  | reqMethod => exact inv_reqMethod (hplain (by rw [hs]; rfl)) hs
  | reqSpacesBeforeUrl => exact inv_reqSpacesBeforeUrl (hplain (by rw [hs]; rfl)) hs
  | reqSchema | reqSchemaSlash | reqSchemaSlashSlash | reqServerStart =>
      rw [hs] at hmarks
      exact inv_urlPrefix (hheld hmarks)
  | reqServer | reqServerWithAt | reqPath | reqQueryStringStart | reqQueryString =>
      rw [hs] at hmarks
      exact inv_urlRest (hheld hmarks)
  | reqHttpStart => exact inv_reqHttpStart (hplain (by rw [hs]; rfl)) hs
  | reqHttpH | reqHttpHT | reqHttpHTT | reqHttpI | reqHttpIC | reqHttpHTTP =>
      exact inv_versionLetter (hplain (by rw [hs]; rfl)) rfl trivial
  | reqHttpMajor => exact inv_reqHttpMajor (hplain (by rw [hs]; rfl))
  | reqHttpDot => exact inv_reqHttpDot (hplain (by rw [hs]; rfl))
  | reqHttpMinor => exact inv_reqHttpMinor (hplain (by rw [hs]; rfl))
  | reqHttpEnd => exact inv_reqHttpEnd (hplain (by rw [hs]; rfl))
  | reqLineAlmostDone => exact inv_reqLineAlmostDone (hplain (by rw [hs]; rfl))
  | headerFieldStart => exact inv_headerFieldStart (hplain (by rw [hs]; rfl))
  | headerField =>
      rw [hs] at hmarks hready
      exact inv_headerField (hheld hmarks) hs hready
  | headerValueDiscardWs =>
      rw [hs] at hready
      exact inv_headerValueDiscardWs (hplain (by rw [hs]; rfl)) hs hready (hnul (by rw [hs]; rfl))
  | headerValueDiscardWsAlmostDone =>
      rw [hs] at hready
      exact inv_versionLetter (hplain (by rw [hs]; rfl)) rfl hready
  | headerValueDiscardLws =>
      rw [hs] at hready
      exact inv_headerValueDiscardLws (hplain (by rw [hs]; rfl)) hready
  | headerValueStart =>
      rw [hs] at hready
      exact hready.elim
  | headerValue =>
      rw [hs] at hmarks hready
      exact inv_headerValue (hheld hmarks) hs hready
  | headerValueLws =>
      rw [hs] at hready
      exact inv_headerValueLws (hplain (by rw [hs]; rfl)) hready (hnul (by rw [hs]; rfl))
  | headerAlmostDone =>
      rw [hs] at hready
      exact inv_headerAlmostDone (hplain (by rw [hs]; rfl)) hready
  | chunkSizeStart =>
      rw [hs] at hready
      exact inv_chunkSizeStart (hplain (by rw [hs]; rfl)) hready.1 (hfirst hs)
  | chunkSize =>
      rw [hs] at hready
      exact inv_chunkSize (hplain (by rw [hs]; rfl)) hs hready.1 hready.2
  | chunkParameters =>
      rw [hs] at hready
      exact inv_chunkParameters (hplain (by rw [hs]; rfl)) hs hready.1 hready.2
  | chunkSizeAlmostDone =>
      rw [hs] at hready
      exact inv_chunkSizeAlmostDone (hplain (by rw [hs]; rfl)) hready.1 hready.2
  | headersAlmostDone => exact inv_headersAlmostDone (hplain (by rw [hs]; rfl)) hs
  | headersDone => exact inv_headersDone (hplain (by rw [hs]; rfl)) hs
  | chunkData =>
      rw [hs] at hmarks hready
      exact inv_chunkData (hheld hmarks) hs hready.1 hready.2
  | chunkDataAlmostDone =>
      rw [hs] at hmarks hready
      exact inv_chunkDataAlmostDone (hheld hmarks) hready.1 hready.2
  | chunkDataDone =>
      rw [hs] at hready
      exact inv_chunkDataDone (hplain (by rw [hs]; rfl)) hready
  | bodyIdentity =>
      rw [hs] at hmarks hready
      exact inv_bodyIdentity (hheld hmarks) hs hready
  | messageDone => exact inv_messageDone (hplain (by rw [hs]; rfl)) hs

/-- **One round keeps the invariant**, whatever the byte: no assertion fails, and what is delivered
    is well formed. -/
theorem inv_round (h : Inv e) (hnul : e.self.state.parsingHeader = true → ch ≠ '\x00') :
    (round routed buffer e ch rest).All Inv Delivered := by
  unfold round
  simp only [all_ite, all_counting]
  refine ⟨fun _ => ⟨fun hsize => inv_switch h hnul hsize fun hs => ?_, fun _ => h.delivered⟩,
    fun hbody => inv_switch h hnul h.size fun hs => ?_⟩
  · have hready := h.ready
    rw [hs] at hready
    rw [hready.2]
  · rw [hs] at hbody
    exact absurd rfl hbody

end

/-- How the loop may end. -/
def Outcome.Sound : Outcome → Prop
  | .ended e => Inv e
  | .left e _ => Inv e ∧ e.self.nread = e.nread ∧ e.self.state.plain = true
  | .failed ds => Delivered ds
  | .aborted => False

/-- What a parser is between two buffers. -/
def Resting (h : HTTPParser) : Prop :=
  Inv { self := h, nread := h.nread, marks := startMarks h.state }

/-- What `feed` may leave behind. -/
def Fed.Sound : Fed → Prop
  | .ok h ds => Resting h ∧ Delivered ds
  | .closed ds => Delivered ds
  | .aborted => False

section
variable {routed : HttpMethod → List Char → Bool} {buffer : Nat}

/-- The loop keeps the invariant. -/
theorem run_sound (data : List Char) {e : Exec} {skip : Nat} (h : Inv e)
    (hnul : '\x00' ∉ data) : (run routed buffer e skip data).Sound := by
  induction data generalizing e skip with
  | nil => exact h
  | cons ch rest ih =>
      have hne : ch ≠ '\x00' := fun heq => hnul (heq ▸ List.mem_cons_self)
      have hrest : '\x00' ∉ rest := fun hmem => hnul (List.mem_cons_of_mem _ hmem)
      cases skip with
      | succ skip => exact ih h hrest
      | zero =>
          have hround : (round routed buffer e ch rest).All Inv Delivered :=
            inv_round h fun _ => hne
          unfold run
          cases hstep : round routed buffer e ch rest with
          | next e' more =>
              rw [hstep] at hround
              exact ih hround hrest
          | leave e' =>
              rw [hstep] at hround
              exact hround
          | failed err ds =>
              rw [hstep] at hround
              exact hround
          | aborted =>
              rw [hstep] at hround
              exact hround

theorem fitAt_startMarks (s : State) : FitAt (startMarks s) s := by
  cases s <;> simp [FitAt, startMarks, State.inUrl, Marks.Bare, Marks.OnField, Marks.OnValue,
    Marks.OnUrl, Marks.OnBody]

/-- Once the marks are dropped, the parser may rest. -/
theorem Holding.resting {M : Marks → Prop} {e : Exec} (h : Holding M e)
    (hready : ReadyAt e.self.toParser e.nread e.self.state) :
    Resting { e.self with nread := e.nread } := by
  refine ⟨fitAt_startMarks _, ?_, h.size, h.length,
    ⟨h.clean.req, h.clean.field, h.clean.value, ?_, ?_, ?_⟩, fun req hreq => by simp at hreq⟩
  · cases hs : e.self.state <;> simp only [hs, ReadyAt, Counted] at hready ⊢ <;> exact hready
  · show UrlText (Option.getD (if e.self.state.inUrl then some [] else none) [])
    split <;> simp [UrlText]
  · show NameText (Option.getD (if e.self.state = .headerField then some [] else none) [])
    split <;> simp [NameText]
  · show ValueText (Option.getD (if e.self.state = .headerValue then some [] else none) [])
    split <;> simp [ValueText]

/-- The callbacks at the end of the buffer, where a mark may be set. -/
def flushed (routed : HttpMethod → List Char → Bool) (e : Exec) : Step :=
  flushUrl routed (flushHeaderValue (flushHeaderField e)) fun e => .next (flushBody e) 0

theorem flushHeaderField_none {e : Exec} (h : e.marks.headerField = none) :
    flushHeaderField e = e := by
  simp only [flushHeaderField, h]

theorem flushHeaderValue_none {e : Exec} (h : e.marks.headerValue = none) :
    flushHeaderValue e = e := by
  simp only [flushHeaderValue, h]

theorem flushBody_none {e : Exec} (h : e.marks.body = none) : flushBody e = e := by
  simp only [flushBody, h]

/-- A parser that rests where `e` does. -/
def RestsAs (e e' : Exec) : Prop :=
  Open e' ∧ e'.self.toParser = e.self.toParser ∧ e'.nread = e.nread

theorem RestsAs.resting {e e' : Exec} (h : RestsAs e e')
    (hready : ReadyAt e.self.toParser e.nread e.self.state) :
    Resting { e'.self with nread := e'.nread } := by
  obtain ⟨hopen, hparser, hnread⟩ := h
  exact hopen.resting (by rw [hparser, hnread]; exact hready)

/-- No two marks are set at a time. -/
theorem FitAt.cases {m : Marks} {s : State} (h : FitAt m s) :
    m.OnField ∨ m.OnValue ∨ m.OnUrl ∨ m.OnBody := by
  have hbare : m.Bare → m.OnBody := fun hm => ⟨hm.1, hm.2.1, hm.2.2.1⟩
  cases s <;> first
    | exact .inl h
    | exact .inr (.inl h)
    | exact .inr (.inr (.inl h))
    | exact .inr (.inr (.inr h))
    | exact .inr (.inr (.inr (hbare h)))

/-- Whichever mark is set, its callback is the one that is called. -/
theorem flushed_all {e : Exec} (h : Inv e) :
    e.marks.count ≤ 1 ∧ (flushed routed e).All (RestsAs e) Delivered := by
  have hheld : ∀ {M : Marks → Prop}, M e.marks → Holding M e :=
    fun hM => ⟨hM, h.size, h.length, h.clean, h.delivered⟩
  have hbare : ∀ {e' : Exec}, RestsAs e e' →
      (flushUrl routed e' fun e => .next (flushBody e) 0).All (RestsAs e) Delivered := by
    intro e' hrest
    obtain ⟨-, -, hurl, hbody⟩ := hrest.1.marks
    simp only [flushUrl, hurl, all_next, flushBody_none hbody]
    exact hrest
  unfold flushed
  obtain hm | hm | hm | hm := h.fit.cases
  · have hin := hheld hm
    obtain ⟨hsome, hvalue, hurl, hbody⟩ := hm
    obtain ⟨name, hname⟩ := Option.isSome_iff_exists.mp hsome
    refine ⟨by simp [Marks.count, hname, hvalue, hurl, hbody], ?_⟩
    obtain ⟨hopen, hparser⟩ := InField.flush hin
    rw [flushHeaderValue_none hopen.marks.2.1]
    exact hbare ⟨hopen, hparser, by simp only [flushHeaderField, hname]⟩
  · have hin := hheld hm
    obtain ⟨hfield, hsome, hurl, hbody⟩ := hm
    obtain ⟨value, hvalue⟩ := Option.isSome_iff_exists.mp hsome
    refine ⟨by simp [Marks.count, hfield, hvalue, hurl, hbody], ?_⟩
    rw [flushHeaderField_none hfield]
    obtain ⟨hopen, hparser⟩ := InValue.flush hin
    exact hbare ⟨hopen, hparser, by simp only [flushHeaderValue, hvalue]⟩
  · have hin := hheld hm
    obtain ⟨hfield, hvalue, hsome, hbody⟩ := hm
    obtain ⟨url, hurl⟩ := Option.isSome_iff_exists.mp hsome
    refine ⟨by simp [Marks.count, hfield, hvalue, hurl, hbody], ?_⟩
    rw [flushHeaderField_none hfield, flushHeaderValue_none hvalue]
    refine InUrl.flush hin fun e' hopen hparser hnread => ?_
    rw [all_next, flushBody_none hopen.marks.2.2.2]
    exact ⟨hopen, hparser, hnread⟩
  · have hin := hheld hm
    obtain ⟨hfield, hvalue, hurl⟩ := hm
    refine ⟨?_, ?_⟩
    · cases hbody : e.marks.body <;> simp [Marks.count, hfield, hvalue, hurl, hbody]
    · rw [flushHeaderField_none hfield, flushHeaderValue_none hvalue]
      simp only [flushUrl, hurl, all_next]
      obtain ⟨hopen, hparser⟩ := InBody.flush hin
      refine ⟨hopen, hparser, ?_⟩
      unfold flushBody
      split <;> rfl

/-- The end of a read hands over what the marks have.  What it may deliver is a URL without
    a route. -/
theorem finish_sound {e : Exec} (h : Inv e) : (finish routed e).Sound := by
  have hall : e.marks.count ≤ 1 ∧ (flushed routed e).All (RestsAs e) Delivered := flushed_all h
  obtain ⟨hcount, hall⟩ := hall
  unfold flushed at hall
  unfold finish
  rw [if_pos hcount]
  dsimp only
  generalize flushUrl routed (flushHeaderValue (flushHeaderField e)) _ = step at hall
  cases step with
  | next e' more => exact ⟨hall.resting h.ready, hall.1.delivered⟩
  | failed err ds => exact hall
  | leave e' =>
      obtain ⟨hrest, hnread, -⟩ := hall
      have hself := hrest.resting h.ready
      rw [← hnread] at hself
      exact ⟨hself, hrest.1.delivered⟩
  | aborted => exact hall

/-- **A read keeps the parser sound.** -/
theorem feed_sound {h : HTTPParser} {data : List Char} (hrest : Resting h) (hnul : '\x00' ∉ data) :
    (feed routed buffer h data).Sound := by
  have hrun : (run routed buffer { self := h, nread := h.nread, marks := startMarks h.state } 0
      data).Sound := run_sound data hrest hnul
  have hnone : Delivered [] := fun req hreq => by simp at hreq
  unfold feed
  split
  · exact ⟨hrest, hnone⟩
  · split
    · rename_i e he
      rw [he] at hrun
      exact finish_sound hrun
    · rename_i e unread he
      rw [he] at hrun
      obtain ⟨hinv, hnread, -⟩ := hrun
      split
      · have hheld : Holding (fun _ => True) e :=
          ⟨trivial, hinv.size, hinv.length, hinv.clean, hinv.delivered⟩
        have hself := hheld.resting hinv.ready
        rw [← hnread] at hself
        exact ⟨hself, hinv.delivered⟩
      · exact hinv.delivered
    · rename_i ds he
      rw [he] at hrun
      exact hrun
    · rename_i he
      rw [he] at hrun
      exact hrun

/-- What is delivered before and what is delivered behind are both well formed. -/
theorem Delivered.append {ds ds' : List Delivery} (h : Delivered ds) (h' : Delivered ds') :
    Delivered (ds ++ ds') := by
  intro req hmem
  simp only [List.mem_append] at hmem
  obtain (hmem | hmem) | (hmem | hmem) := hmem
  · exact h req (.inl hmem)
  · exact h' req (.inl hmem)
  · exact h req (.inr hmem)
  · exact h' req (.inr hmem)

/-- Reads are sound one after the other if each of them is. -/
theorem Fed.Sound.andThen {f : Fed} {k : HTTPParser → Fed} (hf : f.Sound)
    (hk : ∀ h, Resting h → (k h).Sound) : (f.andThen k).Sound := by
  cases f with
  | closed ds => exact hf
  | aborted => exact hf
  | ok h ds =>
      obtain ⟨hrest, hds⟩ := hf
      have hsound := hk h hrest
      unfold Fed.andThen
      dsimp only
      cases hnext : k h with
      | ok h' ds' =>
          rw [hnext] at hsound
          exact ⟨hsound.1, hds.append hsound.2⟩
      | closed ds' =>
          rw [hnext] at hsound
          exact hds.append hsound
      | aborted =>
          rw [hnext] at hsound
          exact hsound

/-- Along any reads the parser stays sound; the induction is on their list. -/
theorem receive_sound (chunks : List (List Char)) {h : HTTPParser} (hrest : Resting h)
    (hnul : ∀ data ∈ chunks, '\x00' ∉ data) : (receive routed buffer h chunks).Sound := by
  induction chunks generalizing h with
  | nil => exact ⟨hrest, fun req hreq => by simp at hreq⟩
  | cons data more ih =>
      refine (feed_sound hrest (hnul data List.mem_cons_self)).andThen fun h' hrest' => ?_
      exact ih hrest' fun data' hmem => hnul data' (List.mem_cons_of_mem _ hmem)

/-- A new connection. -/
theorem resting_new : Resting {} :=
  ⟨⟨rfl, rfl, rfl, rfl⟩, trivial, Nat.zero_le _, Nat.zero_le _,
    ⟨wellFormed_empty, by simp [NameText], by simp [ValueText],
      by simp [startMarks, UrlText, State.inUrl], by simp [startMarks, NameText],
      by simp [startMarks, ValueText]⟩,
    fun req hreq => by simp at hreq⟩

end

/-- **Whatever comes over a connection**, in whatever pieces: as long as no byte is NUL,
    no assertion fails, every request that is handed on is well formed, and the parser's
    count of header bytes (`nread`, which begins anew before the trailers of a chunked
    body) is not above `CROW_HTTP_MAX_HEADER_SIZE` between two reads. -/
theorem received_requests_wellFormed (routed : HttpMethod → List Char → Bool) (buffer : Nat)
    (chunks : List (List Char)) (hnul : ∀ data ∈ chunks, '\x00' ∉ data) :
    ∃ ds, Delivered ds ∧
      (receive routed buffer {} chunks = .closed ds
        ∨ ∃ h, receive routed buffer {} chunks = .ok h ds ∧ h.nread ≤ maxHeaderSize) := by
  have hsound : (receive routed buffer {} chunks).Sound := receive_sound chunks resting_new hnul
  cases hfed : receive routed buffer {} chunks with
  | ok h ds =>
      rw [hfed] at hsound
      exact ⟨ds, hsound.2, .inr ⟨h, rfl, hsound.1.size⟩⟩
  | closed ds =>
      rw [hfed] at hsound
      exact ⟨ds, hsound, .inl rfl⟩
  | aborted =>
      rw [hfed] at hsound
      exact hsound.elim

/-- A URL that is cut in two. -/
theorem received_requests_wellFormed_two_reads :
    (∀ data ∈ ["GET /order".toList, "s/7 HTTP/1.1\r\nHost: x\r\n\r\n".toList], '\x00' ∉ data)
      ∧ ∃ ds, Delivered ds ∧
        (receive (fun _ _ => true) 1 {}
            ["GET /order".toList, "s/7 HTTP/1.1\r\nHost: x\r\n\r\n".toList] = .closed ds
          ∨ ∃ h, receive (fun _ _ => true) 1 {}
              ["GET /order".toList, "s/7 HTTP/1.1\r\nHost: x\r\n\r\n".toList] = .ok h ds
            ∧ h.nread ≤ maxHeaderSize) :=
  ⟨by decide, received_requests_wellFormed _ _ _ (by decide)⟩

/-- A NUL passes for a space in front of the value of `Connection`, and the character
    behind it runs into an assertion. -/
theorem nul_aborts :
    receive (fun _ _ => true) 1 {} ["GET / HTTP/1.1\r\nConnection: \x00k".toList] = .aborted := by
  decide +kernel

end OrderApi.Crow.HttpParser
