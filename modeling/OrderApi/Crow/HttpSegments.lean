/-
  OrderApi.Crow.HttpSegments
  ──────────────────────────
  **HOW A REQUEST IS CUT INTO READS DOES NOT MATTER**, but for its URL.

  Where a buffer ends, `http_parser_execute` hands what its marks hold to the callbacks,
  and the next buffer starts with fresh marks.  `settle` is that change; two moments
  that settle alike (`Sim`) go through the same bytes alike, whatever the state:

    • in front of and in the URL, nothing but the stored number of bytes may differ;
    • behind it, names, values and bodies may be held by a mark on the one side and
      have been handed over on the other.

  `reads_do_not_matter` is the result: a request that is cut anywhere but in its URL is
  received as if it came in one piece.  In the URL it is not so: what comes before the
  cut is looked up in the router by itself, and `qs_point` is taken from a null pointer.
-/
import OrderApi.Crow.HttpBytes

namespace OrderApi.Crow.HttpParser

/-! ## §1. Where a buffer ends. -/

/-- What the next buffer starts from.  In the URL the callback decides whether there is
    a next buffer at all, and the marks stay. -/
def settle (e : Exec) : Exec :=
  if e.self.state.inUrl then { e with self.nread := e.nread }
  else
    { flushBody (flushHeaderValue (flushHeaderField e)) with
      self.nread := e.nread, marks := startMarks e.self.state }

/-- Another stored number of bytes. -/
def Exec.twin (e : Exec) (n : Nat) : Exec := { e with self.nread := n }

/-- Also another `url_start_mark`. -/
def Exec.alike (e : Exec) (n : Nat) (u : Option Nat) : Exec :=
  { e with self.nread := n, marks.urlStart := u }

section
variable {e : Exec} {n : Nat} {u : Option Nat}

/-- The name is handed over without a look at the stored number of bytes or at the URL's mark. -/
theorem flushHeaderField_alike :
    flushHeaderField (e.alike n u) = (flushHeaderField e).alike n u := by
  unfold flushHeaderField
  cases hmark : e.marks.headerField with
  | none => simp only [Exec.alike, hmark]
  | some data =>
      simp only [Exec.alike, hmark, onHeaderField]
      split
      · rfl
      · split <;> rfl

/-- So is the value. -/
theorem flushHeaderValue_alike :
    flushHeaderValue (e.alike n u) = (flushHeaderValue e).alike n u := by
  unfold flushHeaderValue
  cases hmark : e.marks.headerValue with
  | none => simp only [Exec.alike, hmark]
  | some data =>
      simp only [Exec.alike, hmark, onHeaderValue]
      split <;> rfl

theorem flushBody_alike : flushBody (e.alike n u) = (flushBody e).alike n u := by
  unfold flushBody
  cases hmark : e.marks.body with
  | none => simp only [Exec.alike, hmark]
  | some data => simp only [Exec.alike, hmark, onBody]

/-- Behind the URL, all that a mark has goes to its callback at the end of a buffer. -/
theorem settle_outside (hs : e.self.state.inUrl = false) :
    settle e = { flushBody (flushHeaderValue (flushHeaderField e)) with
      self.nread := e.nread, marks := startMarks e.self.state } :=
  if_neg (by rw [hs]; decide)

/-- Neither number is seen by what comes later. -/
theorem settle_alike (hs : e.self.state.inUrl = false) : settle (e.alike n u) = settle e := by
  have hs' : (e.alike n u).self.state.inUrl = false := hs
  rw [settle_outside hs, settle_outside hs', flushHeaderField_alike, flushHeaderValue_alike,
    flushBody_alike]
  rfl

/-- The next buffer starts from the counter of the loop, not from the stored one. -/
theorem settle_twin : settle (e.twin n) = settle e := by
  cases hs : e.self.state.inUrl with
  | false => exact settle_alike hs
  | true =>
      have hs' : (e.twin n).self.state.inUrl = true := hs
      unfold settle
      rw [if_pos hs, if_pos hs']
      rfl

end

/-- A round, settled. -/
def Step.settled : Step → Step
  | .next e n => .next (settle e) n
  | .leave e => .leave (settle e)
  | .failed err ds => .failed err ds
  | .aborted => .aborted

/-! ## §2. Behind the URL, between the marks. -/

section
variable {e : Exec} {ch c : Char} {rest : List Char} {n : Nat} {u : Option Nat}

theorem advance_alike (hs : e.self.state.inUrl = false) :
    ((e.alike n u).advance ch).settled = (e.advance ch).settled :=
  congrArg (Step.next · 0)
    (settle_alike (e := { e with marks := e.marks.consume [ch] }) (u := u.map (· + 1)) hs)

/-- `STRICT_CHECK` fails on both sides or goes on on both. -/
theorem strict_settled {k k' : Step} (h : k.settled = k'.settled) :
    ((e.alike n u).strict ch c k).settled = (e.strict ch c k').settled := by
  unfold Exec.strict
  split
  · rfl
  · exact h

/-- So does an assertion. -/
theorem assert_settled {b : Bool} {k k' : Step} (h : k.settled = k'.settled) :
    (Exec.assert b k).settled = (Exec.assert b k').settled := by
  unfold Exec.assert
  split
  · exact h
  · rfl

/-- A test comes out alike, and so does what follows. -/
theorem ite_settled {p p' : Prop} [Decidable p] [Decidable p'] (hp : p ↔ p') {s s' t t' : Step}
    (hs : s.settled = s'.settled) (ht : t.settled = t'.settled) :
    (if p then s else t).settled = (if p' then s' else t').settled := by
  by_cases h : p
  · rw [if_pos h, if_pos (hp.mp h)]
    exact hs
  · rw [if_neg h, if_neg fun h' => h (hp.mpr h')]
    exact ht

theorem reqHttpStart_alike (hs : e.self.state.inUrl = false) :
    (reqHttpStart (e.alike n u) ch).settled = (reqHttpStart e ch).settled :=
  ite_settled Iff.rfl (advance_alike hs)
    (ite_settled Iff.rfl (advance_alike (e := e.goto .reqHttpH) rfl)
      (ite_settled Iff.rfl (advance_alike (e := e.goto .reqHttpI) rfl) rfl))

theorem versionLetter_alike {s : State} (hs : s.inUrl = false) :
    (versionLetter c s (e.alike n u) ch).settled = (versionLetter c s e ch).settled :=
  strict_settled (advance_alike (e := e.goto s) hs)

theorem reqHttpMajor_alike :
    (reqHttpMajor (e.alike n u) ch).settled = (reqHttpMajor e ch).settled := by
  unfold reqHttpMajor
  split
  · rfl
  · exact advance_alike (e := { e.goto .reqHttpDot with self.httpMajor := digit ch }) rfl

theorem reqHttpDot_alike : (reqHttpDot (e.alike n u) ch).settled = (reqHttpDot e ch).settled := by
  unfold reqHttpDot
  split
  · rfl
  · exact advance_alike (e := e.goto .reqHttpMinor) rfl

theorem reqHttpMinor_alike :
    (reqHttpMinor (e.alike n u) ch).settled = (reqHttpMinor e ch).settled := by
  unfold reqHttpMinor
  split
  · rfl
  · exact advance_alike (e := { e.goto .reqHttpEnd with self.httpMinor := digit ch }) rfl

theorem reqHttpEnd_alike : (reqHttpEnd (e.alike n u) ch).settled = (reqHttpEnd e ch).settled := by
  unfold reqHttpEnd
  split
  · exact advance_alike (e := e.goto .reqLineAlmostDone) rfl
  · split
    · exact advance_alike (e := e.goto .headerFieldStart) rfl
    · rfl

theorem reqLineAlmostDone_alike :
    (reqLineAlmostDone (e.alike n u) ch).settled = (reqLineAlmostDone e ch).settled := by
  unfold reqLineAlmostDone
  split
  · rfl
  · exact advance_alike (e := e.goto .headerFieldStart) rfl

theorem headerAlmostDone_alike :
    (headerAlmostDone (e.alike n u) ch).settled = (headerAlmostDone e ch).settled := by
  unfold headerAlmostDone
  split
  · rfl
  · exact advance_alike (e := e.goto .headerValueLws) rfl

/-- `on_message_complete` hands the request on as it is. -/
theorem messageComplete_alike :
    messageComplete (e.alike n u) = (messageComplete e).alike n u := by
  by_cases h : e.self.req.takesUpgrade = true
  · have h' : (e.alike n u).self.req.takesUpgrade = true := h
    simp only [messageComplete, if_pos h, if_pos h']
    rfl
  · have h' : ¬ (e.alike n u).self.req.takesUpgrade = true := h
    simp only [messageComplete, if_neg h, if_neg h']
    rfl

/-- A request does not end within its URL. -/
theorem messageComplete_outside (hs : e.self.state.inUrl = false) :
    (messageComplete e).self.state.inUrl = false := by
  obtain h | h := messageComplete_state e
  · rw [h]
    exact hs
  · rw [h]
    rfl

theorem messageComplete_advance_alike (hs : e.self.state.inUrl = false) :
    ((messageComplete (e.alike n u)).advance ch).settled
      = ((messageComplete e).advance ch).settled := by
  rw [messageComplete_alike]
  exact advance_alike (messageComplete_outside hs)

/-- The end of the header does not look at the URL's mark either. -/
theorem headersDone_alike (hs : e.self.state.inUrl = false) :
    (headersDone (e.alike n u) ch).settled = (headersDone e ch).settled := by
  have hzero : ({ e.alike n u with self.nread := 0, nread := 0 } : Exec)
      = ({ e with self.nread := 0, nread := 0 } : Exec).alike 0 u := rfl
  unfold headersDone
  rw [hzero]
  refine strict_settled (ite_settled Iff.rfl ?_ (ite_settled Iff.rfl ?_ (ite_settled Iff.rfl rfl
    (ite_settled Iff.rfl (messageComplete_advance_alike hs) ?_))))
  · rw [messageComplete_alike]
    exact congrArg Step.leave (settle_alike (messageComplete_outside hs))
  · exact advance_alike (e := { e with self.nread := 0, nread := 0 }.goto .chunkSizeStart) rfl
  · exact advance_alike (e := { e with self.nread := 0, nread := 0 }.goto .bodyIdentity) rfl

/-- `on_headers_complete` takes the number of bytes along. -/
theorem onHeadersComplete_alike (h : HTTPParser) :
    onHeadersComplete { h with nread := n } = { onHeadersComplete h with nread := n } := by
  unfold onHeadersComplete
  split <;> rfl

/-- The end of the trailers does not look at the URL's mark. -/
theorem headersAlmostDone_alike (hs : e.self.state.inUrl = false) :
    (headersAlmostDone (e.alike n u) ch).settled = (headersAlmostDone e ch).settled := by
  refine strict_settled (ite_settled Iff.rfl (messageComplete_advance_alike hs)
    (ite_settled Iff.rfl rfl ?_))
  let h : HTTPParser := { e.self with
    state := .headersDone, upgrade := e.self.flags.upgrade || e.self.method = .connect }
  have hself := congrArg (fun self => ({ e with self, marks.urlStart := u } : Exec))
    (onHeadersComplete_alike (n := n) h)
  refine (congrArg (fun e => (headersDone e ch).settled) hself).trans ?_
  refine headersDone_alike (e := { e with self := onHeadersComplete h }) ?_
  rw [onHeadersComplete_toParser]
  rfl

theorem headerFieldStart_alike : (headerFieldStart (e.alike n u) ch).settled
      = (headerFieldStart e ch).settled := by
  refine ite_settled Iff.rfl (advance_alike (e := e.goto .headersAlmostDone) rfl)
    (ite_settled Iff.rfl (headersAlmostDone_alike (e := e.goto .headersAlmostDone) rfl) ?_)
  cases token ch with
  | none => rfl
  | some c =>
      exact advance_alike (e := { markHeaderField e with
        self.index := 0, self.state := .headerField, self.headerState := firstHeaderState c }) rfl

/-- The first character of a value is picked without the stored number of bytes. -/
theorem valueStart_nread (p : Parser) :
    valueStart { p with nread := n } ch rest
      = (valueStart p ch rest).map fun q => { q with nread := n } := by
  obtain ⟨flags, state, hs⟩ := p
  cases hs with
  | contentLength =>
      unfold valueStart
      dsimp only
      split
      · rfl
      · split <;> rfl
  | _ => rfl

/-- What the first character of a value is picked for, when it may be one. -/
theorem headerValueStart_ok {q : Parser}
    (h : valueStart { e.self.toParser with state := .headerValue, index := 0 } ch rest = .ok q) :
    headerValueStart e ch rest
      = ({ markHeaderValue e with self.toParser := q } : Exec).advance ch := by
  unfold headerValueStart
  simp only [markHeaderValue, h]

/-- And when it may not. -/
theorem headerValueStart_error {err : Errno}
    (h : valueStart { e.self.toParser with state := .headerValue, index := 0 } ch rest
      = .error err) :
    headerValueStart e ch rest = e.fail err := by
  unfold headerValueStart
  simp only [markHeaderValue, h]
  rfl

/-- A value begins. -/
theorem headerValueStart_alike :
    (headerValueStart (e.alike n u) ch rest).settled = (headerValueStart e ch rest).settled := by
  let p : Parser := { e.self.toParser with state := .headerValue, index := 0 }
  have hstart : valueStart { p with nread := n } ch rest
      = (valueStart p ch rest).map fun q => { q with nread := n } := valueStart_nread p
  cases hq : valueStart p ch rest with
  | error err =>
      rw [hq] at hstart
      rw [headerValueStart_error (e := e.alike n u) hstart, headerValueStart_error hq]
      rfl
  | ok q =>
      rw [hq] at hstart
      rw [headerValueStart_ok (e := e.alike n u) hstart, headerValueStart_ok hq]
      refine advance_alike (e := { markHeaderValue e with self.toParser := q }) ?_
      rw [valueStart_state hq]
      rfl

/-- Blanks in front of a value, or the value itself. -/
theorem headerValueDiscardWs_alike (hs : e.self.state.inUrl = false) :
    (headerValueDiscardWs (e.alike n u) ch rest).settled
      = (headerValueDiscardWs e ch rest).settled :=
  ite_settled Iff.rfl (advance_alike hs)
    (ite_settled Iff.rfl (advance_alike (e := e.goto .headerValueDiscardWsAlmostDone) rfl)
      (ite_settled Iff.rfl (advance_alike (e := e.goto .headerValueDiscardLws) rfl)
        headerValueStart_alike))

/-- A value on the next line. -/
theorem headerValueLws_alike :
    (headerValueLws (e.alike n u) ch rest).settled = (headerValueLws e ch rest).settled :=
  ite_settled Iff.rfl
    (headerValueStart_alike (e := { e with
      self.headerState :=
        if e.self.headerState = .contentLengthNum then .contentLengthWs else e.self.headerState }))
    (headerFieldStart_alike (e := { e with
      self.flags := finishedFlags e.self.headerState e.self.flags
      self.state := .headerFieldStart }))

theorem headerValueDiscardLws_alike :
    (headerValueDiscardLws (e.alike n u) ch).settled = (headerValueDiscardLws e ch).settled := by
  refine ite_settled Iff.rfl (advance_alike (e := e.goto .headerValueDiscardWs) rfl) ?_
  have hflush : flushHeaderValue ((markHeaderValue (e.alike n u)).goto .headerFieldStart)
      = (flushHeaderValue ((markHeaderValue e).goto .headerFieldStart)).alike n u :=
    flushHeaderValue_alike (e := (markHeaderValue e).goto .headerFieldStart)
  rw [hflush]
  exact headerFieldStart_alike

/-- The first digit of a size. -/
theorem chunkSizeStart_alike :
    (chunkSizeStart (e.alike n u) ch).settled = (chunkSizeStart e ch).settled := by
  refine assert_settled ?_
  cases unhex ch with
  | none => rfl
  | some n => exact advance_alike (e := { e.goto .chunkSize with self.contentLength := n }) rfl

/-- The size of a chunk. -/
theorem chunkSize_alike (hs : e.self.state.inUrl = false) :
    (chunkSize (e.alike n u) ch).settled = (chunkSize e ch).settled := by
  refine assert_settled
    (ite_settled Iff.rfl (advance_alike (e := e.goto .chunkSizeAlmostDone) rfl) ?_)
  cases unhex ch with
  | none =>
      exact ite_settled Iff.rfl (advance_alike (e := e.goto .chunkParameters) rfl) rfl
  | some n =>
      exact ite_settled Iff.rfl rfl
        (advance_alike (e := { e with self.contentLength := e.self.contentLength * 16 + n }) hs)

theorem chunkParameters_alike (hs : e.self.state.inUrl = false) :
    (chunkParameters (e.alike n u) ch).settled = (chunkParameters e ch).settled :=
  assert_settled (ite_settled Iff.rfl (advance_alike (e := e.goto .chunkSizeAlmostDone) rfl)
    (advance_alike hs))

/-- Behind the size comes a chunk, or the trailers. -/
theorem chunkSizeAlmostDone_alike :
    (chunkSizeAlmostDone (e.alike n u) ch).settled = (chunkSizeAlmostDone e ch).settled :=
  assert_settled (strict_settled (ite_settled Iff.rfl
    (advance_alike (n := 0) (u := u) (e := { ({ e with self.nread := 0, nread := 0 } : Exec).goto
      .headerFieldStart with self.flags.trailing := true }) rfl)
    (advance_alike (n := 0) (u := u)
      (e := ({ e with self.nread := 0, nread := 0 } : Exec).goto .chunkData) rfl)))

theorem chunkDataDone_alike :
    (chunkDataDone (e.alike n u) ch).settled = (chunkDataDone e ch).settled :=
  assert_settled (strict_settled (advance_alike (n := 0) (u := u)
    (e := ({ e with self.nread := 0, nread := 0 } : Exec).goto .chunkSizeStart) rfl))

end

/-! ## §3. Names. -/

section
variable {e : Exec} {ch c : Char} {rest : List Char} {n : Nat}

/-- Handing a name over in two pieces comes to the same, whatever the parser does in
    between and however many bytes it has stored. -/
theorem onHeaderField_append (h : HTTPParser) (p : Parser) (m : Nat) (front back : List Char) :
    { onHeaderField { onHeaderField h front with toParser := { p with nread := m } } back with
        nread := m }
      = { onHeaderField { h with toParser := p } (front ++ back) with nread := m } := by
  by_cases hbuilding : h.headerBuilding = true
  · simp [onHeaderField, hbuilding]
  · by_cases hvalue : h.headerValue = []
    · simp [onHeaderField, hbuilding, hvalue]
    · simp [onHeaderField, hbuilding, hvalue]

/-- At the end of a buffer within a name, `on_header_field` gets the part so far. -/
theorem settle_name {w : List Char} (hs : e.self.state = .headerField)
    (hmark : e.marks.headerField = some w) (hvalue : e.marks.headerValue = none)
    (hbody : e.marks.body = none) :
    settle e = { e with
      self := { onHeaderField e.self w with nread := e.nread }
      marks := startMarks .headerField } := by
  rw [settle_outside (by rw [hs]; rfl), hs]
  simp only [flushHeaderField, hmark, flushHeaderValue, hvalue, flushBody, hbody]

theorem fieldChar_nread (p : Parser) :
    fieldChar { p with nread := n } c ch
      = (fieldChar p c ch).map fun q => { q with nread := n } := by
  obtain ⟨flags, state, hs⟩ := p
  cases hs <;> rfl

/-- `on_header_field` writes to the request only. -/
theorem onHeaderField_toParser (h : HTTPParser) (data : List Char) :
    (onHeaderField h data).toParser = h.toParser := by
  unfold onHeaderField
  split
  · rfl
  · split <;> rfl

/-- `COUNT_HEADER_SIZE` fails on both sides or counts on both. -/
theorem counting_settled {e e' : Exec} {k k' : Exec → Step} (hnread : e.nread = e'.nread)
    (hds : e.deliveries = e'.deliveries)
    (h : (k { e with nread := e.nread + n }).settled
      = (k' { e' with nread := e'.nread + n }).settled) :
    (e.counting n k).settled = (e'.counting n k').settled := by
  unfold Exec.counting
  rw [hnread] at h ⊢
  split
  · simp only [Exec.fail, hds]
  · exact h

/-- Without marks there is nothing to hand over. -/
theorem settle_bare (hs : e.self.state.plain = true) (hm : e.marks.Bare) :
    settle e = { e with self.nread := e.nread, marks := {} } := by
  obtain ⟨hfield, hvalue, hurl, hbody⟩ := hm
  have hout : e.self.state.inUrl = false := by
    cases hstate : e.self.state <;> rw [hstate] at hs <;> first | rfl | cases hs
  have hstart : startMarks e.self.state = {} := by
    cases hstate : e.self.state <;> rw [hstate] at hs <;> first | rfl | cases hs
  rw [settle_outside hout, hstart, flushHeaderField_none hfield, flushHeaderValue_none hvalue,
    flushBody_none hbody]

/-- The end of a name. -/
theorem settle_named {s : State} {w : List Char} (hs : s.plain = true)
    (hmark : e.marks.headerField = some w) (hvalue : e.marks.headerValue = none)
    (hurl : e.marks.url = none) (hbody : e.marks.body = none) :
    settle (flushHeaderField (e.goto s)) = { e with
      self := { onHeaderField { e.self with state := s } w with nread := e.nread }
      marks := {} } := by
  have hflush : flushHeaderField (e.goto s)
      = { e with
          self := onHeaderField { e.self with state := s } w, marks.headerField := none } := by
    simp only [flushHeaderField, Exec.goto, hmark]
  have hplain : (onHeaderField { e.self with state := s } w).state.plain = true := by
    rw [onHeaderField_toParser]
    exact hs
  rw [hflush]
  exact settle_bare hplain ⟨rfl, hvalue, hurl, hbody⟩

/-- **A name in two parts**: the callback appends them, so that the cut does not show. -/
theorem headerField_settled (hs : e.self.state = .headerField)
    (hname : e.self.headerState.ofName = true) (hm : e.marks.OnField) :
    (headerField e ch []).settled = (headerField (settle e) ch []).settled := by
  obtain ⟨hsome, hvalue, hurl, hbody⟩ := hm
  obtain ⟨name, hmark⟩ := Option.isSome_iff_exists.mp hsome
  have hsettle := settle_name hs hmark hvalue hbody
  have hparser : (settle e).self.toParser = { e.self.toParser with nread := e.nread } := by
    rw [hsettle]
    exact congrArg (fun p => ({ p with nread := e.nread } : Parser)) (onHeaderField_toParser _ _)
  have hnread : e.nread = (settle e).nread := by rw [hsettle]
  have hds : e.deliveries = (settle e).deliveries := by rw [hsettle]
  obtain htok | ⟨c, q, htok, hq, -, hqs⟩ := headerField_cases hname ch
  · rw [headerField_stop htok, headerField_stop htok]
    refine counting_settled hnread hds (ite_settled Iff.rfl (congrArg (Step.next · 0) ?_)
      (congrArg (Step.failed _) hds))
    have hdone := onHeaderField_append e.self
      { (onHeaderField e.self name).toParser with state := .headerValueDiscardWs } e.nread name []
    rw [hsettle]
    refine (settle_named (e := e.pass) rfl hmark hvalue hurl hbody).trans
      (Eq.trans ?_ (settle_named (w := []) rfl rfl rfl rfl rfl).symm)
    refine congrArg (fun self => ({ e with self, marks := {} } : Exec)) (Eq.trans ?_ hdone.symm)
    rw [onHeaderField_toParser, List.append_nil]
    rfl
  · have hq' : fieldChar (settle e).self.toParser c ch = some { q with nread := e.nread } := by
      rw [hparser, fieldChar_nread, hq]
      rfl
    have hmore := onHeaderField_append e.self q e.nread name [ch]
    rw [headerField_token htok hq, headerField_token htok hq']
    refine counting_settled hnread hds (congrArg (Step.next · 0) ?_)
    rw [settle_name (w := name ++ [ch]) (hqs.trans hs) (by simp [Marks.consume, hmark])
      (by simp [Marks.consume, hvalue]) (by simp [Marks.consume, hbody]), hsettle,
      settle_name (w := [ch]) (hqs.trans hs) (by simp [Marks.consume, startMarks])
      (by simp [Marks.consume, startMarks]) (by simp [Marks.consume, startMarks])]
    exact congrArg (fun self => ({ e with self, marks := startMarks .headerField } : Exec))
      hmore.symm

end

/-! ## §4. Values. -/

section
variable {e : Exec} {ch c : Char} {rest : List Char} {n : Nat}

/-- Handing a value over in two pieces comes to the same. -/
theorem onHeaderValue_append (h : HTTPParser) (p : Parser) (m : Nat) (front back : List Char) :
    { onHeaderValue { onHeaderValue h front with toParser := { p with nread := m } } back with
        nread := m }
      = { onHeaderValue { h with toParser := p } (front ++ back) with nread := m } := by
  by_cases hbuilding : h.headerBuilding = true
  · simp [onHeaderValue, hbuilding]
  · simp [onHeaderValue, hbuilding]

theorem onHeaderValue_toParser (h : HTTPParser) (data : List Char) :
    (onHeaderValue h data).toParser = h.toParser := by
  unfold onHeaderValue
  split <;> rfl

/-- At the end of a buffer within a value, `on_header_value` gets the part so far. -/
theorem settle_value {w : List Char} (hs : e.self.state = .headerValue)
    (hfield : e.marks.headerField = none) (hmark : e.marks.headerValue = some w)
    (hbody : e.marks.body = none) :
    settle e = { e with
      self := { onHeaderValue e.self w with nread := e.nread }
      marks := startMarks .headerValue } := by
  rw [settle_outside (by rw [hs]; rfl), hs]
  simp only [flushHeaderField, hfield, flushHeaderValue, hmark, flushBody, hbody]

/-- A digit of `Content-Length` is counted without the stored number of bytes. -/
theorem lengthDigit_nread (p : Parser) :
    lengthDigit { p with nread := n } ch
      = (lengthDigit p ch).map fun q => { q with nread := n } := by
  unfold lengthDigit
  split
  · rfl
  · split
    · rfl
    · split <;> rfl

/-- So is a character of any other value. -/
theorem valueChar_nread (p : Parser) :
    valueChar { p with nread := n } ch
      = (valueChar p ch).map fun r => r.map fun q => { q with nread := n } := by
  have hdigit : lengthDigit { p with nread := n } ch
      = (lengthDigit p ch).map fun q => { q with nread := n } := lengthDigit_nread p
  obtain ⟨flags, state, hs⟩ := p
  cases hs with
  | contentLength =>
      unfold valueChar
      dsimp only
      split
      · rfl
      · exact congrArg some hdigit
  | contentLengthNum => exact congrArg some hdigit
  | contentLengthWs =>
      unfold valueChar
      dsimp only
      split <;> rfl
  | matchingTransferEncodingTokenStart =>
      unfold valueChar
      dsimp only
      split
      · rfl
      · split
        · rfl
        · split <;> rfl
  | matchingTransferEncodingToken =>
      unfold valueChar
      dsimp only
      split <;> rfl
  | _ => rfl

/-- The end of a value. -/
theorem settle_valued {s : State} {w : List Char} (hs : s.plain = true)
    (hfield : e.marks.headerField = none) (hmark : e.marks.headerValue = some w)
    (hurl : e.marks.url = none) (hbody : e.marks.body = none) :
    settle (flushHeaderValue (e.goto s)) = { e with
      self := { onHeaderValue { e.self with state := s } w with nread := e.nread }
      marks := {} } := by
  have hflush : flushHeaderValue (e.goto s)
      = { e with
          self := onHeaderValue { e.self with state := s } w, marks.headerValue := none } := by
    simp only [flushHeaderValue, Exec.goto, hmark]
  have hplain : (onHeaderValue { e.self with state := s } w).state.plain = true := by
    rw [onHeaderValue_toParser]
    exact hs
  rw [hflush]
  exact settle_bare hplain ⟨hfield, rfl, hurl, hbody⟩

/-- The callback of a value does not look at the state. -/
theorem flushHeaderValue_goto (s s' : State) :
    (flushHeaderValue (e.goto s)).goto s' = flushHeaderValue (e.goto s') := by
  unfold flushHeaderValue
  cases hmark : e.marks.headerValue with
  | none => simp only [Exec.goto, hmark]
  | some data =>
      by_cases hbuilding : e.self.headerBuilding = true
      · simp [Exec.goto, hmark, onHeaderValue, hbuilding]
      · simp [Exec.goto, hmark, onHeaderValue, hbuilding]

/-- **A value in two parts**: the same. -/
theorem headerValue_settled (hs : e.self.state = .headerValue)
    (hvalue : e.self.headerState.ofValue = true) (hlength : e.self.contentLength ≤ ullongMax)
    (hm : e.marks.OnValue) :
    (headerValue e ch []).settled = (headerValue (settle e) ch []).settled := by
  obtain ⟨hfield, hsome, hurl, hbody⟩ := hm
  obtain ⟨value, hmark⟩ := Option.isSome_iff_exists.mp hsome
  have hsettle := settle_value hs hfield hmark hbody
  have hparser : (settle e).self.toParser = { e.self.toParser with nread := e.nread } := by
    rw [hsettle]
    exact congrArg (fun p => ({ p with nread := e.nread } : Parser)) (onHeaderValue_toParser _ _)
  have hnread : e.nread = (settle e).nread := by rw [hsettle]
  have hds : e.deliveries = (settle e).deliveries := by rw [hsettle]
  -- what becomes of the value where it ends
  have hend : ∀ s : State, s.plain = true →
      settle (flushHeaderValue (e.pass.goto s))
        = settle (flushHeaderValue ((settle e).pass.goto s)) := by
    intro s hplain
    have hdone := onHeaderValue_append e.self
      { (onHeaderValue e.self value).toParser with state := s } e.nread value []
    rw [hsettle]
    refine (settle_valued (e := e.pass) hplain hfield hmark hurl hbody).trans
      (Eq.trans ?_ (settle_valued (w := []) hplain rfl rfl rfl rfl).symm)
    refine congrArg (fun self => ({ e with self, marks := {} } : Exec)) (Eq.trans ?_ hdone.symm)
    rw [onHeaderValue_toParser, List.append_nil]
    rfl
  obtain hstop | ⟨hgo, hc⟩ | ⟨err, hgo, hc, herr⟩ | ⟨q, hgo, hc, hq, -, hqs, -⟩ :=
    headerValue_cases hvalue hlength ch
  · rw [headerValue_stop hstop, headerValue_stop hstop]
    refine counting_settled hnread hds (ite_settled Iff.rfl (congrArg (Step.next · 0) ?_)
      (congrArg (Step.next · 0) ?_))
    · exact hend .headerAlmostDone rfl
    · rw [flushHeaderValue_goto, flushHeaderValue_goto]
      exact hend .headerValueLws rfl
  · rw [headerValue_control hgo hc, headerValue_control hgo hc]
    exact congrArg (Step.failed _) hds
  · have herr' : valueChar (settle e).self.toParser ch = some (.error err) := by
      rw [hparser, valueChar_nread, herr]
      rfl
    rw [headerValue_error hgo hc herr, headerValue_error hgo hc herr']
    exact congrArg (Step.failed _) hds
  · have hq' : valueChar (settle e).self.toParser ch = some (.ok { q with nread := e.nread }) := by
      rw [hparser, valueChar_nread, hq]
      rfl
    have hmore := onHeaderValue_append e.self q e.nread value [ch]
    rw [headerValue_char hgo hc hq, headerValue_char hgo hc hq']
    refine counting_settled hnread hds (congrArg (Step.next · 0) ?_)
    rw [settle_value (w := value ++ [ch]) (hqs.trans hs) (by simp [Marks.consume, hfield])
      (by simp [Marks.consume, hmark]) (by simp [Marks.consume, hbody]), hsettle,
      settle_value (w := [ch]) (hqs.trans hs) (by simp [Marks.consume, startMarks])
      (by simp [Marks.consume, startMarks]) (by simp [Marks.consume, startMarks])]
    exact congrArg (fun self => ({ e with self, marks := startMarks .headerValue } : Exec))
      hmore.symm

end

/-! ## §5. Bodies. -/

section
variable {e : Exec} {ch : Char} {rest : List Char} {n : Nat} {u : Option Nat}

theorem flushBody_goto (s : State) : flushBody (e.goto s) = (flushBody e).goto s := by
  unfold flushBody
  cases hmark : e.marks.body with
  | none => simp only [Exec.goto, hmark]
  | some data => simp only [Exec.goto, hmark, onBody]

/-- The states that a body is read in. -/
def State.ofBody : State → Bool
  | .bodyIdentity | .chunkData | .chunkDataAlmostDone => true
  | _ => false

/-- In a body, settling is the callback of the body. -/
theorem settle_body (hs : e.self.state.ofBody = true) (hm : e.marks.OnBody) :
    settle e = (flushBody e).alike e.nread none := by
  have hout : e.self.state.inUrl = false ∧ startMarks e.self.state = {} := by
    cases hstate : e.self.state <;> rw [hstate] at hs <;> first | exact ⟨rfl, rfl⟩ | cases hs
  obtain ⟨hfield, hvalue, hurl⟩ := hm
  rw [settle_outside hout.1, hout.2, flushHeaderField_none hfield, flushHeaderValue_none hvalue]
  unfold flushBody
  cases hmark : e.marks.body with
  | none => simp [Exec.alike, hfield, hvalue, hurl, hmark]
  | some data => simp [Exec.alike, hfield, hvalue, hurl]

theorem takeBody_alike :
    takeBody (e.alike n u) ch rest
      = ((takeBody e ch rest).1.alike n (u.map (· + ((ch :: rest).take
          (min e.self.contentLength (ch :: rest).length)).length)), (takeBody e ch rest).2) := rfl

/-- Handing a body over in two pieces comes to the same. -/
theorem flushBody_takeBody :
    flushBody (takeBody (flushBody e) ch rest).1 = flushBody (takeBody e ch rest).1 := by
  cases hmark : e.marks.body with
  | none => rw [flushBody_none hmark]
  | some data => simp [flushBody, hmark, takeBody, markBody, onBody, Marks.consume]

theorem flushBody_toParser (e : Exec) : (flushBody e).self.toParser = e.self.toParser := by
  unfold flushBody
  split <;> rfl

theorem flushBody_body (e : Exec) : (flushBody e).marks.body = none := by
  unfold flushBody
  split
  · assumption
  · rfl

theorem settle_body_toParser (hs : e.self.state.ofBody = true) (hm : e.marks.OnBody) :
    (settle e).self.toParser = { e.self.toParser with nread := e.nread } := by
  rw [settle_body hs hm]
  exact congrArg (fun p => ({ p with nread := e.nread } : Parser)) (flushBody_toParser e)

/-- More of a body that has been handed over so far. -/
theorem takeBody_settled (hs : e.self.state.ofBody = true) (hm : e.marks.OnBody) (ch : Char)
    (rest : List Char) :
    ∃ n u, flushBody (takeBody (settle e) ch rest).1
      = (flushBody (takeBody e ch rest).1).alike n u := by
  rw [settle_body hs hm, takeBody_alike]
  dsimp only
  rw [flushBody_alike, flushBody_takeBody]
  exact ⟨_, _, rfl⟩

/-- How much is taken of the rest of a body does not depend on the parts before. -/
theorem takeBody_length (h : (settle e).self.contentLength = e.self.contentLength) (ch : Char)
    (rest : List Char) :
    (takeBody (settle e) ch rest).2 = (takeBody e ch rest).2
      ∧ (takeBody (settle e) ch rest).1.self.contentLength
        = (takeBody e ch rest).1.self.contentLength := by
  unfold takeBody
  simp only [h, and_self]

theorem goto_self {s : State} (hs : e.self.state = s) : e.goto s = e := by
  rw [← hs]
  rfl

/-- Whether the body goes on or not, it is settled alike. -/
theorem settle_takeBody (hs : e.self.state.ofBody = true) (hm : e.marks.OnBody) {s : State}
    (hbody : s.ofBody = true) (ch : Char) (rest : List Char) :
    settle ((takeBody e ch rest).1.goto s) = settle ((takeBody (settle e) ch rest).1.goto s) := by
  have hnread : (settle e).nread = e.nread := by
    rw [settle_body hs hm]
    unfold flushBody
    split <;> rfl
  have hm' : (settle e).marks.OnBody := by
    rw [settle_body hs hm]
    unfold flushBody
    split <;> exact hm
  obtain ⟨n, u, hflush⟩ := takeBody_settled hs hm ch rest
  rw [settle_body (e := (takeBody e ch rest).1.goto s) hbody (Marks.onBody_consume.mpr hm),
    settle_body (e := (takeBody (settle e) ch rest).1.goto s) hbody
      (Marks.onBody_consume.mpr hm'), flushBody_goto, flushBody_goto, hflush]
  show _ = Exec.alike _ (settle e).nread none
  rw [hnread]
  rfl

/-- **A counted body in two parts**: the callback appends them. -/
theorem bodyIdentity_settled (hs : e.self.state = .bodyIdentity) (hm : e.marks.OnBody) :
    (bodyIdentity e ch []).settled = (bodyIdentity (settle e) ch []).settled := by
  have hbody : e.self.state.ofBody = true := by rw [hs]; rfl
  have hparser := settle_body_toParser hbody hm
  have hlength : (settle e).self.contentLength = e.self.contentLength := by rw [hparser]
  have hstate : (settle e).self.state = .bodyIdentity := by rw [hparser]; exact hs
  obtain ⟨hcount, hleft⟩ := takeBody_length hlength ch []
  obtain ⟨n, u, hflush⟩ := takeBody_settled hbody hm ch []
  have hknown : lengthKnown (settle e) = lengthKnown e := by
    unfold lengthKnown
    rw [hlength]
  unfold bodyIdentity
  rw [hknown]
  refine assert_settled (ite_settled (by rw [hleft]) ?_ ?_)
  · rw [hcount]
    refine congrArg (Step.next · _) ?_
    rw [flushBody_goto, flushBody_goto, hflush]
    have halike : ((flushBody (takeBody e ch []).1).alike n u).goto .messageDone
        = ((flushBody (takeBody e ch []).1).goto .messageDone).alike n u := rfl
    rw [halike, messageComplete_alike]
    exact (settle_alike (messageComplete_outside rfl)).symm
  · rw [hcount]
    have hmore := settle_takeBody hbody hm (s := .bodyIdentity) rfl ch []
    rw [goto_self (e := (takeBody e ch []).1) hs,
      goto_self (e := (takeBody (settle e) ch []).1) hstate] at hmore
    exact congrArg (Step.next · _) hmore

/-- **A chunk in two parts**: the same. -/
theorem chunkData_settled (hs : e.self.state = .chunkData) (hm : e.marks.OnBody) :
    (chunkData e ch []).settled = (chunkData (settle e) ch []).settled := by
  have hbody : e.self.state.ofBody = true := by rw [hs]; rfl
  have hparser := settle_body_toParser hbody hm
  have hlength : (settle e).self.contentLength = e.self.contentLength := by rw [hparser]
  have hstate : (settle e).self.state = .chunkData := by rw [hparser]; exact hs
  have hflags : (settle e).self.flags = e.self.flags := by rw [hparser]
  obtain ⟨hcount, hleft⟩ := takeBody_length hlength ch []
  have hknown : lengthKnown (settle e) = lengthKnown e := by
    unfold lengthKnown
    rw [hlength]
  unfold chunkData
  rw [hknown, hflags]
  refine assert_settled ?_
  dsimp only
  rw [hcount, hleft]
  refine congrArg (Step.next · _) ?_
  split
  · exact settle_takeBody hbody hm rfl ch []
  · have hmore := settle_takeBody hbody hm (s := .chunkData) rfl ch []
    rwa [goto_self (e := (takeBody e ch []).1) hs,
      goto_self (e := (takeBody (settle e) ch []).1) hstate] at hmore

/-- The end of a chunk hands over its last part. -/
theorem chunkDataAlmostDone_settled (hs : e.self.state = .chunkDataAlmostDone)
    (hm : e.marks.OnBody) :
    (chunkDataAlmostDone e ch).settled = (chunkDataAlmostDone (settle e) ch).settled := by
  have hbody : e.self.state.ofBody = true := by rw [hs]; rfl
  have hsettle := settle_body hbody hm
  have hparser := settle_body_toParser hbody hm
  have hlength : (settle e).self.contentLength = e.self.contentLength := by rw [hparser]
  have hflags : (settle e).self.flags = e.self.flags := by rw [hparser]
  have hds : (settle e).deliveries = e.deliveries := by
    rw [hsettle]
    exact flushBody_deliveries e
  unfold chunkDataAlmostDone
  rw [hlength, hflags]
  refine assert_settled ?_
  unfold Exec.strict Exec.fail
  rw [hds]
  split
  · rfl
  · rw [flushBody_goto, flushBody_goto, flushBody_none (e := settle e)
      (by rw [hsettle]; exact flushBody_body e), hsettle]
    exact (advance_alike (e := (flushBody e).goto .chunkDataDone) rfl).symm

end

/-! ## §6. In front of the URL and in it. -/

/-- Another stored number of bytes, wherever a round leads. -/
def Step.twin (n : Nat) : Step → Step
  | .next e more => .next (e.twin n) more
  | .leave e => .leave (e.twin n)
  | .failed err ds => .failed err ds
  | .aborted => .aborted

section
variable {routed : HttpMethod → List Char → Bool} {buffer : Nat} {e : Exec} {ch : Char} {n : Nat}

/-- Settling forgets the stored number of bytes. -/
theorem settled_twin (s : Step) : (s.twin n).settled = s.settled := by
  cases s with
  | next e more => exact congrArg (Step.next · more) settle_twin
  | leave e => exact congrArg Step.leave settle_twin
  | failed err ds => rfl
  | aborted => rfl

/-- Two tests of the same thing, with branches that differ in the stored number of bytes. -/
theorem ite_twin {p p' : Prop} [Decidable p] [Decidable p'] (hp : p ↔ p') {s s' t t' : Step}
    (hs : s = s'.twin n) (ht : t = t'.twin n) :
    (if p then s else t) = (if p' then s' else t').twin n := by
  by_cases h : p
  · rw [if_pos h, if_pos (hp.mp h)]
    exact hs
  · rw [if_neg h, if_neg fun h' => h (hp.mpr h')]
    exact ht

theorem startReq_twin : startReq (e.twin n) ch = (startReq e ch).twin n := by
  refine ite_twin Iff.rfl rfl (ite_twin Iff.rfl rfl ?_)
  cases firstMethod ch <;> rfl

theorem reqMethod_twin : reqMethod (e.twin n) ch = (reqMethod e ch).twin n := by
  refine ite_twin Iff.rfl rfl
    (ite_twin Iff.rfl rfl (ite_twin Iff.rfl rfl (ite_twin Iff.rfl ?_ rfl)))
  have hother : otherMethod (e.twin n).self.method (e.twin n).self.index ch
      = otherMethod e.self.method e.self.index ch := rfl
  rw [hother]
  cases otherMethod e.self.method e.self.index ch <;> rfl

theorem urlChar_twin : urlChar buffer (e.twin n) ch = (urlChar buffer e ch).twin n := by
  have hparse : parseUrlChar (e.twin n).self.state ch = parseUrlChar e.self.state ch := rfl
  unfold urlChar
  rw [hparse]
  split <;> rfl

theorem reqSpacesBeforeUrl_twin :
    reqSpacesBeforeUrl buffer (e.twin n) ch = (reqSpacesBeforeUrl buffer e ch).twin n := by
  refine ite_twin Iff.rfl rfl ?_
  have hmarked : (if (markUrl (e.twin n)).self.method = .connect
        then (markUrl (e.twin n)).goto .reqServerStart else markUrl (e.twin n))
      = Exec.twin (if (markUrl e).self.method = .connect
        then (markUrl e).goto .reqServerStart else markUrl e) n := by
    have hmethod : (markUrl (e.twin n)).self.method = (markUrl e).self.method := rfl
    rw [hmethod]
    split <;> rfl
  exact (congrArg (urlChar buffer · ch) hmarked).trans urlChar_twin

theorem urlPrefix_twin : urlPrefix buffer (e.twin n) ch = (urlPrefix buffer e ch).twin n :=
  ite_twin Iff.rfl rfl urlChar_twin

/-- `on_url` is asked with the same URL. -/
theorem flushUrl_twin {k : Exec → Step} (hk : ∀ e : Exec, k (e.twin n) = (k e).twin n) :
    flushUrl routed (e.twin n) k = (flushUrl routed e k).twin n := by
  have hmarks : (e.twin n).marks = e.marks := rfl
  unfold flushUrl
  rw [hmarks]
  cases e.marks.url with
  | none => exact hk e
  | some data =>
      exact ite_twin Iff.rfl (hk { e with self := onUrl e.self data, marks.url := none }) rfl

/-- A URL goes on, or ends, whatever the stored number of bytes. -/
theorem urlRest_twin : urlRest routed buffer (e.twin n) ch = (urlRest routed buffer e ch).twin n :=
  ite_twin Iff.rfl (flushUrl_twin (e := e.goto .reqHttpStart) fun _ => rfl)
    (ite_twin Iff.rfl
      (ite_twin Iff.rfl rfl
        (flushUrl_twin (e := { e with
          self.httpMajor := 0, self.httpMinor := 9
          self.state := if ch = '\r' then .reqLineAlmostDone else .headerFieldStart })
          fun _ => rfl))
      urlChar_twin)

end

/-! ## §7. Two moments that settle alike. -/

section
variable {e e' : Exec}

/-- The callbacks at the end of a buffer leave the parser itself and what was delivered. -/
theorem flushed_keeps (e : Exec) :
    (flushBody (flushHeaderValue (flushHeaderField e))).self.toParser = e.self.toParser
      ∧ (flushBody (flushHeaderValue (flushHeaderField e))).deliveries = e.deliveries := by
  have hfield : (flushHeaderField e).self.toParser = e.self.toParser
      ∧ (flushHeaderField e).deliveries = e.deliveries := by
    unfold flushHeaderField
    split
    · exact ⟨rfl, rfl⟩
    · exact ⟨onHeaderField_toParser _ _, rfl⟩
  have hvalue : ∀ e : Exec, (flushHeaderValue e).self.toParser = e.self.toParser := by
    intro e
    unfold flushHeaderValue
    split
    · rfl
    · exact onHeaderValue_toParser _ _
  rw [flushBody_toParser, flushBody_deliveries, hvalue, flushHeaderValue_deliveries]
  exact hfield

/-- The next buffer starts in the state of this one. -/
@[simp] theorem settle_state (e : Exec) : (settle e).self.state = e.self.state := by
  unfold settle
  split
  · rfl
  · have hstate := congrArg Parser.state (flushed_keeps e).1
    exact hstate

@[simp] theorem settle_deliveries (e : Exec) : (settle e).deliveries = e.deliveries := by
  unfold settle
  split
  · rfl
  · exact (flushed_keeps e).2

@[simp] theorem settle_nread (e : Exec) : (settle e).nread = e.nread := by
  unfold settle flushBody flushHeaderValue flushHeaderField
  repeat' split
  all_goals rfl

/-- Another counter in the loop is another one for the next buffer. -/
theorem settle_recount (e : Exec) (n : Nat) :
    settle { e with nread := n } = { settle e with self.nread := n, nread := n } := by
  unfold settle
  split
  · rfl
  · unfold flushBody flushHeaderValue flushHeaderField
    cases e.marks.headerField <;> cases e.marks.headerValue <;> cases e.marks.body <;> rfl

/-- Between the marks, moments that settle alike differ in two numbers at most. -/
theorem alike_of_settle (h : settle e = settle e') (hs : e.self.state.plain = true)
    (hm : e.marks.Bare) (hm' : e'.marks.Bare) :
    e' = e.alike e'.self.nread e'.marks.urlStart := by
  have hs' : e'.self.state.plain = true := by
    rw [← settle_state e', ← h, settle_state]
    exact hs
  rw [settle_bare hs hm, settle_bare hs' hm'] at h
  obtain ⟨self, nread, ⟨field, value, url, start, body⟩, ds⟩ := e
  obtain ⟨self', nread', ⟨field', value', url', start', body'⟩, ds'⟩ := e'
  obtain ⟨rfl, rfl, rfl, rfl⟩ : field = none ∧ value = none ∧ url = none ∧ body = none := hm
  obtain ⟨rfl, rfl, rfl, rfl⟩ : field' = none ∧ value' = none ∧ url' = none ∧ body' = none := hm'
  have hself : self' = { self with nread := self'.nread } :=
    congrArg (fun e : Exec => ({ e.self with nread := self'.nread } : HTTPParser)) h.symm
  have hnread : nread' = nread := congrArg Exec.nread h.symm
  have hds : ds' = ds := congrArg Exec.deliveries h.symm
  unfold Exec.alike
  rw [hnread, hds]
  exact congrArg
    (fun self => ({ self, nread, marks := { urlStart := start' }, deliveries := ds } : Exec)) hself

/-- In the URL they differ in one. -/
theorem twin_of_settle (h : settle e = settle e') (hs : e.self.state.inUrl = true) :
    e' = e.twin e'.self.nread := by
  have hs' : e'.self.state.inUrl = true := by
    rw [← settle_state e', ← h, settle_state]
    exact hs
  have heq : ({ e with self.nread := e.nread } : Exec) = { e' with self.nread := e'.nread } := by
    have hleft : settle e = { e with self.nread := e.nread } := if_pos hs
    have hright : settle e' = { e' with self.nread := e'.nread } := if_pos hs'
    rw [← hleft, ← hright]
    exact h
  have htwin := congrArg (fun x : Exec => x.twin e'.self.nread) heq.symm
  exact htwin

end

section
variable {routed : HttpMethod → List Char → Bool} {buffer : Nat} {e e' : Exec} {ch : Char}

/-- Behind the URL, moments that settle alike take a byte alike. -/
theorem switch_settled (h : Inv e) (h' : Inv e') (heq : settle e = settle e')
    (hstage : e.self.state.stage = 2) (n : Nat) :
    (switch routed buffer { e with nread := n } ch []).settled
      = (switch routed buffer { e' with nread := n } ch []).settled := by
  have hstate : e'.self.state = e.self.state := by
    rw [← settle_state e', ← heq, settle_state]
  have hready := h.ready
  have hready' := h'.ready
  have hfit := h.fit
  have hfit' := h'.fit
  rw [hstate] at hready' hfit'
  -- what is left of a difference between the marks
  have halike : e.self.state.plain = true →
      ({ e' with nread := n } : Exec)
        = ({ e with nread := n } : Exec).alike e'.self.nread e'.marks.urlStart := by
    intro hplain
    have hm := (fitAt_plain hplain).mp hfit
    have hm' := (fitAt_plain hplain).mp hfit'
    exact congrArg (fun x : Exec => ({ x with nread := n } : Exec))
      (alike_of_settle heq hplain hm hm')
  have hcount : settle { e with nread := n } = settle { e' with nread := n } :=
    (settle_recount e n).trans
      ((congrArg (fun x : Exec => ({ x with self.nread := n, nread := n } : Exec)) heq).trans
        (settle_recount e' n).symm)
  unfold switch
  simp only [hstate]
  cases hs : e.self.state with
  | dead | startReq | reqMethod | reqSpacesBeforeUrl =>
      rw [hs] at hstage
      cases hstage
  | reqSchema | reqSchemaSlash | reqSchemaSlashSlash | reqServerStart | reqServer
  | reqServerWithAt | reqPath | reqQueryStringStart | reqQueryString =>
      rw [hs] at hstage
      cases hstage
  | headerField =>
      rw [hs] at hready hready' hfit hfit'
      simp only
      rw [headerField_settled (e := { e with nread := n }) hs hready hfit,
        headerField_settled (e := { e' with nread := n }) (hstate.trans hs) hready' hfit', hcount]
  | headerValue =>
      rw [hs] at hready hready' hfit hfit'
      simp only
      rw [headerValue_settled (e := { e with nread := n }) hs hready h.length hfit,
        headerValue_settled (e := { e' with nread := n }) (hstate.trans hs) hready' h'.length hfit',
        hcount]
  | bodyIdentity =>
      rw [hs] at hfit hfit'
      simp only
      rw [bodyIdentity_settled (e := { e with nread := n }) hs hfit,
        bodyIdentity_settled (e := { e' with nread := n }) (hstate.trans hs) hfit', hcount]
  | chunkData =>
      rw [hs] at hfit hfit'
      simp only
      rw [chunkData_settled (e := { e with nread := n }) hs hfit,
        chunkData_settled (e := { e' with nread := n }) (hstate.trans hs) hfit', hcount]
  | chunkDataAlmostDone =>
      rw [hs] at hfit hfit'
      simp only
      rw [chunkDataAlmostDone_settled (e := { e with nread := n }) hs hfit,
        chunkDataAlmostDone_settled (e := { e' with nread := n }) (hstate.trans hs) hfit', hcount]
  | reqHttpStart =>
      rw [halike (by rw [hs]; rfl)]
      exact (reqHttpStart_alike (by rw [hs]; rfl)).symm
  | reqHttpH | reqHttpHT | reqHttpHTT | reqHttpI | reqHttpIC | reqHttpHTTP
  | headerValueDiscardWsAlmostDone =>
      rw [halike (by rw [hs]; rfl)]
      exact (versionLetter_alike rfl).symm
  | reqHttpMajor => rw [halike (by rw [hs]; rfl)]; exact reqHttpMajor_alike.symm
  | reqHttpDot => rw [halike (by rw [hs]; rfl)]; exact reqHttpDot_alike.symm
  | reqHttpMinor => rw [halike (by rw [hs]; rfl)]; exact reqHttpMinor_alike.symm
  | reqHttpEnd => rw [halike (by rw [hs]; rfl)]; exact reqHttpEnd_alike.symm
  | reqLineAlmostDone => rw [halike (by rw [hs]; rfl)]; exact reqLineAlmostDone_alike.symm
  | headerFieldStart => rw [halike (by rw [hs]; rfl)]; exact headerFieldStart_alike.symm
  | headerValueDiscardWs =>
      rw [halike (by rw [hs]; rfl)]
      exact (headerValueDiscardWs_alike (by rw [hs]; rfl)).symm
  | headerValueDiscardLws =>
      rw [halike (by rw [hs]; rfl)]
      exact headerValueDiscardLws_alike.symm
  | headerValueStart => rw [halike (by rw [hs]; rfl)]; exact headerValueStart_alike.symm
  | headerValueLws => rw [halike (by rw [hs]; rfl)]; exact headerValueLws_alike.symm
  | headerAlmostDone => rw [halike (by rw [hs]; rfl)]; exact headerAlmostDone_alike.symm
  | chunkSizeStart => rw [halike (by rw [hs]; rfl)]; exact chunkSizeStart_alike.symm
  | chunkSize =>
      rw [halike (by rw [hs]; rfl)]
      exact (chunkSize_alike (by rw [hs]; rfl)).symm
  | chunkParameters =>
      rw [halike (by rw [hs]; rfl)]
      exact (chunkParameters_alike (by rw [hs]; rfl)).symm
  | chunkSizeAlmostDone => rw [halike (by rw [hs]; rfl)]; exact chunkSizeAlmostDone_alike.symm
  | headersAlmostDone =>
      rw [halike (by rw [hs]; rfl)]
      exact (headersAlmostDone_alike (by rw [hs]; rfl)).symm
  | headersDone =>
      rw [halike (by rw [hs]; rfl)]
      exact (headersDone_alike (by rw [hs]; rfl)).symm
  | chunkDataDone => rw [halike (by rw [hs]; rfl)]; exact chunkDataDone_alike.symm
  | messageDone =>
      rw [halike (by rw [hs]; rfl)]
      exact (messageComplete_advance_alike (by rw [hs]; rfl)).symm

/-- Up to the URL, a byte does not see the stored number of bytes. -/
theorem switch_twin (hstage : e.self.state.stage ≠ 2) (n : Nat) :
    switch routed buffer (e.twin n) ch [] = (switch routed buffer e ch []).twin n := by
  have hstate : (e.twin n).self.state = e.self.state := rfl
  unfold switch
  rw [hstate]
  cases hs : e.self.state with
  | dead => exact ite_twin Iff.rfl rfl rfl
  | startReq => exact startReq_twin
  | reqMethod => exact reqMethod_twin
  | reqSpacesBeforeUrl => exact reqSpacesBeforeUrl_twin
  | reqSchema | reqSchemaSlash | reqSchemaSlashSlash | reqServerStart => exact urlPrefix_twin
  | reqServer | reqServerWithAt | reqPath | reqQueryStringStart | reqQueryString =>
      exact urlRest_twin
  | _ =>
      rw [hs] at hstage
      exact absurd rfl hstage

end

/-- Moments that cannot be told apart by what comes. -/
structure Sim (e e' : Exec) : Prop where
  settled : settle e = settle e'
  urlStart : e.self.state.stage = 0 → e.marks.urlStart = e'.marks.urlStart

section
variable {routed : HttpMethod → List Char → Bool} {buffer : Nat} {e e' : Exec} {ch : Char}

theorem Sim.state (h : Sim e e') : e'.self.state = e.self.state := by
  rw [← settle_state e', ← h.settled, settle_state]

theorem Sim.nread (h : Sim e e') : e'.nread = e.nread := by
  rw [← settle_nread e', ← h.settled, settle_nread]

theorem Sim.deliveries (h : Sim e e') : e'.deliveries = e.deliveries := by
  rw [← settle_deliveries e', ← h.settled, settle_deliveries]

theorem sim_twin (n : Nat) : Sim e (e.twin n) := ⟨settle_twin.symm, fun _ => rfl⟩

/-- Up to the URL, they differ in the stored number of bytes at most. -/
theorem Sim.twin (hsim : Sim e e') (h : Inv e) (h' : Inv e') (hstage : e.self.state.stage ≠ 2) :
    e' = e.twin e'.self.nread := by
  cases hin : e.self.state.inUrl with
  | true => exact twin_of_settle hsim.settled hin
  | false =>
      have hplain : e.self.state.plain = true ∧ e.self.state.stage = 0 := by
        cases hs : e.self.state <;> rw [hs] at hin hstage <;>
          first | exact ⟨rfl, rfl⟩ | exact absurd rfl hstage | cases hin
      have halike := alike_of_settle hsim.settled hplain.1 ((fitAt_plain hplain.1).mp h.fit)
        ((fitAt_plain (hsim.state ▸ hplain.1)).mp h'.fit)
      rw [← hsim.urlStart hplain.2] at halike
      exact halike

/-- How two rounds compare. -/
def Step.Sim (e₀ : Exec) (s s' : Step) : Prop :=
  s.settled = s'.settled ∧ ∀ e n e' n', s = .next e n → s' = .next e' n' →
    e.deliveries = e₀.deliveries → HttpParser.Sim e e'

/-- Behind the URL, a byte takes moments that settle alike to ones that settle alike. -/
theorem byte_settled (h : Inv e) (h' : Inv e') (hsim : Sim e e')
    (hstage : e.self.state.stage = 2) :
    (byte routed buffer e ch).settled = (byte routed buffer e' ch).settled := by
  have hswitch : ∀ n, (switch routed buffer { e with nread := n } ch []).settled
      = (switch routed buffer { e' with nread := n } ch []).settled :=
    switch_settled h h' hsim.settled hstage
  unfold byte round
  rw [hsim.state]
  split
  · refine counting_settled hsim.nread.symm hsim.deliveries.symm ?_
    rw [hsim.nread]
    exact hswitch _
  · have hlast := hswitch e.nread
    rw [← hsim.nread] at hlast
    nth_rewrite 1 [hsim.nread] at hlast
    exact hlast

theorem byte_twin (hstage : e.self.state.stage ≠ 2) (n : Nat) :
    byte routed buffer (e.twin n) ch = (byte routed buffer e ch).twin n := by
  refine ite_twin Iff.rfl (ite_twin Iff.rfl rfl ?_) (switch_twin hstage n)
  exact switch_twin (e := { e with nread := e.nread + 1 }) hstage n

/-- **Moments that cannot be told apart take a byte alike.** -/
theorem byte_sim (h : Inv e) (h' : Inv e') (hsim : Sim e e') :
    Step.Sim e (byte routed buffer e ch) (byte routed buffer e' ch) := by
  by_cases hstage : e.self.state.stage = 2
  · have hsettled : (byte routed buffer e ch).settled = (byte routed buffer e' ch).settled :=
      byte_settled h h' hsim hstage
    refine ⟨hsettled, fun e₁ n e₁' n' hstep hstep' hds => ⟨?_, fun hzero => ?_⟩⟩
    · rw [hstep, hstep'] at hsettled
      exact (Step.next.inj hsettled).1
    · have honward : (byte routed buffer e ch).Nexts (Onward e) := byte_onward h
      rw [hstep] at honward
      have hle := (honward.2 hds).1
      omega
  · have htwin : byte routed buffer e' ch = (byte routed buffer e ch).twin e'.self.nread := by
      rw [hsim.twin h h' hstage]
      exact byte_twin hstage _
    refine ⟨?_, fun e₁ n e₁' n' hstep hstep' _ => ?_⟩
    · rw [htwin, settled_twin]
    · rw [htwin, hstep] at hstep'
      obtain ⟨rfl, -⟩ := Step.next.inj hstep'
      exact sim_twin _

end

/-! ## §8. Runs. -/

/-- The end of a loop, settled. -/
def Outcome.settled : Outcome → Outcome
  | .ended e => .ended (settle e)
  | .left e unread => .left (settle e) unread
  | .failed ds => .failed ds
  | .aborted => .aborted

section
variable {routed : HttpMethod → List Char → Bool} {buffer : Nat} {e e' : Exec}

/-- A round that settles like one that goes on goes on. -/
theorem eq_next_of_settled {s : Step} {n : Nat} (h : (Step.next e n).settled = s.settled) :
    ∃ e', s = .next e' n ∧ settle e = settle e' := by
  cases s with
  | next e' n' =>
      obtain ⟨heq, rfl⟩ := Step.next.inj h
      exact ⟨e', rfl, heq⟩
  | leave e' => cases h
  | failed err ds => cases h
  | aborted => cases h

/-- One that settles like one that leaves leaves. -/
theorem eq_leave_of_settled {s : Step} (h : (Step.leave e).settled = s.settled) :
    ∃ e', s = .leave e' ∧ settle e = settle e' := by
  cases s with
  | leave e' => exact ⟨e', rfl, Step.leave.inj h⟩
  | next e' n' => cases h
  | failed err ds => cases h
  | aborted => cases h

/-- One that settles like one that fails fails with the same error. -/
theorem eq_failed_of_settled {s : Step} {err : Errno} {ds : List Delivery}
    (h : (Step.failed err ds).settled = s.settled) : s = .failed err ds := by
  cases s with
  | failed err' ds' =>
      obtain ⟨rfl, rfl⟩ := Step.failed.inj h
      rfl
  | next e' n' => cases h
  | leave e' => cases h
  | aborted => cases h

/-- Moments that cannot be told apart go through the same bytes alike, as long as
    nothing is delivered before the last. -/
theorem bytes_sim (data : List Char) (h : Inv e) (h' : Inv e') (hsim : Sim e e')
    (hnul : '\x00' ∉ data)
    (hquiet : ∀ front back, data = front ++ back → back ≠ [] → ∀ e₁,
      bytes routed buffer e front = .ended e₁ → e₁.deliveries = e.deliveries) :
    (bytes routed buffer e data).settled = (bytes routed buffer e' data).settled := by
  induction data generalizing e e' with
  | nil => exact congrArg Outcome.ended hsim.settled
  | cons ch rest ih =>
      have hne : ch ≠ '\x00' := fun heq => hnul (heq ▸ List.mem_cons_self)
      have hrest : '\x00' ∉ rest := fun hmem => hnul (List.mem_cons_of_mem _ hmem)
      have hinv : (byte routed buffer e ch).All Inv Delivered := inv_round h fun _ => hne
      have hinv' : (byte routed buffer e' ch).All Inv Delivered := inv_round h' fun _ => hne
      obtain ⟨hsettled, hnext⟩ : Step.Sim e (byte routed buffer e ch) (byte routed buffer e' ch) :=
        byte_sim h h' hsim
      rw [bytes_cons, bytes_cons]
      cases hstep : byte routed buffer e ch with
      | next e₁ n =>
          rw [hstep] at hinv hsettled
          obtain ⟨e₁', hstep', heq⟩ := eq_next_of_settled hsettled
          rw [hstep'] at hinv' ⊢
          cases rest with
          | nil => exact congrArg Outcome.ended heq
          | cons ch' rest =>
              -- the byte is not the last one, so it has not delivered anything
              have hds : e₁.deliveries = e.deliveries :=
                hquiet [ch] (ch' :: rest) rfl (by simp) e₁ (by simp [bytes, hstep])
              refine ih hinv hinv' (hnext e₁ n e₁' n hstep hstep' hds) hrest
                fun front back hdata hback e₂ hend => ?_
              rw [hds]
              exact hquiet (ch :: front) back (by rw [hdata]; rfl) hback e₂
                (by rw [bytes_cons, hstep]; exact hend)
      | leave e₁ =>
          rw [hstep] at hsettled
          obtain ⟨e₁', hstep', heq⟩ := eq_leave_of_settled hsettled
          rw [hstep']
          exact congrArg (Outcome.left · rest.length) heq
      | failed err ds =>
          rw [hstep] at hsettled
          rw [eq_failed_of_settled hsettled]
      | aborted =>
          rw [hstep] at hinv
          exact hinv.elim

/-! ## §9. Where buffers end. -/

/-- The moment that a buffer starts with. -/
def HTTPParser.start (h : HTTPParser) : Exec :=
  { self := h, nread := h.nread, marks := startMarks h.state }

/-- What `feed` makes of the end of the loop. -/
def Outcome.conclude (routed : HttpMethod → List Char → Bool) : Outcome → Fed
  | .ended e => finish routed e
  | .left e unread => if unread = 0 then .ok e.self e.deliveries else .closed e.deliveries
  | .failed ds => .closed ds
  | .aborted => .aborted

theorem feed_eq {h : HTTPParser} (hopen : h.messageComplete = false) (data : List Char) :
    feed routed buffer h data = (run routed buffer h.start 0 data).conclude routed := by
  unfold feed
  rw [if_neg (by rw [hopen]; decide)]
  rfl

theorem url_none (h : Inv e) (hs : e.self.state.inUrl = false) : e.marks.url = none := by
  have hfit := h.fit
  cases hstate : e.self.state <;> rw [hstate] at hfit hs <;>
    first | exact hfit.2.2.1 | exact hfit.2.2 | cases hs

theorem flushed_url (e : Exec) :
    (flushHeaderValue (flushHeaderField e)).marks.url = e.marks.url := by
  unfold flushHeaderValue flushHeaderField
  cases e.marks.headerField <;> cases e.marks.headerValue <;> rfl

theorem flushed_nread (e : Exec) :
    (flushBody (flushHeaderValue (flushHeaderField e))).nread = e.nread := by
  unfold flushBody flushHeaderValue flushHeaderField
  cases e.marks.headerField <;> cases e.marks.headerValue <;> cases e.marks.body <;> rfl

/-- Outside the URL, the end of a buffer is the settled parser. -/
theorem finish_outside (h : Inv e) (hs : e.self.state.inUrl = false) :
    finish routed e = .ok (settle e).self e.deliveries := by
  have hall : e.marks.count ≤ 1 ∧ (flushed routed e).All (RestsAs e) Delivered := flushed_all h
  have hurl := (flushed_url e).trans (url_none h hs)
  unfold finish
  rw [if_pos hall.1]
  simp only [flushUrl, hurl, flushed_nread, (flushed_keeps e).2, settle_outside hs]

/-- In the URL, the end of a buffer does not see the stored number of bytes. -/
theorem finish_twin (h : Inv e) (hs : e.self.state.inUrl = true) (n : Nat) :
    finish routed (e.twin n) = finish routed e := by
  obtain ⟨hfield, hvalue, hsome, hbody⟩ : e.marks.OnUrl := (fitAt_inUrl hs).mp h.fit
  obtain ⟨url, hurl⟩ := Option.isSome_iff_exists.mp hsome
  have hrouted : routed (onUrl (e.twin n).self url).req.method (onUrl (e.twin n).self url).req.url
      = routed (onUrl e.self url).req.method (onUrl e.self url).req.url := rfl
  have hmarks : (e.twin n).marks = e.marks := rfl
  unfold finish
  simp only [flushHeaderField, hmarks, hfield, flushHeaderValue, hvalue, flushUrl, hurl, hrouted]
  by_cases hroute : routed (onUrl e.self url).req.method (onUrl e.self url).req.url = true
  · simp only [hroute, if_true, flushBody, hbody]
    rfl
  · simp only [hroute]
    rfl

/-- The end of a buffer is the same for moments that settle alike. -/
theorem finish_settled (h : Inv e) (h' : Inv e') (heq : settle e = settle e') :
    finish routed e = finish routed e' := by
  cases hin : e.self.state.inUrl with
  | true =>
      rw [twin_of_settle heq hin]
      exact (finish_twin h hin _).symm
  | false =>
      have hin' : e'.self.state.inUrl = false := by
        rw [← settle_state e', ← heq, settle_state]
        exact hin
      rw [finish_outside h hin, finish_outside h' hin', heq, ← settle_deliveries e, heq,
        settle_deliveries]

/-- Settling twice is settling once. -/
theorem settle_settle (h : Inv e) (hs : e.self.state.inUrl = false) :
    settle (settle e) = settle e := by
  have hfit := h.fit
  by_cases hplain : e.self.state.plain = true
  · have hm := (fitAt_plain hplain).mp hfit
    rw [settle_bare hplain hm, settle_bare (by exact hplain) ⟨rfl, rfl, rfl, rfl⟩]
  by_cases hbody : e.self.state.ofBody = true
  · have hm : e.marks.OnBody := by
      cases hstate : e.self.state <;> rw [hstate] at hfit hbody <;> first | exact hfit | cases hbody
    have hm' : (settle e).marks.OnBody := by
      rw [settle_body hbody hm]
      unfold flushBody
      split <;> exact hm
    rw [settle_body (e := settle e) (by rw [settle_state]; exact hbody) hm', settle_nread,
      settle_body hbody hm, flushBody_alike, flushBody_none (flushBody_body e)]
    rfl
  cases hstate : e.self.state with
  | headerField =>
      rw [hstate] at hfit
      obtain ⟨hsome, hvalue, hurl, hbody⟩ := hfit
      obtain ⟨name, hmark⟩ := Option.isSome_iff_exists.mp hsome
      have hsettle := settle_name hstate hmark hvalue hbody
      have hstate' : (settle e).self.state = .headerField := (settle_state e).trans hstate
      have htwice := onHeaderField_append e.self (onHeaderField e.self name).toParser e.nread name
        []
      rw [hsettle] at hstate' ⊢
      rw [settle_name (w := []) hstate' rfl rfl rfl]
      refine congrArg (fun self => ({ e with self, marks := startMarks .headerField } : Exec))
        (htwice.trans ?_)
      rw [onHeaderField_toParser, List.append_nil]
  | headerValue =>
      rw [hstate] at hfit
      obtain ⟨hfield, hsome, hurl, hbody⟩ := hfit
      obtain ⟨value, hmark⟩ := Option.isSome_iff_exists.mp hsome
      have hsettle := settle_value hstate hfield hmark hbody
      have hstate' : (settle e).self.state = .headerValue := (settle_state e).trans hstate
      have htwice := onHeaderValue_append e.self (onHeaderValue e.self value).toParser e.nread value
        []
      rw [hsettle] at hstate' ⊢
      rw [settle_value (w := []) hstate' rfl rfl rfl]
      refine congrArg (fun self => ({ e with self, marks := startMarks .headerValue } : Exec))
        (htwice.trans ?_)
      rw [onHeaderValue_toParser, List.append_nil]
  | _ =>
      rw [hstate] at hplain hbody hs
      first | exact absurd rfl hplain | exact absurd rfl hbody | cases hs

/-- Bytes that deliver nothing lead forward. -/
theorem bytes_onward (data : List Char) (h : Inv e) (hnul : '\x00' ∉ data)
    (hquiet : ∀ front back, data = front ++ back → ∀ e₁,
      bytes routed buffer e front = .ended e₁ → e₁.deliveries = e.deliveries)
    (hend : bytes routed buffer e data = .ended e') :
    e.self.state.stage ≤ e'.self.state.stage
      ∧ e'.self.messageComplete = e.self.messageComplete
      ∧ (e'.self.state.stage = 0 → e.marks.urlStart = none → e'.marks.urlStart = none) := by
  induction data generalizing e with
  | nil =>
      cases hend
      exact ⟨Nat.le_refl _, rfl, fun _ hnone => hnone⟩
  | cons ch rest ih =>
      have hne : ch ≠ '\x00' := fun heq => hnul (heq ▸ List.mem_cons_self)
      have hrest : '\x00' ∉ rest := fun hmem => hnul (List.mem_cons_of_mem _ hmem)
      have hinv : (byte routed buffer e ch).All Inv Delivered := inv_round h fun _ => hne
      have honward : (byte routed buffer e ch).Nexts (Onward e) := byte_onward h
      rw [bytes_cons] at hend
      cases hstep : byte routed buffer e ch with
      | next e₁ n =>
          rw [hstep] at hinv honward hend
          have hds := hquiet [ch] rest rfl e₁ (by simp [bytes, hstep])
          obtain ⟨hstage, hself, hmark⟩ := honward.2 hds
          obtain ⟨hstage', hself', hmark'⟩ := ih hinv hrest (fun front back hdata e₂ hend₂ => by
            rw [hds]
            exact hquiet (ch :: front) back (by rw [hdata]; rfl) e₂
              (by rw [bytes_cons, hstep]; exact hend₂)) hend
          refine ⟨Nat.le_trans hstage hstage', hself'.trans hself, fun hzero hnone => ?_⟩
          exact hmark' hzero (hmark (by omega) hnone)
      | leave e₁ => rw [hstep] at hend; cases hend
      | failed err ds => rw [hstep] at hend; cases hend
      | aborted => rw [hstep] at hend; cases hend

end

/-- Nothing has been delivered, and no `Upgrade` header has been seen. -/
def Outcome.Quiet : Outcome → Prop
  | .ended e => e.deliveries = [] ∧ e.self.flags.upgrade = false
  | .failed _ => True
  | .left _ _ => False
  | .aborted => False

instance (o : Outcome) : Decidable o.Quiet :=
  match o with
  | .ended _ => inferInstanceAs (Decidable (_ ∧ _))
  | .failed _ => inferInstanceAs (Decidable True)
  | .left _ _ => inferInstanceAs (Decidable False)
  | .aborted => inferInstanceAs (Decidable False)

section
variable {routed : HttpMethod → List Char → Bool} {buffer : Nat} {h : HTTPParser}

/-- The bytes of one request at most, in which no `Upgrade` header is met: before the last of
    them nothing is delivered, and the flag of the header is not set. -/
def OneRequest (routed : HttpMethod → List Char → Bool) (buffer : Nat) (h : HTTPParser)
    (data : List Char) : Prop :=
  ∀ front back, data = front ++ back → back ≠ [] → (run routed buffer h.start 0 front).Quiet

/-- Whether there is one request only is a matter of the buffer's beginnings. -/
theorem oneRequest_of_take {data : List Char}
    (hquiet : ∀ n, n < data.length → (run routed buffer h.start 0 (data.take n)).Quiet) :
    OneRequest routed buffer h data := by
  intro front back hdata hback
  have hlen := List.length_pos_iff.mpr hback
  have htake := hquiet front.length (by rw [hdata, List.length_append]; omega)
  rwa [hdata, List.take_left] at htake

/-- In one request the loop is a fold over the bytes. -/
theorem OneRequest.run_eq {data : List Char} (hone : OneRequest routed buffer h data)
    (hrest : Resting h) (hnul : '\x00' ∉ data) (front back : List Char)
    (hdata : data = front ++ back) :
    run routed buffer h.start 0 front = bytes routed buffer h.start front := by
  have hfront : ∀ {p q : List Char}, data = p ++ q → '\x00' ∉ p :=
    fun hpq hmem => hnul (hpq ▸ List.mem_append_left _ hmem)
  -- by induction on the length: what is in front is one byte shorter at least
  have hall : ∀ n, ∀ p q : List Char, p.length = n → data = p ++ q →
      run routed buffer h.start 0 p = bytes routed buffer h.start p := by
    intro n
    induction n using Nat.strong_induction_on with
    | _ n ih =>
        intro p q hlen hpq
        refine run_eq_bytes p hrest (hfront hpq) fun p' q' hp' hq' e' hend => ?_
        have hshort : p'.length < n := by
          have := List.length_pos_iff.mpr hq'
          rw [hp', List.length_append] at hlen
          omega
        have hdata' : data = p' ++ (q' ++ q) := by rw [hpq, hp', List.append_assoc]
        have hquiet := hone p' (q' ++ q) hdata' (by simp [hq'])
        rw [ih _ hshort p' _ rfl hdata', hend] at hquiet
        exact hquiet.2
  exact hall _ front back rfl hdata

/-- The callbacks leave the flags. -/
@[simp] theorem settle_flags (e : Exec) : (settle e).self.flags = e.self.flags := by
  unfold settle
  split
  · rfl
  · have hflags := congrArg Parser.flags (flushed_keeps e).1
    exact hflags

theorem settle_self_nread (e : Exec) : (settle e).self.nread = e.nread := by
  unfold settle
  split <;> rfl

/-- The callbacks do not complete a request. -/
theorem settle_messageComplete (e : Exec) :
    (settle e).self.messageComplete = e.self.messageComplete := by
  unfold settle
  split
  · rfl
  · show (flushBody (flushHeaderValue (flushHeaderField e))).self.messageComplete = _
    rw [flushBody_messageComplete, flushHeaderValue_messageComplete,
      flushHeaderField_messageComplete]

/-- An outcome and the settled one are both quiet or both not. -/
theorem quiet_settled {o : Outcome} : o.settled.Quiet ↔ o.Quiet := by
  cases o with
  | ended e => simp [Outcome.settled, Outcome.Quiet]
  | left e unread => rfl
  | failed ds => rfl
  | aborted => rfl

/-- Where the loop leaves, the parser is settled. -/
theorem settle_left {e : Exec} (h : Inv e) (hnread : e.self.nread = e.nread)
    (hs : e.self.state.plain = true) : (settle e).self = e.self := by
  rw [settle_bare hs ((fitAt_plain hs).mp h.fit), ← hnread]

/-- `feed` does not tell ends apart that settle alike. -/
theorem conclude_settled {o o' : Outcome} (h : o.Sound) (h' : o'.Sound)
    (heq : o.settled = o'.settled) : o.conclude routed = o'.conclude routed := by
  cases o with
  | ended e =>
      cases o' with
      | ended e' => exact finish_settled h h' (Outcome.ended.inj heq)
      | left e' unread => cases heq
      | failed ds => cases heq
      | aborted => cases heq
  | left e unread =>
      cases o' with
      | left e' unread' =>
          obtain ⟨hsettle, rfl⟩ := Outcome.left.inj heq
          have hself : e'.self = e.self := by
            rw [← settle_left h'.1 h'.2.1 h'.2.2, ← hsettle, settle_left h.1 h.2.1 h.2.2]
          have hds : e'.deliveries = e.deliveries := by
            rw [← settle_deliveries e', ← hsettle, settle_deliveries]
          simp only [Outcome.conclude, hself, hds]
      | ended e' => cases heq
      | failed ds => cases heq
      | aborted => cases heq
  | failed ds =>
      cases o' with
      | failed ds' => rw [Outcome.failed.inj heq]
      | ended e' => cases heq
      | left e' unread => cases heq
      | aborted => cases heq
  | aborted => exact h.elim

/-- What holds where the bytes of a request are cut: the next buffer starts from
    `(settle e).self`, which cannot be told from the moment `e` of the cut. -/
structure Cut (e : Exec) : Prop where
  inv : Inv e
  start : (settle e).self.start = settle e
  resting : Resting (settle e).self
  complete : (settle e).self.messageComplete = false
  sim : Sim e (settle e)

/-- A cut behind the URL: the first read delivers nothing, and the parser rests where the buffer was
    cut. -/
theorem cut_outside {front back : List Char} (hrest : Resting h)
    (hopen : h.messageComplete = false) (hnul : '\x00' ∉ front ++ back) (hback : back ≠ [])
    (hone : OneRequest routed buffer h (front ++ back)) {e : Exec}
    (hend : run routed buffer h.start 0 front = .ended e) (hs : e.self.state.inUrl = false) :
    Cut e ∧ feed routed buffer h front = .ok (settle e).self [] := by
  have hfront : '\x00' ∉ front := fun hmem => hnul (List.mem_append_left _ hmem)
  have hsound : (run routed buffer h.start 0 front).Sound := run_sound front hrest hfront
  have hquiet := hone front back rfl hback
  rw [hend] at hsound hquiet
  have hinv : Inv e := hsound
  have hbytes := (hone.run_eq hrest hnul front back rfl).symm.trans hend
  have hprefix : ∀ p q, front = p ++ q → ∀ e₁, bytes routed buffer h.start p = .ended e₁ →
      e₁.deliveries = h.start.deliveries := by
    intro p q hpq e₁ hp
    have hdata : front ++ back = p ++ (q ++ back) := by rw [hpq, List.append_assoc]
    have hpquiet := hone p (q ++ back) hdata (by simp [hback])
    rw [hone.run_eq hrest hnul p (q ++ back) hdata, hp] at hpquiet
    exact hpquiet.1
  obtain ⟨-, hcomplete, hmark⟩ := bytes_onward (e := h.start) front hrest hfront hprefix hbytes
  have hmarks : (settle e).marks = startMarks (settle e).self.state := by
    rw [settle_state, settle_outside hs]
  have hds : (settle e).deliveries = [] := (settle_deliveries e).trans hquiet.1
  have hstart : (settle e).self.start = settle e := by
    unfold HTTPParser.start
    rw [← hmarks, settle_self_nread, ← settle_nread e]
    exact congrArg (fun ds => ({ settle e with deliveries := ds } : Exec)) hds.symm
  have hfinish : finish routed e = .ok (settle e).self [] := by
    rw [finish_outside hinv hs, hquiet.1]
  have hfed : (finish routed e).Sound := finish_sound hinv
  rw [hfinish] at hfed
  refine ⟨⟨hinv, hstart, hfed.1, ?_, ⟨(settle_settle hinv hs).symm, fun hzero => ?_⟩⟩, ?_⟩
  · rw [settle_messageComplete, hcomplete]
    exact hopen
  · rw [hmark hzero rfl, hmarks]
    rfl
  · rw [feed_eq hopen, hend]
    exact hfinish

/-- Behind the cut, the bytes that follow are taken alike, and they are still those of
    one request. -/
theorem Cut.behind {e : Exec} {back : List Char} (hcut : Cut e) (hnul : '\x00' ∉ back)
    (hquiet : ∀ p q, back = p ++ q → q ≠ [] →
      (bytes routed buffer e p).Quiet ∧ e.deliveries = []) :
    OneRequest routed buffer (settle e).self back
      ∧ ∀ p q, back = p ++ q →
        (bytes routed buffer e p).settled
          = (bytes routed buffer (settle e).self.start p).settled := by
  have hinv' : Inv (settle e).self.start := hcut.resting
  have hsim : Sim e (settle e).self.start := by
    rw [hcut.start]
    exact hcut.sim
  have hsettled : ∀ p q, back = p ++ q →
      (bytes routed buffer e p).settled
        = (bytes routed buffer (settle e).self.start p).settled := by
    intro p q hpq
    have hp : '\x00' ∉ p := fun hmem => hnul (hpq ▸ List.mem_append_left _ hmem)
    refine bytes_sim p hcut.inv hinv' hsim hp fun p' q' hp' hq' e₁ hend => ?_
    obtain ⟨hq, hds⟩ := hquiet p' (q' ++ q) (by rw [hpq, hp', List.append_assoc]) (by simp [hq'])
    rw [hend] at hq
    exact hq.1.trans hds.symm
  have hquiet' : ∀ p q, back = p ++ q → q ≠ [] →
      (bytes routed buffer (settle e).self.start p).Quiet := by
    intro p q hpq hq
    rw [← quiet_settled, ← hsettled p q hpq, quiet_settled]
    exact (hquiet p q hpq hq).1
  refine ⟨fun p q hpq hq => ?_, hsettled⟩
  have hp : '\x00' ∉ p := fun hmem => hnul (hpq ▸ List.mem_append_left _ hmem)
  rw [run_eq_bytes p hinv' hp fun p' q' hp' hq' e' hend => ?_]
  · exact hquiet' p q hpq hq
  · have hq'' := hquiet' p' (q' ++ q) (by rw [hpq, hp', List.append_assoc]) (by simp [hq'])
    rw [hend] at hq''
    exact hq''.2

theorem andThen_done (f : Fed) : (f.andThen fun h => .ok h []) = f := by
  cases f <;> simp [Fed.andThen]

theorem ok_andThen (k : HTTPParser → Fed) : (Fed.ok h []).andThen k = k h := by
  unfold Fed.andThen
  dsimp only
  cases k h <;> rfl

/-- A parser with a complete request does not read on. -/
theorem receive_complete (hcomplete : h.messageComplete = true) (chunks : List (List Char)) :
    receive routed buffer h chunks = .ok h [] := by
  induction chunks with
  | nil => rfl
  | cons data more ih =>
      have hfeed : feed routed buffer h data = .ok h [] := if_pos hcomplete
      unfold receive
      rw [hfeed, ok_andThen, ih]

/-- An outcome that settles like the end of a buffer is the end of a buffer. -/
theorem eq_ended_of_settled {o : Outcome} {e : Exec} (h : o.settled = (Outcome.ended e).settled) :
    ∃ e', o = .ended e' ∧ settle e' = settle e := by
  cases o with
  | ended e' => exact ⟨e', rfl, Outcome.ended.inj h⟩
  | left e' unread => cases h
  | failed ds => cases h
  | aborted => cases h

/-- The first read of several. -/
theorem receive_cut {data : List Char} {more : List (List Char)} (hrest : Resting h)
    (hopen : h.messageComplete = false) (hnul : '\x00' ∉ data ++ more.flatten)
    (hmore : more.flatten ≠ []) (hone : OneRequest routed buffer h (data ++ more.flatten))
    (hurl : ∀ e, run routed buffer h.start 0 data = .ended e → e.self.state.inUrl = false)
    (ih : ∀ e, Cut e → run routed buffer h.start 0 data = .ended e →
      OneRequest routed buffer (settle e).self more.flatten →
      (∀ p q, more.flatten = p ++ q → (bytes routed buffer e p).settled
        = (bytes routed buffer (settle e).self.start p).settled) →
      receive routed buffer (settle e).self more
        = feed routed buffer (settle e).self more.flatten) :
    receive routed buffer h (data :: more) = feed routed buffer h (data ++ more.flatten) := by
  have hmorenul : '\x00' ∉ more.flatten := fun hmem => hnul (List.mem_append_right _ hmem)
  have hwhole : run routed buffer h.start 0 (data ++ more.flatten)
      = bytes routed buffer h.start (data ++ more.flatten) :=
    hone.run_eq hrest hnul _ [] (List.append_nil _).symm
  have hdata := hone.run_eq hrest hnul data more.flatten rfl
  have hquiet := hone data more.flatten rfl hmore
  unfold receive
  rw [feed_eq hopen (data ++ more.flatten), hwhole, bytes_append, ← hdata]
  cases hrun : run routed buffer h.start 0 data with
  | failed ds =>
      rw [feed_eq hopen, hrun]
      rfl
  | left e unread => rw [hrun] at hquiet; exact hquiet.elim
  | aborted => rw [hrun] at hquiet; exact hquiet.elim
  | ended e =>
      obtain ⟨hcut, hfeed⟩ := cut_outside hrest hopen hnul hmore hone hrun (hurl e hrun)
      rw [hrun] at hquiet
      -- a byte behind the cut is one of the request
      have hbehind : ∀ p q, more.flatten = p ++ q → q ≠ [] →
          (bytes routed buffer e p).Quiet ∧ e.deliveries = [] := by
        intro p q hpq hq
        have hsplit : data ++ more.flatten = (data ++ p) ++ q := by rw [hpq, List.append_assoc]
        have hp := hone (data ++ p) q hsplit hq
        rw [hone.run_eq hrest hnul _ q hsplit, bytes_append, ← hdata, hrun] at hp
        exact ⟨hp, hquiet.1⟩
      obtain ⟨hone', hsettled⟩ := hcut.behind hmorenul hbehind
      have hwhole' := hone'.run_eq hcut.resting hmorenul _ [] (List.append_nil _).symm
      rw [hfeed, ok_andThen, ih e hcut hrun hone' hsettled, feed_eq hcut.complete, hwhole']
      refine (conclude_settled ?_ ?_ (hsettled _ [] (List.append_nil _).symm)).symm
      · have hsound : (run routed buffer h.start 0 (data ++ more.flatten)).Sound :=
          run_sound _ hrest hnul
        rw [hwhole, bytes_append, ← hdata, hrun] at hsound
        exact hsound
      · rw [← hwhole']
        exact run_sound _ hcut.resting hmorenul

end

/-- **How a request without an `Upgrade` header is cut into reads does not matter**, as long
    as no cut is in its URL: what the connection is told and the parser that is left are
    those of a single read.  (The value of an `Upgrade` is judged by two bytes of one read,
    so there the cut does matter.) -/
theorem reads_do_not_matter (routed : HttpMethod → List Char → Bool) (buffer : Nat)
    (h : HTTPParser) (hrest : Resting h) (chunks : List (List Char)) (hsome : chunks ≠ [])
    (hread : ∀ data ∈ chunks, data ≠ []) (hnul : '\x00' ∉ chunks.flatten)
    (hone : OneRequest routed buffer h chunks.flatten)
    (hurl : ∀ n, 0 < n → n < chunks.length → ∀ e,
      run routed buffer h.start 0 (chunks.take n).flatten = .ended e →
      e.self.state.inUrl = false) :
    receive routed buffer h chunks = feed routed buffer h chunks.flatten := by
  induction chunks generalizing h with
  | nil => exact absurd rfl hsome
  | cons data more ih =>
      cases hcomplete : h.messageComplete with
      | true =>
          rw [receive_complete hcomplete]
          exact (if_pos hcomplete).symm
      | false =>
          cases more with
          | nil =>
              rw [List.flatten_cons, List.flatten_nil, List.append_nil]
              exact andThen_done _
          | cons next more =>
              have hmore : (next :: more).flatten ≠ [] := by
                have hnext := hread next (by simp)
                simp [hnext]
              rw [List.flatten_cons] at hnul hone ⊢
              refine receive_cut hrest hcomplete hnul hmore hone
                (fun e hend => hurl 1 (by simp) (by simp) e (by simpa using hend))
                fun e hcut hrun hone' hsettled => ?_
              have hmorenul : '\x00' ∉ (next :: more).flatten :=
                fun hmem => hnul (List.mem_append_right _ hmem)
              refine ih _ hcut.resting (by simp) (fun c hc => hread c (List.mem_cons_of_mem _ hc))
                hmorenul hone' fun n hpos hlt e' hend => ?_
              -- the same cut, seen from the parser before the first read
              have hback : (next :: more).flatten
                  = ((next :: more).take n).flatten ++ ((next :: more).drop n).flatten := by
                rw [← List.flatten_append, List.take_append_drop]
              have hend' := hsettled _ _ hback
              rw [← hone'.run_eq hcut.resting hmorenul _ _ hback, hend] at hend'
              obtain ⟨e'', he'', heq⟩ := eq_ended_of_settled hend'
              have hwhole : data ++ (next :: more).flatten
                  = (data ++ ((next :: more).take n).flatten)
                    ++ ((next :: more).drop n).flatten := by
                rw [List.append_assoc, ← hback]
              have hfirst := hone.run_eq hrest hnul data (next :: more).flatten rfl
              have hrun' : run routed buffer h.start 0 ((data :: next :: more).take (n + 1)).flatten
                  = .ended e'' := by
                rw [List.take_succ_cons, List.flatten_cons, hone.run_eq hrest hnul _ _ hwhole,
                  bytes_append, ← hfirst, hrun]
                exact he''
              have hout := hurl (n + 1) (by omega) (Nat.succ_lt_succ hlt) e'' hrun'
              rw [← settle_state e', ← heq, settle_state]
              exact hout

/-- A cut within the name of a header. -/
theorem reads_do_not_matter_in_a_header :
    receive (fun _ _ => true) 1 {}
        ["GET /orders?status=PAID HTTP/1.1\r\nHo".toList, "st: x\r\n\r\n".toList]
      = feed (fun _ _ => true) 1 {}
          ["GET /orders?status=PAID HTTP/1.1\r\nHo".toList, "st: x\r\n\r\n".toList].flatten := by
  refine reads_do_not_matter _ _ _ resting_new _ (by simp) (by decide) (by decide)
    (oneRequest_of_take (by decide +kernel)) fun n hpos hlt e hend => ?_
  obtain rfl : n = 1 := by
    have hlen : n < 2 := hlt
    omega
  have hstate : (match run (fun _ _ => true) 1 (HTTPParser.start {}) 0
      ("GET /orders?status=PAID HTTP/1.1\r\nHo".toList) with
      | .ended e => e.self.state.inUrl
      | _ => false) = false := by decide +kernel
  rwa [show "GET /orders?status=PAID HTTP/1.1\r\nHo".toList
    = (["GET /orders?status=PAID HTTP/1.1\r\nHo".toList, "st: x\r\n\r\n".toList].take 1).flatten
    from rfl, hend] at hstate

/-- In the URL it does: the path in front of the cut has to have a route of its own, and
    the query string behind it stays in the path. -/
theorem cut_url_keeps_query :
    (receive (fun _ _ => true) 1000 {}
        ["GET /orders/1".toList, "2?x=y HTTP/1.1\r\n\r\n".toList]
      ≠ feed (fun _ _ => true) 1000 {} "GET /orders/12?x=y HTTP/1.1\r\n\r\n".toList) := by
  decide +kernel

end OrderApi.Crow.HttpParser
