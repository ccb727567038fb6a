/-
  OrderApi.Crow.HttpRoundTrip
  ───────────────────────────
  **WHAT IS SENT IS WHAT ARRIVES.**

  A client writes requests onto the connection; the parser takes them apart again:

    • `Message`, `wire`         a request, and its bytes;
    • `Message.request`         the request that the handlers are to see;
    • `reads_message`           the parser reads a message from the first byte to the last;
    • `sent_requests_arrive`    so it does with any number of them, however many a read brings.

  Two things do not come through.  A header without a value is lost unless it is the last
  one, and in a read that brings several requests only the first may have a query string:
  `qs_point` of the others is counted from the URL of the first.
-/
import OrderApi.Crow.HttpHeaders
import OrderApi.Crow.HttpSegments

namespace OrderApi.Crow.HttpParser

/-! ## §1. Messages. -/

/-- The number that hexadecimal digits stand for. -/
def hexadecimal (cs : List Char) : Nat := cs.foldl (fun n c => n * 16 + (unhex c).getD 0) 0

/-- A chunk of a body, with its size as it is written. -/
structure Chunk where
  size : List Char
  data : List Char
  deriving DecidableEq

/-- How the body of a request is sent. -/
inductive Payload where
  /-- There is none. -/
  | none
  /-- `Content-Length`. -/
  | counted (body : List Char)
  /-- `Transfer-Encoding: chunked`. -/
  | chunked (chunks : List Chunk)
  deriving DecidableEq

/-- A request as a client has it in mind. -/
structure Message where
  method : HttpMethod
  path : List Char
  query : Option (List Char) := none
  major : Nat := 1
  minor : Nat := 1
  fields : List Field := []
  payload : Payload := .none
  deriving DecidableEq

def crlf : List Char := ['\r', '\n']

/-- A header on a line of its own. -/
def Field.line (f : Field) : List Char := f.name ++ ([':', ' '] ++ (f.value ++ crlf))

def Chunk.wire (c : Chunk) : List Char := c.size ++ (crlf ++ (c.data ++ crlf))

namespace Payload

def body : Payload → List Char
  | .none => []
  | .counted body => body
  | .chunked chunks => chunks.flatMap Chunk.data

def wire : Payload → List Char
  | .none => []
  | .counted body => body
  | .chunked chunks => chunks.flatMap Chunk.wire ++ ('0' :: crlf ++ crlf)

end Payload

namespace Message

/-- The URL with its query string. -/
def rawUrl (m : Message) : List Char := m.path ++ m.query.elim [] ('?' :: ·)

def version (m : Message) : List Char :=
  ['H', 'T', 'T', 'P', '/', Nat.digitChar m.major, '.', Nat.digitChar m.minor]

/-- What comes in front of the URL. -/
def front (m : Message) : List Char := m.method.name.toList ++ [' ']

/-- What comes behind the URL, up to the body. -/
def back (m : Message) : List Char :=
  ' ' :: (m.version ++ (crlf ++ (m.fields.flatMap Field.line ++ crlf)))

/-- The bytes of a request. -/
def wire (m : Message) : List Char := m.front ++ (m.rawUrl ++ (m.back ++ m.payload.wire))

end Message

/-! ## §2. Requests. -/

/-- The headers that come through: those with a value, and the last one. -/
def kept : List Field → List (List Char × List Char)
  | [] => []
  | [f] => [(f.name, f.value)]
  | f :: fs => if f.value = [] then kept fs else (f.name, f.value) :: kept fs

namespace Message

/-- The path that the router is asked for.  `start` is how far the URL is behind the first
    one of its read. -/
def url (m : Message) (start : Nat) : List Char :=
  match m.query with
  | none => m.path
  | some _ => m.rawUrl.take (start + m.path.length)

/-- What the handlers see of a message. -/
def request (m : Message) (start : Nat) : RawRequest :=
  { method := m.method
    rawUrl := m.rawUrl
    url := m.url start
    headers := kept m.fields
    body := m.payload.body
    httpMajor := m.major
    httpMinor := m.minor
    keepAlive :=
      if m.major = 1 ∧ m.minor = 0 then m.fields.any Field.keepsAlive
      else decide (m.major = 1 ∧ m.minor = 1)
    closeConnection :=
      if m.major = 1 ∧ m.minor = 0 then !m.fields.any Field.keepsAlive
      else if m.major = 1 ∧ m.minor = 1 then m.fields.any Field.closes
      else false }

/-- Where the URL begins, counted from the first one of its read.  `start` is how far that
    one is behind, if there is one. -/
def begins (m : Message) (start : Option Nat) : Nat := start.elim 0 (· + m.front.length)

/-- How far the first URL is behind when the message has been read. -/
def ends (m : Message) (start : Option Nat) : Nat :=
  m.begins start + (m.rawUrl ++ (m.back ++ m.payload.wire)).length

end Message

/-- What the handlers see of the messages of a read. -/
def requests (start : Option Nat) : List Message → List RawRequest
  | [] => []
  | m :: ms => m.request (m.begins start) :: requests (some (m.ends start)) ms

/-- A chunk that is not the last one. -/
structure Chunk.Valid (c : Chunk) : Prop where
  data : c.data ≠ []
  size : hexadecimal c.size = c.data.length
  digits : ∀ d ∈ c.size, (unhex d).isSome = true
  fits : c.data.length / 16 ≤ (ullongMax - 16) / 16
  line : c.size.length + 2 ≤ maxHeaderSize

/-- The fields tell how the body is sent. -/
def Payload.Agrees (fs : List Field) : Payload → Prop
  | .none => fs.any Field.isLength = false ∧ fs.any Field.isEncoding = false
  | .counted body =>
      (fs.filter Field.isLength).map (decimal ·.value) = [body.length]
        ∧ fs.any Field.isEncoding = false
  | .chunked chunks =>
      fs.any Field.isLength = false ∧ fs.any Field.isEncoding = true ∧ ∀ c ∈ chunks, c.Valid

/-- What a client may send. -/
structure Message.Valid (m : Message) : Prop where
  method : m.method ≠ .connect
  path : m.path.head? = some '/' ∧ ∀ c ∈ m.path, isUrlChar c = true
  query : ∀ q ∈ m.query, ∀ c ∈ q, isUrlChar c = true ∨ c = '?'
  version : m.major < 10 ∧ m.minor < 10
  fields : ∀ f ∈ m.fields, f.Valid
  payload : m.payload.Agrees m.fields
  size : (m.front ++ (m.rawUrl ++ m.back)).length + 2 ≤ maxHeaderSize

instance (c : Chunk) : Decidable c.Valid :=
  have : Decidable (∀ d ∈ c.size, (unhex d).isSome = true) := List.decidableBAll _ c.size
  decidable_of_iff
    (c.data ≠ [] ∧ hexadecimal c.size = c.data.length ∧ (∀ d ∈ c.size, (unhex d).isSome = true)
      ∧ c.data.length / 16 ≤ (ullongMax - 16) / 16 ∧ c.size.length + 2 ≤ maxHeaderSize)
    ⟨fun ⟨data, size, digits, fits, line⟩ => ⟨data, size, digits, fits, line⟩,
      fun h => ⟨h.data, h.size, h.digits, h.fits, h.line⟩⟩

instance (fs : List Field) (payload : Payload) : Decidable (payload.Agrees fs) :=
  match payload with
  | .none => inferInstanceAs (Decidable (_ ∧ _))
  | .counted _ => inferInstanceAs (Decidable (_ ∧ _))
  | .chunked _ => inferInstanceAs (Decidable (_ ∧ _ ∧ _))

instance (m : Message) : Decidable m.Valid :=
  have {p : Char → Prop} [DecidablePred p] (cs : List Char) : Decidable (∀ c ∈ cs, p c) :=
    List.decidableBAll p cs
  decidable_of_iff
    (m.method ≠ .connect ∧ (m.path.head? = some '/' ∧ ∀ c ∈ m.path, isUrlChar c = true)
      ∧ (∀ q ∈ m.query, ∀ c ∈ q, isUrlChar c = true ∨ c = '?') ∧ (m.major < 10 ∧ m.minor < 10)
      ∧ (∀ f ∈ m.fields, f.Valid) ∧ m.payload.Agrees m.fields
      ∧ (m.front ++ (m.rawUrl ++ m.back)).length + 2 ≤ maxHeaderSize)
    ⟨fun ⟨method, path, query, version, fields, payload, size⟩ =>
      ⟨method, path, query, version, fields, payload, size⟩,
      fun h => ⟨h.method, h.path, h.query, h.version, h.fields, h.payload, h.size⟩⟩

/-! ## §3. Reading on. -/

section
variable (routed : HttpMethod → List Char → Bool) (buffer : Nat)

/-- Byte by byte, the loop gets from one place to another, and no `Upgrade` is on the
    way. -/
inductive Reads : Exec → List Char → Exec → Prop where
  | nil (e : Exec) : Reads e [] e
  | cons {e e' e'' : Exec} {ch : Char} {rest : List Char} {n : Nat}
      (hup : e.self.flags.upgrade = false)
      (hnul : e.self.state.parsingHeader = true → ch ≠ '\x00')
      (hstep : byte routed buffer e ch = .next e' n) (h : Reads e' rest e'') :
      Reads e (ch :: rest) e''

end

section
variable {routed : HttpMethod → List Char → Bool} {buffer : Nat} {e e' e'' : Exec}

theorem Reads.trans {front back : List Char} (h : Reads routed buffer e front e')
    (h' : Reads routed buffer e' back e'') : Reads routed buffer e (front ++ back) e'' := by
  induction h with
  | nil => exact h'
  | cons hup hnul hstep _ ih => exact .cons hup hnul hstep (ih h')

/-- The loop itself goes there too. -/
theorem Reads.runs {data : List Char} (h : Reads routed buffer e data e') (hinv : Inv e) :
    run routed buffer e 0 data = .ended e' ∧ Inv e' := by
  induction h with
  | nil => exact ⟨rfl, hinv⟩
  | @cons e e₁ e' ch rest n hup hnul hstep hreads ih =>
      have hall : (byte routed buffer e ch).All Inv Delivered := inv_round hinv hnul
      have honward : (byte routed buffer e ch).Nexts (Onward e) := byte_onward hinv
      rw [hstep] at hall honward
      obtain rfl : n = 0 := honward.1
      have hquiet : ∀ e₂ n₂, byte routed buffer e ch = .next e₂ n₂ → rest ≠ [] →
          e₂.self.flags.upgrade = false := by
        intro e₂ n₂ hstep₂ hrest
        rw [hstep] at hstep₂
        cases hstep₂
        cases hreads with
        | nil => exact absurd rfl hrest
        | cons hup₁ => exact hup₁
      rw [run_byte hinv hquiet, hstep]
      exact ih hall

/-- `p` moves over bytes that count, and another parser is there. -/
def Exec.moved (e : Exec) (self : HTTPParser) (cs : List Char) : Exec :=
  { e with self := self, nread := e.nread + cs.length, marks := e.marks.consume cs }

theorem moved_nil (e : Exec) : e.moved e.self [] = e := by
  unfold Exec.moved
  rw [Marks.consume_nil]
  rfl

theorem moved_moved (e : Exec) (h h' : HTTPParser) (cs ds : List Char) :
    (e.moved h cs).moved h' ds = e.moved h' (cs ++ ds) := by
  unfold Exec.moved
  rw [Marks.consume_append, List.length_append]
  simp only [Nat.add_assoc]

end

section
variable (routed : HttpMethod → List Char → Bool) (buffer : Nat)

/-- The bytes of a header take the parser to `h`. -/
def Goes (e : Exec) (cs : List Char) (h : HTTPParser) : Prop :=
  Reads routed buffer e cs (e.moved h cs)

end

section
variable {routed : HttpMethod → List Char → Bool} {buffer : Nat} {e : Exec} {h h' : HTTPParser}

theorem goes_nil : Goes routed buffer e [] e.self := by
  unfold Goes
  rw [moved_nil]
  exact .nil e

theorem Goes.trans {cs ds : List Char} (hcs : Goes routed buffer e cs h)
    (hds : Goes routed buffer (e.moved h cs) ds h') : Goes routed buffer e (cs ++ ds) h' := by
  have hboth := Reads.trans hcs hds
  rwa [moved_moved] at hboth

theorem Goes.cons {c : Char} {cs : List Char} (hc : Goes routed buffer e [c] h)
    (hcs : Goes routed buffer (e.moved h [c]) cs h') : Goes routed buffer e (c :: cs) h' :=
  hc.trans hcs

/-- A byte of a header. -/
theorem reads_byte {e' : Exec} {ch : Char} {n : Nat} (hs : e.self.state.parsingHeader = true)
    (hup : e.self.flags.upgrade = false) (hnul : ch ≠ '\x00') (hsize : e.nread + 1 ≤ maxHeaderSize)
    (hstep : switch routed buffer { e with nread := e.nread + 1 } ch [] = .next e' n) :
    Reads routed buffer e [ch] e' := by
  refine .cons (n := n) hup (fun _ => hnul) ?_ (.nil e')
  rw [byte, round, if_pos hs, Exec.counting, if_neg (by omega)]
  exact hstep

/-- A byte of the head that counts and is passed over. -/
theorem goes_byte {ch : Char} (hs : e.self.state.parsingHeader = true)
    (hup : e.self.flags.upgrade = false) (hnul : ch ≠ '\x00') (hsize : e.nread + 1 ≤ maxHeaderSize)
    (hstep : switch routed buffer { e with nread := e.nread + 1 } ch []
      = ({ e with nread := e.nread + 1, self := h } : Exec).advance ch) :
    Goes routed buffer e [ch] h :=
  reads_byte hs hup hnul hsize hstep

/-! ## §4. The request line. -/

/-- A letter of a method, as far as the matcher goes. -/
def methodStep (s : HttpMethod × Nat) (ch : Char) : Option (HttpMethod × Nat) :=
  if ch = charAt s.1.name s.2 then some (s.1, s.2 + 1)
  else (otherMethod s.1 s.2 ch).map fun m => (m, s.2 + 1)

def methodWalk (s : HttpMethod × Nat) : List Char → Option (HttpMethod × Nat)
  | [] => some s
  | ch :: cs => (methodStep s ch).bind fun s => methodWalk s cs

/-- The letters of methods. -/
def methodLetter (c : Char) : Bool := ('A' ≤ c && c ≤ 'Z') || c = '-'

/-- The letters of a method lead to it. -/
def spells (m : HttpMethod) : List Char → Bool
  | [] => false
  | c :: cs =>
      match firstMethod c with
      | none => false
      | some first =>
          methodWalk (first, 1) cs = some (m, cs.length + 1) && (c :: cs).all methodLetter

theorem method_names (m : HttpMethod) : spells m m.name.toList = true := by
  cases m <;> rfl

theorem methodLetter_ne {c : Char} (h : methodLetter c = true) : c ≠ ' ' ∧ c ≠ '\x00' := by
  constructor
  · rintro rfl
    exact absurd h (by decide)
  · rintro rfl
    exact absurd h (by decide)

/-- A letter of the method. -/
theorem reqMethod_letter {m : HttpMethod} {i : Nat} {ch : Char} (hch : methodLetter ch = true)
    (hstep : methodStep (e.self.method, e.self.index) ch = some (m, i)) :
    reqMethod e ch
      = ({ e with self.method := m, self.req.method := m, self.index := i } : Exec).advance ch := by
  obtain ⟨hspace, hnul⟩ := methodLetter_ne hch
  unfold reqMethod
  rw [if_neg hnul, if_neg (fun h => hspace h.1)]
  unfold methodStep at hstep
  split at hstep
  · rename_i hsame
    cases hstep
    rw [if_pos hsame]
    rfl
  · rename_i hother
    obtain ⟨m', hm', heq⟩ := Option.map_eq_some_iff.mp hstep
    cases heq
    have hcase : (('A' ≤ ch && ch ≤ 'Z') || ch = '-') = true := hch
    rw [if_neg hother, if_pos hcase]
    simp only [hm']
    rfl

/-- The letters of a method, one after the other; the induction is on them. -/
theorem goes_letters {cs : List Char} {m : HttpMethod} {i : Nat}
    (hs : e.self.state = .reqMethod) (hup : e.self.flags.upgrade = false)
    (hsize : e.nread + cs.length ≤ maxHeaderSize) (hcs : ∀ c ∈ cs, methodLetter c = true)
    (hwalk : methodWalk (e.self.method, e.self.index) cs = some (m, i)) :
    ∃ r, Goes routed buffer e cs
      { e.self with method := m, index := i, req.method := r } := by
  induction cs generalizing e with
  | nil =>
      cases hwalk
      exact ⟨_, goes_nil⟩
  | cons ch cs ih =>
      rw [List.length_cons] at hsize
      have hch := hcs ch List.mem_cons_self
      obtain ⟨⟨m₁, i₁⟩, hstep, hrest⟩ := Option.bind_eq_some_iff.mp hwalk
      let h₁ : HTTPParser := { e.self with method := m₁, req.method := m₁, index := i₁ }
      have hfirst : Goes routed buffer e [ch] h₁ := by
        refine goes_byte (by rw [hs]; rfl) hup (methodLetter_ne hch).2 (by omega) ?_
        unfold switch
        rw [hs]
        exact reqMethod_letter (e := { e with nread := e.nread + 1 }) hch hstep
      obtain ⟨r, hmore⟩ := ih (e := e.moved h₁ [ch]) hs hup
        (by show e.nread + 1 + cs.length ≤ _; omega)
        (fun c hc => hcs c (List.mem_cons_of_mem _ hc)) hrest
      exact ⟨r, hfirst.trans hmore⟩

theorem firstMethod_letter {c : Char} {m : HttpMethod} (h : firstMethod c = some m) :
    isAlpha c = true ∧ ¬ (c = '\r' ∨ c = '\n') := by
  unfold firstMethod at h
  split at h
  all_goals first | cases h; done | decide

/-- The parser behind a method. -/
def behindMethod (h : HTTPParser) (m : HttpMethod) : HTTPParser :=
  { h with
    flags := {}, usesTransferEncoding := false, contentLength := ullongMax
    method := m, index := m.name.length + 1, state := .reqSpacesBeforeUrl, req.method := m }

/-- **The method**, with the blank behind it. -/
theorem goes_method {m : HttpMethod} (hs : e.self.state = .startReq)
    (hup : e.self.flags.upgrade = false)
    (hsize : e.nread + (m.name.toList ++ [' ']).length ≤ maxHeaderSize) :
    Goes routed buffer e (m.name.toList ++ [' ']) (behindMethod e.self m) := by
  have hspells := method_names m
  cases hname : m.name.toList with
  | nil =>
      rw [hname] at hspells
      cases hspells
  | cons c cs =>
      rw [hname] at hspells hsize
      rw [List.length_append, List.length_cons, List.length_singleton] at hsize
      unfold spells at hspells
      cases hfirst : firstMethod c with
      | none => simp [hfirst] at hspells
      | some first =>
          simp only [hfirst, Bool.and_eq_true, decide_eq_true_eq, List.all_eq_true] at hspells
          obtain ⟨hwalk, hletters⟩ := hspells
          obtain ⟨halpha, hend⟩ := firstMethod_letter hfirst
          have hlen : cs.length + 1 = m.name.length := by
            rw [← String.length_toList, hname, List.length_cons]
          let h₀ : HTTPParser := { e.self with
            flags := {}, usesTransferEncoding := false, contentLength := ullongMax
            method := first, index := 1, state := .reqMethod }
          have hstart : Goes routed buffer e [c] h₀ := by
            refine goes_byte (by rw [hs]; rfl) hup
              (methodLetter_ne (hletters c List.mem_cons_self)).2 (by omega) ?_
            unfold switch startReq
            rw [hs]
            dsimp only
            rw [if_neg hend, halpha, if_neg (by decide), hfirst]
          obtain ⟨r, hmore⟩ := @goes_letters routed buffer (e.moved h₀ [c]) _ _ _
            rfl rfl (by show e.nread + 1 + cs.length ≤ _; omega)
            (fun d hd => hletters d (List.mem_cons_of_mem _ hd)) hwalk
          have hstop : charAt m.name (cs.length + 1) = '\x00' := by
            rw [charAt, hname, List.getD_eq_getElem?_getD, List.getElem?_eq_none (by simp)]
            rfl
          refine (hstart.trans hmore).trans (goes_byte rfl rfl (by decide) ?_ ?_)
          · show e.nread + (c :: cs).length + 1 ≤ _
            rw [List.length_cons]
            omega
          · show reqMethod _ ' ' = _
            unfold reqMethod
            rw [if_neg (by decide), if_pos ⟨rfl, hstop⟩, behindMethod, ← hlen]
            rfl

/-- A URL character is not what ends a URL. -/
theorem isUrlChar_ne {c : Char} (h : isUrlChar c = true) :
    c ∉ [' ', '\r', '\n', '\t', '\x0c'] ∧ c ≠ '\x00' := by
  simp only [isUrlChar, Bool.and_eq_true, decide_eq_true_eq] at h
  constructor
  · intro hmem
    have hlow : ∀ d ∈ [' ', '\r', '\n', '\t', '\x0c'], d.toNat ≤ 32 := by simp
    have := hlow c hmem
    omega
  · rintro rfl
    exact absurd h.1.1.1 (by decide)

/-- A further character of the URL. -/
theorem urlRest_char {s : State} {ch : Char} (hblank : ch ∉ [' ', '\r', '\n', '\t', '\x0c'])
    (hparse : parseUrlChar e.self.state ch = s) (hdead : s ≠ .dead)
    (hquery : s ≠ .reqQueryStringStart) :
    urlRest routed buffer e ch = (e.goto s).advance ch := by
  simp only [List.mem_cons, List.not_mem_nil, or_false, not_or] at hblank
  unfold urlRest urlChar
  rw [if_neg hblank.1, if_neg (by simp [hblank.2.1, hblank.2.2.1]), hparse]
  cases s <;> first | rfl | exact absurd rfl hdead | exact absurd rfl hquery

/-- The characters of a path. -/
theorem goes_path {cs : List Char} (hs : e.self.state = .reqPath)
    (hup : e.self.flags.upgrade = false) (hsize : e.nread + cs.length ≤ maxHeaderSize)
    (hcs : ∀ c ∈ cs, isUrlChar c = true) : Goes routed buffer e cs e.self := by
  induction cs generalizing e with
  | nil => exact goes_nil
  | cons ch cs ih =>
      rw [List.length_cons] at hsize
      have hch := hcs ch List.mem_cons_self
      obtain ⟨hblank, hnul⟩ := isUrlChar_ne hch
      have hparse : parseUrlChar .reqPath ch = .reqPath := by
        unfold parseUrlChar
        rw [if_neg hblank]
        exact if_pos hch
      have hfirst : Goes routed buffer e [ch] e.self := by
        refine goes_byte (by rw [hs]; rfl) hup hnul (by omega) ?_
        unfold switch
        rw [hs]
        refine (urlRest_char hblank (s := .reqPath) (hs ▸ hparse) (by decide) (by decide)).trans ?_
        rw [← hs]
        rfl
      exact hfirst.trans (ih (e := e.moved e.self [ch]) hs hup
        (by show e.nread + 1 + cs.length ≤ _; omega)
        fun c hc => hcs c (List.mem_cons_of_mem _ hc))

/-- The characters of a query string. -/
theorem goes_query {cs : List Char}
    (hs : e.self.state = .reqQueryStringStart ∨ e.self.state = .reqQueryString)
    (hup : e.self.flags.upgrade = false) (hsize : e.nread + cs.length ≤ maxHeaderSize)
    (hcs : ∀ c ∈ cs, isUrlChar c = true ∨ c = '?') :
    ∃ s, (s = .reqQueryStringStart ∨ s = .reqQueryString)
      ∧ Goes routed buffer e cs { e.self with state := s } := by
  induction cs generalizing e with
  | nil => exact ⟨e.self.state, hs, goes_nil⟩
  | cons ch cs ih =>
      rw [List.length_cons] at hsize
      have hch := hcs ch List.mem_cons_self
      have hne : ch ∉ [' ', '\r', '\n', '\t', '\x0c'] ∧ ch ≠ '\x00' := by
        obtain hurl | rfl := hch
        · exact isUrlChar_ne hurl
        · decide
      have hquery : parseUrlChar.query ch = .reqQueryString := by
        unfold parseUrlChar.query
        obtain hurl | rfl := hch
        · exact if_pos hurl
        · rfl
      have hparse : parseUrlChar e.self.state ch = .reqQueryString := by
        unfold parseUrlChar
        rw [if_neg hne.1]
        obtain hs | hs := hs <;> rw [hs] <;> exact hquery
      have hfirst : Goes routed buffer e [ch] { e.self with state := .reqQueryString } := by
        refine goes_byte (by obtain hs | hs := hs <;> rw [hs] <;> rfl) hup hne.2 (by omega) ?_
        refine Eq.trans ?_ (@urlRest_char routed buffer
          { e with nread := e.nread + 1 } _ _ hne.1 hparse (by decide) (by decide))
        unfold switch
        obtain hs | hs := hs <;> rw [hs]
      obtain ⟨s, hs', hmore⟩ := ih (e := e.moved { e.self with state := .reqQueryString } [ch])
        (.inr rfl) hup (by show e.nread + 1 + cs.length ≤ _; omega)
        fun c hc => hcs c (List.mem_cons_of_mem _ hc)
      exact ⟨s, hs', hfirst.trans hmore⟩

/-- Behind a URL with a route the parser goes on. -/
theorem flushUrl_routed {data : List Char} {k : Exec → Step} (hmark : e.marks.url = some data)
    (hroute : routed (onUrl e.self data).req.method (onUrl e.self data).req.url = true) :
    flushUrl routed e k = k { e with self := onUrl e.self data, marks.url := none } := by
  unfold flushUrl
  rw [hmark]
  exact if_pos hroute

/-- The blank behind the URL. -/
theorem reads_urlEnd {data : List Char}
    (hs : e.self.state = .reqPath ∨ e.self.state = .reqQueryStringStart
      ∨ e.self.state = .reqQueryString)
    (hup : e.self.flags.upgrade = false) (hsize : e.nread + 1 ≤ maxHeaderSize)
    (hmark : e.marks.url = some data)
    (hroute : routed e.self.req.method (onUrl e.self data).req.url = true) :
    Reads routed buffer e [' '] ({ e with marks.url := none }.moved
      { onUrl e.self data with state := .reqHttpStart } [' ']) := by
  refine reads_byte (n := 0) (by obtain hs | hs | hs := hs <;> rw [hs] <;> rfl) hup (by decide)
    hsize ?_
  have hrest : switch routed buffer { e with nread := e.nread + 1 } ' ' []
      = urlRest routed buffer { e with nread := e.nread + 1 } ' ' := by
    unfold switch
    obtain hs | hs | hs := hs <;> rw [hs]
  have hflush := @flushUrl_routed routed
    (({ e with nread := e.nread + 1 } : Exec).goto .reqHttpStart) _ (·.advance ' ') hmark hroute
  rw [hrest, urlRest, if_pos rfl, hflush]
  rfl

/-- `url_start_mark` is set where the first URL begins. -/
def Exec.atUrl (e : Exec) : Exec := { e with marks.urlStart := some (e.marks.urlStart.getD 0) }

/-- The parser behind a URL. -/
def behindUrl (h : HTTPParser) (m : Message) (start : Nat) : HTTPParser :=
  { h with
    state := .reqHttpStart
    qsPoint := if m.query.isSome then start + m.path.length else h.qsPoint
    req.rawUrl := m.rawUrl, req.url := m.url start }

/-- **The URL**: it is handed to `on_url`, with the distance of its query string from the first URL
    of the read. -/
theorem reads_url {m : Message} {start : Nat} (hm : m.Valid)
    (hs : e.self.state = .reqSpacesBeforeUrl) (hup : e.self.flags.upgrade = false)
    (hbare : e.marks.Bare) (hmethod : e.self.method = m.method) (hpoint : e.self.qsPoint = 0)
    (hraw : e.self.req.rawUrl = []) (hstart : e.marks.urlStart.getD 0 = start)
    (hsize : e.nread + (m.rawUrl ++ [' ']).length ≤ maxHeaderSize)
    (hroute : routed e.self.req.method (m.url start) = true) :
    Reads routed buffer e (m.rawUrl ++ [' '])
      (e.atUrl.moved (behindUrl e.self m start) (m.rawUrl ++ [' '])) := by
  obtain ⟨hfield, hvalue, hurl, hbody⟩ := hbare
  obtain ⟨hhead, hchars⟩ := hm.path
  obtain ⟨cs, hpath⟩ : ∃ cs, m.path = '/' :: cs := List.head?_eq_some_iff.mp hhead
  have hcs : ∀ c ∈ cs, isUrlChar c = true :=
    fun c hc => hchars c (by rw [hpath]; exact List.mem_cons_of_mem _ hc)
  let e₁ : Exec := { e with marks.url := some [], marks.urlStart := some start }
  have hmarked : markUrl { e with nread := e.nread + 1 } = { e₁ with nread := e.nread + 1 } := by
    unfold markUrl
    simp only [hurl, hstart]
    rfl
  rw [List.length_append, List.length_singleton] at hsize
  have hslash : Reads routed buffer e ['/'] (e₁.moved { e.self with state := .reqPath } ['/']) := by
    refine reads_byte (n := 0) (by rw [hs]; rfl) hup (by decide) (by omega) ?_
    have hconnect : e₁.self.method ≠ .connect := by
      rw [show e₁.self.method = m.method from hmethod]
      exact hm.method
    have hparse : parseUrlChar e₁.self.state '/' = .reqPath := by
      rw [show e₁.self.state = .reqSpacesBeforeUrl from hs]
      decide
    unfold switch
    rw [hs]
    show reqSpacesBeforeUrl _ _ _ = _
    unfold reqSpacesBeforeUrl
    rw [hmarked]
    dsimp only
    rw [if_neg (by decide), if_neg hconnect]
    unfold urlChar
    rw [hparse]
    rfl
  have hlen : m.rawUrl.length = cs.length + 1 + (m.query.elim [] ('?' :: ·)).length := by
    rw [Message.rawUrl, hpath, List.length_append, List.length_cons]
  let h₁ : HTTPParser := { e.self with state := .reqPath }
  have hpath' : Reads routed buffer e m.path (e₁.moved h₁ m.path) := by
    have hrest := @goes_path routed buffer (e₁.moved h₁ ['/']) _ rfl hup
      (by show e.nread + 1 + cs.length ≤ _; omega) hcs
    have hboth := hslash.trans hrest
    rw [moved_moved] at hboth
    rw [hpath]
    exact hboth
  have hatUrl : ({ e₁ with marks.url := none } : Exec) = e.atUrl := by
    simp only [e₁, Exec.atUrl, hstart, ← hurl]
  have hend : ∀ (h h' : HTTPParser) (cs : List Char),
      ({ e₁.moved h cs with marks.url := none } : Exec).moved h' [' ']
        = e.atUrl.moved h' (cs ++ [' ']) := by
    intro h h' cs
    rw [← moved_moved e.atUrl h, ← hatUrl]
    rfl
  -- what the callback makes of the URL
  have hbehind : ∀ (s : State) (point : Nat),
      point = (if m.query.isSome then start + m.path.length else e.self.qsPoint) →
      { onUrl { e.self with state := s, qsPoint := point } m.rawUrl with state := .reqHttpStart }
        = behindUrl e.self m start := by
    intro s point hpoint'
    subst hpoint'
    unfold onUrl behindUrl Message.url
    simp only [hraw, List.nil_append, hpoint]
    cases hquery : m.query with
    | none => simp [Message.rawUrl, hquery]
    | some q => simp [hpath]
  have hfound : ∀ h : HTTPParser, { h with state := .reqHttpStart } = behindUrl e.self m start →
      routed e.self.req.method h.req.url = true := by
    intro h hdone
    have hurl' : h.req.url = m.url start := congrArg (fun h : HTTPParser => h.req.url) hdone
    rwa [hurl']
  cases hquery : m.query with
  | none =>
      have hwhole : m.rawUrl = m.path := by
        rw [Message.rawUrl, hquery]
        exact List.append_nil _
      have hdone := hbehind .reqPath e.self.qsPoint (by rw [hquery]; rfl)
      rw [hwhole] at hdone hsize ⊢
      rw [← hdone, ← hend h₁]
      refine hpath'.trans (reads_urlEnd (.inl rfl) hup ?_ rfl (hfound _ hdone))
      show e.nread + m.path.length + 1 ≤ maxHeaderSize
      omega
  | some q =>
      have hwhole : m.rawUrl = m.path ++ '?' :: q := by rw [Message.rawUrl, hquery]; rfl
      rw [hquery, Option.elim_some, List.length_cons] at hlen
      let point : Nat := start + m.path.length
      let h₂ : HTTPParser := { e.self with state := .reqQueryStringStart, qsPoint := point }
      have hpathLen : m.path.length = cs.length + 1 := by rw [hpath, List.length_cons]
      have hmark : Goes routed buffer (e₁.moved h₁ m.path) ['?'] h₂ := by
        refine goes_byte rfl hup (by decide) ?_ rfl
        show e.nread + m.path.length + 1 ≤ maxHeaderSize
        omega
      obtain ⟨s, hs', hgoes⟩ := @goes_query routed buffer
        ((e₁.moved h₁ m.path).moved h₂ ['?']) q (.inl rfl) hup
        (by show e.nread + m.path.length + 1 + q.length ≤ maxHeaderSize; omega)
        (hm.query q (by rw [hquery]; rfl))
      have hreads := hpath'.trans (hmark.trans hgoes)
      rw [moved_moved, List.singleton_append, ← hwhole] at hreads
      have hdone := hbehind s point (by rw [hquery]; rfl)
      rw [← hdone, ← hend]
      refine hreads.trans (reads_urlEnd (.inr hs') hup ?_ rfl (hfound _ hdone))
      show e.nread + m.rawUrl.length + 1 ≤ maxHeaderSize
      omega

/-- A single digit is written as one. -/
theorem digitChar_isNum {n : Nat} (h : n < 10) :
    isNum (Nat.digitChar n) = true ∧ digit (Nat.digitChar n) = n
      ∧ Nat.digitChar n ≠ '\x00' := by
  have hall : ∀ n, n < 10 → isNum (Nat.digitChar n) = true ∧ digit (Nat.digitChar n) = n
      ∧ Nat.digitChar n ≠ '\x00' := by decide
  exact hall n h

/-- The parser behind the request line. -/
def behindVersion (h : HTTPParser) (m : Message) : HTTPParser :=
  { h with state := .headerFieldStart, httpMajor := m.major, httpMinor := m.minor }

/-- **The version**, with the end of its line. -/
theorem goes_version {m : Message} (hm : m.Valid) (hs : e.self.state = .reqHttpStart)
    (hup : e.self.flags.upgrade = false)
    (hsize : e.nread + (m.version ++ crlf).length ≤ maxHeaderSize) :
    Goes routed buffer e (m.version ++ crlf) (behindVersion e.self m) := by
  obtain ⟨hmajor, hmajor', hmajorNul⟩ := digitChar_isNum hm.version.1
  obtain ⟨hminor, hminor', hminorNul⟩ := digitChar_isNum hm.version.2
  have hsize' : e.nread + 10 ≤ maxHeaderSize := hsize
  have hle : ∀ k, k < 10 → e.nread + k + 1 ≤ maxHeaderSize := fun k hk => by omega
  let name (s : State) : HTTPParser := { e.self with state := s }
  let number (s : State) : HTTPParser := { name s with httpMajor := m.major }
  refine Goes.cons (h := name .reqHttpH) (goes_byte (by rw [hs]; rfl) hup (by decide)
    (hle 0 (by decide)) (by unfold switch; rw [hs]; rfl)) ?_
  refine Goes.cons (h := name .reqHttpHT)
    (goes_byte rfl hup (by decide) (hle 1 (by decide)) rfl) ?_
  refine Goes.cons (h := name .reqHttpHTT)
    (goes_byte rfl hup (by decide) (hle 2 (by decide)) rfl) ?_
  refine Goes.cons (h := name .reqHttpHTTP)
    (goes_byte rfl hup (by decide) (hle 3 (by decide)) rfl) ?_
  refine Goes.cons (h := name .reqHttpMajor)
    (goes_byte rfl hup (by decide) (hle 4 (by decide)) rfl) ?_
  refine Goes.cons (h := number .reqHttpDot)
    (goes_byte rfl hup hmajorNul (hle 5 (by decide)) ?_) ?_
  · show reqHttpMajor _ _ = _
    unfold reqHttpMajor
    rw [hmajor, if_neg (by decide), hmajor']
    rfl
  refine Goes.cons (h := number .reqHttpMinor)
    (goes_byte rfl hup (by decide) (hle 6 (by decide)) rfl) ?_
  refine Goes.cons (h := { number .reqHttpEnd with httpMinor := m.minor })
    (goes_byte rfl hup hminorNul (hle 7 (by decide)) ?_) ?_
  · show reqHttpMinor _ _ = _
    unfold reqHttpMinor
    rw [hminor, if_neg (by decide), hminor']
    rfl
  refine Goes.cons (h := { number .reqLineAlmostDone with httpMinor := m.minor })
    (goes_byte rfl hup (by decide) (hle 8 (by decide)) rfl) ?_
  exact goes_byte rfl hup (by decide) (hle 9 (by decide)) rfl

end

/-! ## §5. A header. -/

section
variable (routed : HttpMethod → List Char → Bool) (buffer : Nat)

/-- Between two lines: at a byte that does not go on with the last one, the parser is as in
    `e'`. -/
structure AtLine (e e' : Exec) : Prop where
  header : e.self.state.parsingHeader = true
  upgrade : e.self.flags.upgrade = false
  nread : e'.nread = e.nread
  state : e'.self.state = .headerFieldStart
  bare : e'.marks.Bare
  starts : ∀ ch n, ch ≠ ' ' → ch ≠ '\t' →
    switch routed buffer { e with nread := n } ch [] = headerFieldStart { e' with nread := n } ch

end

/-- The headers that are settled when the name of another one begins. -/
def settledHeaders (h : HTTPParser) : List (List Char × List Char) :=
  if h.headerValue ≠ [] then h.req.headers ++ [(h.headerField, h.headerValue)] else h.req.headers

/-- What a header does to the parser. -/
def Behind (f : Field) (h h' : HTTPParser) : Prop :=
  ∃ hs index, h' = { h with
    state := .headerFieldStart, headerState := hs, index := index
    flags := f.flagged h.flags, contentLength := f.lengthened h.contentLength
    usesTransferEncoding := h.usesTransferEncoding || f.isEncoding
    req.headers := settledHeaders h
    headerField := f.name, headerValue := f.value, headerBuilding := false }

section
variable {routed : HttpMethod → List Char → Bool} {buffer : Nat} {e : Exec} {h : HTTPParser}

theorem counting_zero {k : Exec → Step} (hsize : e.nread ≤ maxHeaderSize) : e.counting 0 k = k e :=
  if_neg (Nat.not_lt.mpr hsize)

theorem token_ne_nul {c : Char} (h : (token c).isSome = true) : c ≠ '\x00' := by
  rintro rfl
  exact absurd h (by decide)

/-- The letters of a name behind the first one. -/
theorem goes_name {n cs : List Char} {q : Parser} (hs : e.self.state = .headerField)
    (hat : NameAt n e.self.headerState e.self.index) (hup : e.self.flags.upgrade = false)
    (hsize : e.nread + cs.length ≤ maxHeaderSize) (hcs : NameText cs)
    (hloop : fieldLoop e.self.toParser cs = some (q, cs.length)) :
    Goes routed buffer e cs { e.self with toParser := q } := by
  induction cs generalizing e n with
  | nil =>
      cases hloop
      exact goes_nil
  | cons c cs ih =>
      rw [List.length_cons] at hsize
      have hsize₁ : e.nread + 1 ≤ maxHeaderSize := by omega
      have hc := hcs c List.mem_cons_self
      obtain ⟨hs₁, index, uses, hstep, hat₁, -⟩ := fieldChar_nameAt hat hc
      let p₁ : Parser := { e.self.toParser with
        headerState := hs₁, index := index, usesTransferEncoding := uses }
      have hrest : fieldLoop p₁ cs = some (q, cs.length) := by
        rw [fieldLoop, token_eq hc] at hloop
        simp only [hstep, Option.bind_eq_bind, Option.bind_some] at hloop
        obtain ⟨⟨r, n'⟩, hr, hdone⟩ := Option.bind_eq_some_iff.mp hloop
        obtain ⟨rfl, hn⟩ := Prod.mk.inj (Option.some.inj hdone)
        rw [List.length_cons] at hn
        rw [hr, show n' = cs.length by omega]
      have hfirst : Goes routed buffer e [c] { e.self with toParser := p₁ } := by
        refine goes_byte (by rw [hs]; rfl) hup (token_ne_nul hc) (by omega) ?_
        unfold switch
        rw [hs]
        have hread := headerField_token (e := { e with nread := e.nread + 1 }) (token_eq hc) hstep
        rw [counting_zero hsize₁] at hread
        exact hread
      exact hfirst.cons (ih (e := e.moved { e.self with toParser := p₁ } [c]) hs hat₁ hup
        (by show e.nread + 1 + cs.length ≤ _; omega) (fun d hd => hcs d (List.mem_cons_of_mem _ hd))
        hrest)

/-- A character of a value changes what the header is about, not the state or the flags. -/
theorem valueChar_frame {p q : Parser} {c : Char} (hq : valueChar p c = some (.ok q)) :
    q.state = p.state ∧ q.flags = p.flags := by
  have hdigit : ∀ {q : Parser}, lengthDigit p c = .ok q →
      q.state = p.state ∧ q.flags = p.flags := by
    intro q hq
    unfold lengthDigit at hq
    split at hq
    · cases hq
      exact ⟨rfl, rfl⟩
    · split at hq
      · cases hq
      · split at hq
        · cases hq
        · cases hq
          exact ⟨rfl, rfl⟩
  have hsame : ∀ {hs : HeaderState} {index : Nat},
      (some (.ok { p with headerState := hs, index := index }) : Option (Except Errno Parser))
        = some (.ok q) → q.state = p.state ∧ q.flags = p.flags := by
    intro hs index hq
    cases hq
    exact ⟨rfl, rfl⟩
  unfold valueChar at hq
  cases hs : p.headerState <;> rw [hs] at hq <;> dsimp only at hq
  case connection => cases hq
  case transferEncoding => cases hq
  case contentLength =>
    split at hq
    · cases hq
      exact ⟨rfl, rfl⟩
    · exact hdigit (Option.some.inj hq)
  case contentLengthNum => exact hdigit (Option.some.inj hq)
  case contentLengthWs =>
    split at hq
    · cases hq
      exact ⟨rfl, rfl⟩
    · cases hq
  case matchingTransferEncodingTokenStart =>
    split at hq
    · exact hsame hq
    · split at hq
      · exact hsame hq
      · split at hq
        · exact hsame hq
        · exact hsame hq
  case matchingTransferEncodingToken =>
    split at hq
    · exact hsame hq
    · cases hq
      exact ⟨rfl, rfl⟩
  case general =>
    cases hq
    exact ⟨rfl, rfl⟩
  all_goals exact hsame hq

/-- So do all the characters of a value. -/
theorem valueLoop_frame {p q : Parser} {cs : List Char} {n : Nat}
    (h : valueLoop p cs = some (.ok (q, n))) : q.state = p.state ∧ q.flags = p.flags := by
  induction cs generalizing p n with
  | nil =>
      cases h
      exact ⟨rfl, rfl⟩
  | cons c cs ih =>
      rw [valueLoop] at h
      split at h
      · cases h
        exact ⟨rfl, rfl⟩
      · split at h
        · cases h
        · split at h
          · cases h
          · cases h
          · rename_i p₁ hstep
            obtain ⟨r, hr, hmap⟩ := Option.map_eq_some_iff.mp h
            cases r with
            | error err => cases hmap
            | ok r =>
                obtain ⟨r, n'⟩ := r
                obtain ⟨rfl, -⟩ := Prod.mk.inj (Except.ok.inj hmap)
                obtain ⟨hstate, hflags⟩ := ih hr
                obtain ⟨hstate₁, hflags₁⟩ := valueChar_frame hstep
                exact ⟨hstate.trans hstate₁, hflags.trans hflags₁⟩

/-- The characters of a value behind the first one. -/
theorem goes_value {cs : List Char} {q : Parser} (hs : e.self.state = .headerValue)
    (hup : e.self.flags.upgrade = false) (hsize : e.nread + cs.length ≤ maxHeaderSize)
    (hcs : ValueChars cs) (hloop : valueLoop e.self.toParser cs = some (.ok (q, cs.length))) :
    Goes routed buffer e cs { e.self with toParser := q } := by
  induction cs generalizing e with
  | nil =>
      cases hloop
      exact goes_nil
  | cons c cs ih =>
      rw [List.length_cons] at hsize
      have hsize₁ : e.nread + 1 ≤ maxHeaderSize := by omega
      obtain ⟨hchar, hcr, hlf⟩ := hcs c List.mem_cons_self
      have hend : ¬ (c = '\r' ∨ c = '\n') := by simp [hcr, hlf]
      have hnul : c ≠ '\x00' := by
        rintro rfl
        exact absurd hchar (by decide)
      rw [valueLoop, if_neg hend, hchar, if_neg (by decide)] at hloop
      cases hstep : valueChar e.self.toParser c with
      | none => simp [hstep] at hloop
      | some r =>
          cases r with
          | error err => simp [hstep] at hloop
          | ok p₁ =>
              obtain ⟨hstate, hflags⟩ := valueChar_frame hstep
              have hrest : valueLoop p₁ cs = some (.ok (q, cs.length)) := by
                simp only [hstep] at hloop
                obtain ⟨r, hr, hmap⟩ := Option.map_eq_some_iff.mp hloop
                cases r with
                | error err => cases hmap
                | ok r =>
                    obtain ⟨hq, hn⟩ := Prod.mk.inj (Except.ok.inj hmap)
                    rw [List.length_cons] at hn
                    rw [hr, ← hq, show cs.length = r.2 by omega]
              have hfirst : Goes routed buffer e [c] { e.self with toParser := p₁ } := by
                refine goes_byte (by rw [hs]; rfl) hup hnul (by omega) ?_
                unfold switch
                rw [hs]
                have hread := headerValue_char (e := { e with nread := e.nread + 1 }) hend hchar
                  hstep
                rw [counting_zero hsize₁] at hread
                exact hread
              exact hfirst.cons (ih (e := e.moved { e.self with toParser := p₁ } [c])
                (hstate.trans hs) ((congrArg Flags.upgrade hflags).trans hup)
                (by show e.nread + 1 + cs.length ≤ _; omega) hcs.tail hrest)

/-- The parser behind a name: the header before it is settled. -/
def behindName (h : HTTPParser) (f : Field) (hs : HeaderState) (index : Nat) (uses : Bool) :
    HTTPParser :=
  { h with
    state := .headerValueDiscardWs, headerState := hs, index := index
    usesTransferEncoding := uses
    req.headers := settledHeaders h
    headerField := f.name, headerValue := [], headerBuilding := true }

/-- A name behind a complete header begins a new one. -/
theorem onHeaderField_name (h : HTTPParser) (f : Field) (q : Parser)
    (hbuilding : h.headerBuilding = false) :
    onHeaderField { h with toParser := q } f.name
      = { behindName h f q.headerState q.index q.usesTransferEncoding with toParser := q } := by
  unfold onHeaderField behindName settledHeaders
  rw [if_neg (by simp [hbuilding])]
  by_cases hvalue : h.headerValue = []
  · simp [hvalue]
  · simp [hvalue]

/-- **The name** of a field, with the colon and the blank. -/
theorem reads_name {x : Exec} {f : Field} (hline : AtLine routed buffer e x) (hf : f.Valid)
    (hup : x.self.flags.upgrade = false) (hbuilding : x.self.headerBuilding = false)
    (hsize : e.nread + (f.name ++ [':', ' ']).length ≤ maxHeaderSize) :
    ∃ hs index uses, Reads routed buffer e (f.name ++ [':', ' '])
        (x.moved (behindName x.self f hs index uses) (f.name ++ [':', ' ']))
      ∧ Named f hs ∧ (f.touchesEncoding = false → uses = x.self.usesTransferEncoding)
      ∧ (f.isEncoding = true → uses = true) := by
  obtain ⟨self, nread, ⟨field, value, url, start, body⟩, ds⟩ := x
  obtain ⟨rfl, rfl, rfl, rfl⟩ := hline.bare
  let x : Exec := { self := self, nread := nread, marks := { urlStart := start }, deliveries := ds }
  obtain ⟨hsome, htext⟩ := hf.name
  obtain ⟨a, as, hname⟩ : ∃ a as, f.name = a :: as := List.exists_cons_of_ne_nil hsome
  have ha : (token a).isSome = true := htext a (by rw [hname]; exact List.mem_cons_self)
  rw [hname] at hsize
  simp only [List.length_append, List.length_cons, List.length_nil] at hsize
  let x₁ : Exec := { x with marks.headerField := some [] }
  let h₁ : HTTPParser := { x.self with
    index := 0, state := .headerField, headerState := firstHeaderState a.toLower }
  have hfirst : Reads routed buffer e [a] (x₁.moved h₁ [a]) := by
    refine reads_byte (n := 0) hline.header hline.upgrade (token_ne_nul ha) (by omega) ?_
    rw [hline.starts a _ (token_ne_space ha) (by rintro rfl; exact absurd ha (by decide)),
      ← hline.nread]
    have hcr : a ≠ '\r' := by
      rintro rfl
      exact absurd ha (by decide)
    have hlf : a ≠ '\n' := by
      rintro rfl
      exact absurd ha (by decide)
    unfold headerFieldStart
    rw [if_neg hcr, if_neg hlf, token_eq ha]
    rfl
  obtain ⟨hs, index, uses, hloop, hnamed, htouches, hencoding⟩ :=
    fieldLoop_named (p := h₁.toParser) hname htext rfl rfl
  let q : Parser := { h₁.toParser with
    headerState := hs, index := index, usesTransferEncoding := uses }
  have hmore : Goes routed buffer (x₁.moved h₁ [a]) as { h₁ with toParser := q } := by
    refine goes_name rfl (firstHeaderState_nameAt a.toLower) hup ?_
      (fun c hc => htext c (by rw [hname]; exact List.mem_cons_of_mem _ hc)) hloop
    show x.nread + 1 + as.length ≤ _
    rw [hline.nread]
    omega
  refine ⟨hs, index, uses, ?_, hnamed, htouches, hencoding⟩
  have hletters := hfirst.trans hmore
  rw [moved_moved, List.singleton_append, ← hname] at hletters
  let h₂ : HTTPParser := behindName x.self f hs index uses
  have hcolon : Reads routed buffer (x₁.moved { h₁ with toParser := q } f.name) [':']
      (x.moved h₂ (f.name ++ [':'])) := by
    have hroom : x.nread + f.name.length + 1 ≤ maxHeaderSize := by
      rw [hline.nread, hname, List.length_cons]
      omega
    have hstop := @headerField_stop { x₁.moved { h₁ with toParser := q } f.name with
      nread := x.nread + f.name.length + 1 } ':' [] (show token ':' = none by decide)
    rw [counting_zero hroom, if_pos rfl] at hstop
    refine reads_byte (n := 0) rfl hup (by decide) hroom (hstop.trans ?_)
    have hflush : onHeaderField
        { self with toParser := { q with state := .headerValueDiscardWs } } f.name = h₂ :=
      onHeaderField_name self f _ hbuilding
    have hmarks : Marks.consume { urlStart := start } (f.name ++ [':'])
        = { urlStart := (start.map (· + f.name.length)).map (· + 1) } := by
      cases start <;> simp [Marks.consume, Nat.add_assoc]
    have hlen : nread + f.name.length + 1 = nread + (f.name ++ [':']).length := by
      rw [List.length_append, List.length_singleton, Nat.add_assoc]
    refine Eq.trans (congrArg (fun h : HTTPParser => Step.next { x with
      self := h, nread := nread + f.name.length + 1
      marks := { urlStart := (start.map (· + f.name.length)).map (· + 1) } } 0) hflush) ?_
    rw [← hmarks, hlen]
    rfl
  have hspace : Goes routed buffer (x.moved h₂ (f.name ++ [':'])) [' '] h₂ := by
    refine goes_byte rfl hup (by decide) ?_ rfl
    show x.nread + (f.name ++ [':']).length + 1 ≤ _
    rw [hline.nread, List.length_append, hname, List.length_cons, List.length_singleton]
    omega
  have hall := hletters.trans (hcolon.trans hspace)
  rwa [moved_moved, List.append_assoc] at hall

theorem finishedFlags_upgrade (hs : HeaderState) (flags : Flags) :
    (finishedFlags hs flags).upgrade = flags.upgrade := by
  cases hs <;> rfl

/-- The parser behind a value. -/
def behindValue (h : HTTPParser) (f : Field) (hs : HeaderState) (index : Nat) : HTTPParser :=
  { h with
    state := .headerFieldStart, headerState := hs, index := index
    flags := f.flagged h.flags, contentLength := f.lengthened h.contentLength
    headerValue := f.value, headerBuilding := false }

/-- A header that has no value says nothing to the parser. -/
theorem empty_plain {f : Field} (hf : f.Valid) (hvalue : f.value = []) :
    (∀ flags, f.flagged flags = flags) ∧ ∀ n, f.lengthened n = n := by
  have hlen : f.isLength = false := by
    cases h : f.isLength with
    | false => rfl
    | true => exact absurd hvalue (hf.length h).1
  have henc : f.isEncoding = false := by
    cases h : f.isEncoding with
    | false => rfl
    | true =>
        have hword := (hf.encoding (isEncoding_touches h)).2
        rw [hvalue] at hword
        cases hword
  constructor
  · intro flags
    simp [Field.flagged, Field.keepsAlive, Field.closes, hvalue, hlen, henc]
  · intro n
    rw [Field.lengthened, hlen]
    rfl

/-- A field without a value: its line is over at once, and the next one may go on with it. -/
theorem reads_emptyValue {f : Field} (hf : f.Valid) (hvalue : f.value = [])
    (hs : e.self.state = .headerValueDiscardWs) (hup : e.self.flags.upgrade = false)
    (hbare : e.marks.Bare) (hbuilding : e.self.headerBuilding = true)
    (hsize : e.nread + 2 ≤ maxHeaderSize) :
    ∃ e' hs index, Reads routed buffer e crlf e'
      ∧ AtLine routed buffer e' (e.moved (behindValue e.self f hs index) crlf) := by
  obtain ⟨self, nread, ⟨field, value, url, start, body⟩, ds⟩ := e
  obtain ⟨rfl, rfl, rfl, rfl⟩ := hbare
  obtain ⟨hflags, hlength⟩ := empty_plain hf hvalue
  let x : Exec := { self := self, nread := nread, marks := { urlStart := start }, deliveries := ds }
  let h₁ : HTTPParser := { self with state := .headerValueDiscardWsAlmostDone }
  let h₂ : HTTPParser := { self with state := .headerValueDiscardLws }
  have hcr : Goes routed buffer x ['\r'] h₁ := by
    refine goes_byte (by rw [show x.self.state = _ from hs]; rfl) hup (by decide)
      (by show nread + 1 ≤ _; exact Nat.le_of_succ_le hsize) ?_
    unfold switch
    rw [show x.self.state = _ from hs]
    rfl
  have hlf : Goes routed buffer (x.moved h₁ ['\r']) ['\n'] h₂ :=
    goes_byte rfl hup (by decide) hsize rfl
  refine ⟨_, self.headerState, self.index, hcr.trans hlf, rfl, hup, rfl, rfl,
    ⟨rfl, rfl, rfl, rfl⟩, ?_⟩
  intro ch n hspace htab
  show headerValueDiscardLws _ ch = _
  unfold headerValueDiscardLws
  rw [if_neg (by simp [hspace, htab])]
  have hdone : onHeaderValue { self with state := .headerFieldStart } []
      = behindValue self f self.headerState self.index := by
    unfold onHeaderValue behindValue
    rw [if_pos hbuilding, hflags, hlength, hvalue]
  exact congrArg (fun h : HTTPParser => headerFieldStart { x with
    self := h, nread := n, marks := Marks.consume { urlStart := start } crlf } ch) hdone

/-- A field with a value: `on_header_value` gets it when the line ends. -/
theorem reads_someValue {f : Field} {v : Char} {vs : List Char} (hf : f.Valid)
    (hvalue : f.value = v :: vs) (hs : e.self.state = .headerValueDiscardWs)
    (hup : e.self.flags.upgrade = false) (hbare : e.marks.Bare)
    (hbuilding : e.self.headerBuilding = true) (hnamed : Named f e.self.headerState)
    (honce : f.isLength = true → e.self.flags.contentLength = false)
    (hsize : e.nread + (f.value ++ crlf).length ≤ maxHeaderSize) :
    ∃ e' hs index, Reads routed buffer e (f.value ++ crlf) e'
      ∧ AtLine routed buffer e' (e.moved (behindValue e.self f hs index) (f.value ++ crlf)) := by
  obtain ⟨self, nread, ⟨field, value, url, start, body⟩, ds⟩ := e
  obtain ⟨rfl, rfl, rfl, rfl⟩ := hbare
  let x : Exec := { self := self, nread := nread, marks := { urlStart := start }, deliveries := ds }
  have hchars : ValueChars (v :: vs) := hvalue ▸ hf.value
  obtain ⟨hchar, hcr, hlf⟩ := hchars v List.mem_cons_self
  obtain ⟨hspace, htab⟩ := hf.front v (by rw [hvalue]; rfl)
  have hnul : v ≠ '\x00' := by
    rintro rfl
    exact absurd hchar (by decide)
  obtain ⟨q, hs', index, flags, length, hstart, hloop, hflags, hlength⟩ :=
    value_read hf hnamed hvalue honce []
  have hflagsUp : flags.upgrade = false := by
    rw [← finishedFlags_upgrade hs', hflags]
    exact hup
  rw [hvalue] at hsize
  simp only [List.length_append, List.length_cons, crlf, List.length_nil] at hsize
  let x₁ : Exec := { x with marks.headerValue := some [] }
  let h₁ : HTTPParser := { self with toParser := q }
  have hfirst : Reads routed buffer x [v] (x₁.moved h₁ [v]) := by
    refine reads_byte (n := 0) (by rw [show x.self.state = _ from hs]; rfl) hup hnul
      (by show nread + 1 ≤ _; omega) ?_
    unfold switch
    rw [show x.self.state = _ from hs]
    show headerValueDiscardWs _ _ _ = _
    unfold headerValueDiscardWs
    rw [if_neg (by simp [hspace, htab]), if_neg hcr, if_neg hlf]
    exact headerValueStart_ok (e := { x with nread := nread + 1 }) hstart
  let q' : Parser := { self.toParser with
    state := .headerValue, headerState := hs', index := index, flags := flags
    contentLength := length }
  have hmore : Goes routed buffer (x₁.moved h₁ [v]) vs { self with toParser := q' } := by
    refine goes_value (valueStart_state hstart) ?_ ?_ hchars.tail hloop
    · show q.flags.upgrade = false
      rw [← (valueLoop_frame hloop).2]
      exact hflagsUp
    · show nread + 1 + vs.length ≤ _
      omega
  have hread := hfirst.trans hmore
  rw [moved_moved, List.singleton_append, ← hvalue] at hread
  let h₂ : HTTPParser := { self with
    toParser := { q' with state := .headerAlmostDone }
    headerValue := f.value, headerBuilding := false }
  have hlen : f.value.length = vs.length + 1 := by rw [hvalue, List.length_cons]
  have hend : Reads routed buffer (x₁.moved { self with toParser := q' } f.value) ['\r']
      (x.moved h₂ (f.value ++ ['\r'])) := by
    have hroom : nread + f.value.length + 1 ≤ maxHeaderSize := by omega
    have hstop := @headerValue_stop { x₁.moved { self with toParser := q' } f.value with
      nread := nread + f.value.length + 1 } '\r' [] (.inl rfl)
    rw [counting_zero hroom] at hstop
    refine reads_byte (n := 0) rfl hflagsUp (by decide) hroom (hstop.trans ?_)
    have hflush : onHeaderValue
        { self with toParser := { q' with state := .headerAlmostDone } } f.value = h₂ :=
      if_pos hbuilding
    have hmarks : Marks.consume { urlStart := start } (f.value ++ ['\r'])
        = { urlStart := (start.map (· + f.value.length)).map (· + 1) } := by
      cases start <;> simp [Marks.consume, Nat.add_assoc]
    have hsum : nread + f.value.length + 1 = nread + (f.value ++ ['\r']).length := by
      rw [List.length_append, List.length_singleton, Nat.add_assoc]
    refine Eq.trans (congrArg (fun h : HTTPParser => Step.next { x with
      self := h, nread := nread + f.value.length + 1
      marks := { urlStart := (start.map (· + f.value.length)).map (· + 1) } } 0) hflush) ?_
    rw [← hmarks, hsum]
    rfl
  have hlast : Goes routed buffer (x.moved h₂ (f.value ++ ['\r'])) ['\n']
      { h₂ with state := .headerValueLws } := by
    refine goes_byte rfl hflagsUp (by decide) ?_ rfl
    show nread + (f.value ++ ['\r']).length + 1 ≤ _
    rw [List.length_append, List.length_singleton]
    omega
  have hall := hread.trans (hend.trans hlast)
  rw [moved_moved, List.append_assoc] at hall
  refine ⟨_, hs', index, hall, rfl, hflagsUp, rfl, rfl, ⟨rfl, rfl, rfl, rfl⟩, ?_⟩
  intro ch n hspace htab
  show headerValueLws _ ch [] = _
  unfold headerValueLws
  rw [if_neg (by simp [hspace, htab])]
  have hdone : behindValue self f hs' index = { h₂ with
      flags := finishedFlags hs' flags, state := .headerFieldStart } := by
    unfold behindValue
    rw [hflags, ← hlength]
  show _ = headerFieldStart { x.moved (behindValue self f hs' index) (f.value ++ crlf) with
    nread := n } ch
  rw [hdone]
  rfl

/-- **A header, from one line to the next.** -/
theorem reads_line {x : Exec} {f : Field} (hline : AtLine routed buffer e x) (hf : f.Valid)
    (hup : x.self.flags.upgrade = false) (hbuilding : x.self.headerBuilding = false)
    (honce : f.isLength = true → x.self.flags.contentLength = false)
    (hsize : e.nread + f.line.length ≤ maxHeaderSize) :
    ∃ e' h', Reads routed buffer e f.line e' ∧ Behind f x.self h'
      ∧ AtLine routed buffer e' (x.moved h' f.line) := by
  have hsplit : f.line = (f.name ++ [':', ' ']) ++ (f.value ++ crlf) := by
    rw [Field.line, List.append_assoc]
  rw [hsplit, List.length_append] at hsize
  obtain ⟨hs, index, uses, hname, hnamed, htouches, hencoding⟩ :=
    reads_name hline hf hup hbuilding (by omega)
  have huses : uses = (x.self.usesTransferEncoding || f.isEncoding) := by
    cases henc : f.isEncoding with
    | true => rw [hencoding henc, Bool.or_true]
    | false =>
        rw [Bool.or_false]
        refine htouches ?_
        cases htouch : f.touchesEncoding with
        | false => rfl
        | true =>
            rw [(hf.encoding htouch).1] at henc
            cases henc
  let y : Exec := x.moved (behindName x.self f hs index uses) (f.name ++ [':', ' '])
  have hbare : y.marks.Bare := Marks.bare_consume.mpr hline.bare
  have hroom : y.nread + (f.value ++ crlf).length ≤ maxHeaderSize := by
    show x.nread + _ + _ ≤ _
    rw [hline.nread]
    omega
  have hvalue : ∃ e' hs' index', Reads routed buffer y (f.value ++ crlf) e'
      ∧ AtLine routed buffer e' (y.moved (behindValue y.self f hs' index') (f.value ++ crlf)) := by
    cases hvalue : f.value with
    | nil =>
        rw [hvalue] at hroom
        exact reads_emptyValue hf hvalue rfl hup hbare rfl hroom
    | cons v vs =>
        rw [← hvalue]
        exact reads_someValue hf hvalue rfl hup hbare rfl hnamed honce hroom
  obtain ⟨e', hs', index', hreads, hnext⟩ := hvalue
  rw [moved_moved, ← hsplit] at hnext
  refine ⟨e', _, hsplit ▸ hname.trans hreads, ⟨hs', index', ?_⟩, hnext⟩
  rw [← huses]
  rfl

end

/-! ## §6. The headers. -/

/-- What the headers do to the parser: the last one is still held. -/
structure Collected (fs : List Field) (h h' : HTTPParser) : Prop where
  same : ∃ hs index headers field value, h' = { h with
    state := .headerFieldStart, headerState := hs, index := index
    flags := fs.foldl (fun flags f => f.flagged flags) h.flags
    contentLength := fs.foldl (fun n f => f.lengthened n) h.contentLength
    usesTransferEncoding := h.usesTransferEncoding || fs.any Field.isEncoding
    req.headers := headers, headerField := field, headerValue := value
    headerBuilding := false }
  held : fs ≠ [] → h'.headerField ≠ []
    ∧ h'.req.headers ++ [(h'.headerField, h'.headerValue)] = settledHeaders h ++ kept fs

/-- There is one length at most. -/
def OneLength (h : HTTPParser) (fs : List Field) : Prop :=
  (h.flags.contentLength = true → fs.filter Field.isLength = [])
    ∧ (fs.filter Field.isLength).length ≤ 1

/-- A field that is not the last one is kept if it has a value. -/
theorem kept_cons (f g : Field) (fs : List Field) :
    kept (f :: g :: fs)
      = (if f.value = [] then [] else [(f.name, f.value)]) ++ kept (g :: fs) := by
  rw [kept]
  · split <;> rfl
  · simp

section
variable {routed : HttpMethod → List Char → Bool} {buffer : Nat} {e : Exec}

/-- No fields, nothing collected. -/
theorem collected_nil {h : HTTPParser} (hs : h.state = .headerFieldStart)
    (hbuilding : h.headerBuilding = false) : Collected [] h h := by
  refine ⟨⟨h.headerState, h.index, h.req.headers, h.headerField, h.headerValue, ?_⟩,
    fun h => absurd rfl h⟩
  rw [List.any_nil, Bool.or_false]
  simp only [List.foldl_nil, ← hs, ← hbuilding]

theorem Behind.upgrade {f : Field} {h h' : HTTPParser} (hb : Behind f h h') :
    h'.flags.upgrade = h.flags.upgrade := by
  obtain ⟨hs, index, rfl⟩ := hb
  rfl

theorem Behind.building {f : Field} {h h' : HTTPParser} (hb : Behind f h h') :
    h'.headerBuilding = false := by
  obtain ⟨hs, index, rfl⟩ := hb
  rfl

/-- A length that comes first is the only one so far. -/
theorem OneLength.first {f : Field} {fs : List Field} {h : HTTPParser}
    (hone : OneLength h (f :: fs)) (hf : f.isLength = true) :
    h.flags.contentLength = false := by
  cases hflag : h.flags.contentLength with
  | false => rfl
  | true =>
      have hnone := hone.1 hflag
      rw [List.filter_cons_of_pos hf] at hnone
      cases hnone

/-- Behind the first field there is at most one length among the others. -/
theorem OneLength.behind {f : Field} {fs : List Field} {h h' : HTTPParser}
    (hone : OneLength h (f :: fs)) (hb : Behind f h h') : OneLength h' fs := by
  obtain ⟨hs, index, rfl⟩ := hb
  obtain ⟨hnone, hlen⟩ := hone
  cases hf : f.isLength with
  | true =>
      rw [List.filter_cons_of_pos hf, List.length_cons] at hlen
      exact ⟨fun _ => List.length_eq_zero_iff.mp (by omega), by omega⟩
  | false =>
      rw [List.filter_cons_of_neg (by simp [hf])] at hnone hlen
      refine ⟨fun hflag => hnone ?_, hlen⟩
      simpa [Field.flagged, hf] using hflag

/-- One more field in front of those that are collected. -/
theorem collected_cons {f : Field} {fs : List Field} {h h₁ h' : HTTPParser}
    (hname : f.name ≠ []) (hf : Behind f h h₁) (hfs : Collected fs h₁ h')
    (hlast : fs = [] → h' = h₁) : Collected (f :: fs) h h' := by
  obtain ⟨hs, index, rfl⟩ := hf
  obtain ⟨⟨hs', index', headers, field, value, rfl⟩, hheld⟩ := hfs
  refine ⟨⟨hs', index', headers, field, value, ?_⟩, fun _ => ?_⟩
  · simp only [List.foldl_cons, List.any_cons, Bool.or_assoc]
  · cases fs with
    | nil =>
        rw [hlast rfl]
        exact ⟨hname, rfl⟩
    | cons g fs =>
        obtain ⟨hfield, hheaders⟩ := hheld (by simp)
        refine ⟨hfield, hheaders.trans ?_⟩
        rw [kept_cons, settledHeaders]
        by_cases hvalue : f.value = []
        · simp [hvalue]
        · simp [hvalue]

/-- **The fields**, line by line; the induction is on their list. -/
theorem reads_lines {x : Exec} {fs : List Field} (hline : AtLine routed buffer e x)
    (hfs : ∀ f ∈ fs, f.Valid) (hup : x.self.flags.upgrade = false)
    (hbuilding : x.self.headerBuilding = false) (honce : OneLength x.self fs)
    (hsize : e.nread + (fs.flatMap Field.line).length ≤ maxHeaderSize) :
    ∃ e' h', Reads routed buffer e (fs.flatMap Field.line) e' ∧ Collected fs x.self h'
      ∧ AtLine routed buffer e' (x.moved h' (fs.flatMap Field.line)) ∧ (fs = [] → h' = x.self) := by
  induction fs generalizing e x with
  | nil =>
      refine ⟨e, x.self, .nil e, collected_nil hline.state hbuilding, ?_, fun _ => rfl⟩
      rw [List.flatMap_nil, moved_nil]
      exact hline
  | cons f fs ih =>
      rw [List.flatMap_cons, List.length_append] at hsize
      have hf := hfs f List.mem_cons_self
      obtain ⟨e₁, h₁, hreads, hbehind, hline₁⟩ :=
        reads_line hline hf hup hbuilding honce.first (by omega)
      have hread₁ : e₁.nread = e.nread + f.line.length := by
        rw [← hline₁.nread, ← hline.nread]
        rfl
      obtain ⟨e', h', hreads', hcollected, hline', hlast⟩ :=
        ih hline₁ (fun g hg => hfs g (List.mem_cons_of_mem _ hg)) (hbehind.upgrade.trans hup)
          hbehind.building (honce.behind hbehind) (by omega)
      refine ⟨e', h', hreads.trans hreads', collected_cons hf.name.1 hbehind hcollected hlast, ?_,
        fun h => absurd h (by simp)⟩
      rw [moved_moved] at hline'
      exact hline'

/-- The empty line. -/
theorem reads_blank {x y : Exec} (hline : AtLine routed buffer e x)
    (hup : x.self.flags.upgrade = false) (htrailing : x.self.flags.trailing = false)
    (hconnect : x.self.method ≠ .connect)
    (hboth : (x.self.usesTransferEncoding && x.self.flags.contentLength) = false)
    (hsize : e.nread + 2 ≤ maxHeaderSize)
    (hdone : headersDone { x with
      self := onHeadersComplete { x.self with state := .headersDone, upgrade := false }
      nread := x.nread + 2, marks := x.marks.consume ['\r'] } '\n' = .next y 0) :
    Reads routed buffer e crlf y := by
  have hcr : Reads routed buffer e ['\r']
      (x.moved { x.self with state := .headersAlmostDone } ['\r']) := by
    refine reads_byte (n := 0) hline.header hline.upgrade (by decide) (by omega) ?_
    rw [hline.starts _ _ (by decide) (by decide), ← hline.nread]
    rfl
  have hlf : Reads routed buffer (x.moved { x.self with state := .headersAlmostDone } ['\r'])
      ['\n'] y := by
    refine reads_byte (n := 0) rfl hup (by decide) ?_ (Eq.trans ?_ hdone)
    · show x.nread + 1 + 1 ≤ _
      rw [hline.nread]
      exact hsize
    · show headersAlmostDone _ '\n' = _
      unfold headersAlmostDone Exec.strict
      rw [if_neg (by decide), if_neg (by simp [Exec.moved, htrailing]),
        if_neg (by simp [Exec.moved, hboth])]
      have hflag : (x.self.flags.upgrade || decide (x.self.method = .connect)) = false := by
        rw [hup, decide_eq_false hconnect]
        rfl
      exact congrArg (fun up => headersDone { x with
        self := onHeadersComplete { x.self with state := .headersDone, upgrade := up }
        nread := x.nread + 2, marks := x.marks.consume ['\r'] } '\n') hflag
  exact hcr.trans hlf

end

/-! ## §7. Bodies. -/

/-- Bytes of a body are behind `body_mark`, and `left` are missing. -/
def Exec.filled (e : Exec) (left : Nat) (cs : List Char) : Exec :=
  { markBody e with self.contentLength := left, marks := (markBody e).marks.consume cs }

theorem filled_filled (e : Exec) (k l : Nat) (cs ds : List Char) :
    (e.filled k cs).filled l ds = e.filled l (cs ++ ds) := by
  unfold Exec.filled
  rw [Marks.consume_append]
  rfl

/-- What the callback makes of a body. -/
theorem flush_filled {e : Exec} (h : e.marks.body = none) (s : State) (cs : List Char) :
    flushBody ((e.filled 0 cs).goto s) = { e with
      self := { e.self with
        state := s, contentLength := 0, req.body := e.self.req.body ++ cs }
      marks := e.marks.consume cs } := by
  unfold flushBody Exec.filled markBody Exec.goto
  simp [h, Marks.consume, onBody]

/-- A single byte of a body. -/
theorem takeBody_byte {e : Exec} {k : Nat} (h : e.self.contentLength = k + 1) (c : Char) :
    takeBody e c [] = (e.filled k [c], 1) := by
  have hone : min (k + 1) [c].length = 1 := by
    rw [List.length_singleton]
    omega
  unfold takeBody
  simp only [h, hone]
  rfl

section
variable {routed : HttpMethod → List Char → Bool} {buffer : Nat} {e : Exec}

/-- The bytes of a body, where `done` is what becomes of it when nothing is missing. -/
theorem reads_data {s : State} {flags : Flags} {done : Exec → Exec}
    (hbody : s.parsingHeader = false) (hup : flags.upgrade = false)
    (hstep : ∀ (x : Exec) (k : Nat) (c : Char), x.self.state = s → x.self.flags = flags →
      x.self.contentLength = k + 1 → k + 1 < ullongMax →
      byte routed buffer x c = .next (if k = 0 then done (x.filled k [c]) else x.filled k [c]) 0)
    {cs : List Char} (hsome : cs ≠ []) (hs : e.self.state = s) (hflags : e.self.flags = flags)
    (hlen : e.self.contentLength = cs.length) (hfits : cs.length < ullongMax) :
    Reads routed buffer e cs (done (e.filled 0 cs)) := by
  induction cs generalizing e with
  | nil => exact absurd rfl hsome
  | cons c cs ih =>
      rw [List.length_cons] at hlen hfits
      have hbyte := hstep e cs.length c hs hflags hlen hfits
      have hnul : e.self.state.parsingHeader = true → c ≠ '\x00' := by
        rw [hs, hbody]
        exact fun h => absurd h (by decide)
      have hupe : e.self.flags.upgrade = false := by rw [hflags, hup]
      cases cs with
      | nil => exact .cons hupe hnul hbyte (.nil _)
      | cons d ds =>
          rw [if_neg (by simp)] at hbyte
          have hrest := ih (e := e.filled (d :: ds).length [c]) (by simp) hs hflags rfl (by omega)
          rw [filled_filled] at hrest
          exact .cons hupe hnul hbyte hrest

/-- **A body with a length**: behind its last byte the request is complete. -/
theorem reads_counted {cs : List Char} (hsome : cs ≠ []) (hs : e.self.state = .bodyIdentity)
    (hup : e.self.flags.upgrade = false) (hlen : e.self.contentLength = cs.length)
    (hfits : cs.length < ullongMax) :
    Reads routed buffer e cs
      (messageComplete (flushBody ((e.filled 0 cs).goto .messageDone))) := by
  refine @reads_data routed buffer e .bodyIdentity _
    (fun x => messageComplete (flushBody (x.goto .messageDone))) rfl hup ?_ _ hsome hs rfl
    hlen hfits
  intro x k c hs _ hlength hlt
  have hknown : lengthKnown x = true :=
    lengthKnown_of_counted ⟨by rw [hlength]; omega, by rw [hlength]; exact hlt⟩
  rw [byte, round, if_neg (by rw [hs]; decide)]
  unfold switch
  rw [hs]
  show bodyIdentity _ _ _ = _
  unfold bodyIdentity Exec.assert
  rw [if_pos hknown, takeBody_byte hlength]
  show (if k = 0 then _ else _) = _
  split <;> rfl

/-- **A chunk**: behind its last byte the end of its line has to come. -/
theorem reads_chunkData {cs : List Char} (hsome : cs ≠ []) (hs : e.self.state = .chunkData)
    (hchunked : e.self.flags.chunked = true) (hup : e.self.flags.upgrade = false)
    (hlen : e.self.contentLength = cs.length) (hfits : cs.length < ullongMax) :
    Reads routed buffer e cs ((e.filled 0 cs).goto .chunkDataAlmostDone) := by
  refine @reads_data routed buffer e .chunkData _ (fun x => x.goto .chunkDataAlmostDone) rfl
    hup ?_ _ hsome hs rfl hlen hfits
  intro x k c hs hflags hlength hlt
  have hknown : lengthKnown x = true :=
    lengthKnown_of_counted ⟨by rw [hlength]; omega, by rw [hlength]; exact hlt⟩
  rw [byte, round, if_neg (by rw [hs]; decide)]
  unfold switch
  rw [hs]
  show chunkData _ _ _ = _
  unfold chunkData Exec.assert
  rw [if_pos (by rw [hflags, hchunked, hknown]; rfl), takeBody_byte hlength]
  rfl

/-- More digits do not make a number smaller. -/
theorem le_hexadecimal (n : Nat) (cs : List Char) :
    n ≤ cs.foldl (fun n c => n * 16 + (unhex c).getD 0) n := by
  induction cs generalizing n with
  | nil => exact Nat.le_refl n
  | cons c cs ih =>
      calc n ≤ n * 16 + (unhex c).getD 0 := by omega
        _ ≤ _ := ih _

/-- A hexadecimal digit is no line end. -/
theorem unhex_ne {c : Char} (h : (unhex c).isSome = true) : c ≠ '\r' ∧ c ≠ '\x00' := by
  constructor
  · rintro rfl
    exact absurd h (by decide)
  · rintro rfl
    exact absurd h (by decide)

/-- The digits of a size behind the first one. -/
theorem goes_size {cs : List Char} (hs : e.self.state = .chunkSize)
    (hchunked : e.self.flags.chunked = true) (hup : e.self.flags.upgrade = false)
    (hsize : e.nread + cs.length ≤ maxHeaderSize) (hcs : ∀ c ∈ cs, (unhex c).isSome = true)
    (hfits : cs.foldl (fun n c => n * 16 + (unhex c).getD 0) e.self.contentLength / 16
      ≤ (ullongMax - 16) / 16) :
    Goes routed buffer e cs { e.self with
      contentLength := cs.foldl (fun n c => n * 16 + (unhex c).getD 0) e.self.contentLength } := by
  induction cs generalizing e with
  | nil => exact goes_nil
  | cons c cs ih =>
      rw [List.length_cons] at hsize
      have hc := hcs c List.mem_cons_self
      obtain ⟨hcr, hnul⟩ := unhex_ne hc
      obtain ⟨n, hn⟩ := Option.isSome_iff_exists.mp hc
      have hget : (unhex c).getD 0 = n := by rw [hn]; rfl
      rw [List.foldl_cons, hget] at hfits ⊢
      have hlimit : ¬ (ullongMax - 16) / 16 < e.self.contentLength := by
        have hle := le_hexadecimal (e.self.contentLength * 16 + n) cs
        omega
      let h₁ : HTTPParser := { e.self with contentLength := e.self.contentLength * 16 + n }
      have hfirst : Goes routed buffer e [c] h₁ := by
        refine goes_byte (by rw [hs]; rfl) hup hnul (by omega) ?_
        unfold switch
        rw [hs]
        show chunkSize _ _ = _
        unfold chunkSize Exec.assert
        rw [if_pos hchunked, if_neg hcr, hn]
        dsimp only
        rw [if_neg hlimit]
      exact hfirst.cons (ih (e := e.moved h₁ [c]) hs hchunked hup
        (by show e.nread + 1 + cs.length ≤ _; omega)
        (fun d hd => hcs d (List.mem_cons_of_mem _ hd)) hfits)

/-- A byte that does not count. -/
theorem reads_bodyByte {e' : Exec} {ch : Char} {n : Nat} (hs : e.self.state.parsingHeader = false)
    (hup : e.self.flags.upgrade = false) (hstep : switch routed buffer e ch [] = .next e' n) :
    Reads routed buffer e [ch] e' := by
  refine .cons (n := n) hup (fun h => absurd (hs.symm.trans h) (by decide)) ?_ (.nil e')
  rw [byte, round, if_neg (by rw [hs]; decide)]
  exact hstep

theorem chunkSize_end (h : e.self.flags.chunked = true) :
    chunkSize e '\r' = (e.goto .chunkSizeAlmostDone).advance '\r' := by
  unfold chunkSize Exec.assert
  rw [if_pos h, if_pos rfl]

/-- Behind a size that is not zero come the bytes of the chunk. -/
theorem chunkSizeAlmostDone_data (h : e.self.flags.chunked = true)
    (hlength : e.self.contentLength ≠ 0) :
    chunkSizeAlmostDone e '\n'
      = ({ e with self.nread := 0, nread := 0 }.goto .chunkData).advance '\n' := by
  unfold chunkSizeAlmostDone Exec.assert Exec.strict
  rw [if_pos h, if_neg (by decide)]
  exact if_neg hlength

/-- Behind a zero come the trailers. -/
theorem chunkSizeAlmostDone_last (h : e.self.flags.chunked = true)
    (hlength : e.self.contentLength = 0) :
    chunkSizeAlmostDone e '\n' = ({ e with
      self.nread := 0, nread := 0, self.state := .headerFieldStart
      self.flags.trailing := true } : Exec).advance '\n' := by
  unfold chunkSizeAlmostDone Exec.assert Exec.strict
  rw [if_pos h, if_neg (by decide)]
  exact if_pos hlength

theorem chunkDataAlmostDone_end (h : e.self.flags.chunked = true)
    (hlength : e.self.contentLength = 0) :
    chunkDataAlmostDone e '\r' = (flushBody (e.goto .chunkDataDone)).advance '\r' := by
  unfold chunkDataAlmostDone Exec.assert Exec.strict
  rw [if_pos (by simp [h, hlength]), if_neg (by decide)]

theorem chunkDataDone_end (h : e.self.flags.chunked = true) :
    chunkDataDone e '\n'
      = ({ e with self.nread := 0, nread := 0 }.goto .chunkSizeStart).advance '\n' := by
  unfold chunkDataDone Exec.assert Exec.strict
  rw [if_pos h, if_neg (by decide)]

/-- The line with the size of a chunk. -/
theorem reads_size {cs : List Char} (hs : e.self.state = .chunkSizeStart) (hzero : e.nread = 0)
    (hchunked : e.self.flags.chunked = true) (hup : e.self.flags.upgrade = false)
    (hsome : cs ≠ []) (hcs : ∀ c ∈ cs, (unhex c).isSome = true)
    (hfits : hexadecimal cs / 16 ≤ (ullongMax - 16) / 16) (hsize : cs.length + 2 ≤ maxHeaderSize) :
    Reads routed buffer e (cs ++ ['\r']) (e.moved { e.self with
      state := .chunkSizeAlmostDone, contentLength := hexadecimal cs } (cs ++ ['\r'])) := by
  obtain ⟨c, ds, rfl⟩ : ∃ c ds, cs = c :: ds := List.exists_cons_of_ne_nil hsome
  rw [List.length_cons] at hsize
  have hc := hcs c List.mem_cons_self
  obtain ⟨n, hn⟩ := Option.isSome_iff_exists.mp hc
  have hhex : hexadecimal (c :: ds) = ds.foldl (fun n c => n * 16 + (unhex c).getD 0) n := by
    rw [hexadecimal, List.foldl_cons, hn]
    simp
  let h₁ : HTTPParser := { e.self with state := .chunkSize, contentLength := n }
  have hfirst : Goes routed buffer e [c] h₁ := by
    refine goes_byte (by rw [hs]; rfl) hup (unhex_ne hc).2 (by omega) ?_
    unfold switch
    rw [hs]
    show chunkSizeStart _ _ = _
    unfold chunkSizeStart Exec.assert
    rw [if_pos (by simp [hzero, hchunked]), hn]
    rfl
  have hmore : Goes routed buffer (e.moved h₁ [c]) ds { h₁ with
      contentLength := hexadecimal (c :: ds) } := by
    rw [hhex] at hfits ⊢
    exact goes_size rfl hchunked hup (by show e.nread + 1 + ds.length ≤ _; omega)
      (fun d hd => hcs d (List.mem_cons_of_mem _ hd)) hfits
  have hdigits := hfirst.cons hmore
  refine hdigits.trans (goes_byte rfl hup (by decide) ?_ ?_)
  · show e.nread + (c :: ds).length + 1 ≤ _
    rw [List.length_cons]
    omega
  · exact chunkSize_end (e := _) hchunked

/-- Behind a chunk. -/
def Exec.chunkRead (e : Exec) (data cs : List Char) : Exec :=
  { e with
    self := { e.self with
      state := .chunkSizeStart, nread := 0, contentLength := 0
      req.body := e.self.req.body ++ data }
    nread := 0, marks := e.marks.consume cs }

/-- A chunk, from one size to the next. -/
theorem reads_chunk {c : Chunk} (hc : c.Valid) (hs : e.self.state = .chunkSizeStart)
    (hzero : e.nread = 0) (hchunked : e.self.flags.chunked = true)
    (hup : e.self.flags.upgrade = false) (hbare : e.marks.Bare) :
    Reads routed buffer e c.wire (e.chunkRead c.data c.wire) := by
  obtain ⟨hdata, hhex, hdigits, hfits, hsize⟩ := hc
  obtain ⟨self, nread, ⟨field, value, url, start, body⟩, ds⟩ := e
  obtain ⟨rfl, rfl, rfl, rfl⟩ := hbare
  have hsome : c.size ≠ [] := by
    intro hnil
    rw [hnil] at hhex
    exact hdata (List.length_eq_zero_iff.mp hhex.symm)
  let x : Exec := { self := self, nread := nread, marks := { urlStart := start }, deliveries := ds }
  have hread := @reads_size routed buffer x _ hs hzero hchunked hup hsome
    hdigits (by rw [hhex]; exact hfits) hsize
  let x₁ : Exec := x.moved { self with
    state := .chunkSizeAlmostDone, contentLength := hexadecimal c.size } (c.size ++ ['\r'])
  have hnonzero : hexadecimal c.size ≠ 0 := by
    rw [hhex]
    exact fun h => hdata (List.length_eq_zero_iff.mp h)
  let x₂ : Exec := { x with
    self := { self with state := .chunkData, contentLength := hexadecimal c.size, nread := 0 }
    nread := 0, marks := x.marks.consume (c.size ++ crlf) }
  have hline : Reads routed buffer x₁ ['\n'] x₂ := by
    have hroom : x.nread + (c.size ++ ['\r']).length + 1 ≤ maxHeaderSize := by
      rw [show x.nread = 0 from hzero, List.length_append, List.length_singleton]
      omega
    refine reads_byte (n := 0) rfl hup (by decide) hroom ?_
    refine (chunkSizeAlmostDone_data (e := { x₁ with nread := x₁.nread + 1 }) hchunked
      hnonzero).trans ?_
    have hmarks : (x.marks.consume (c.size ++ ['\r'])).consume ['\n']
        = x.marks.consume (c.size ++ crlf) := by
      rw [← Marks.consume_append, List.append_assoc]
      rfl
    exact congrArg (fun m => Step.next { x₂ with marks := m } 0) hmarks
  have hlt : c.data.length < ullongMax := by
    have hmax : ullongMax = 18446744073709551615 := by decide
    omega
  have hbody := @reads_chunkData routed buffer x₂ _ hdata rfl hchunked hup hhex hlt
  let x₃ : Exec := { x with
    self := { self with
      state := .chunkDataDone, contentLength := 0, nread := 0
      req.body := self.req.body ++ c.data }
    nread := 0, marks := (x.marks.consume (c.size ++ crlf)).consume (c.data ++ ['\r']) }
  have hend : Reads routed buffer ((x₂.filled 0 c.data).goto .chunkDataAlmostDone) ['\r'] x₃ := by
    refine reads_bodyByte (n := 0) rfl hup ?_
    refine (chunkDataAlmostDone_end (e := (x₂.filled 0 c.data).goto .chunkDataAlmostDone) hchunked
      rfl).trans ?_
    exact congrArg (fun m => Step.next { x₃ with marks := m } 0)
      (Marks.consume_append (x.marks.consume (c.size ++ crlf)) c.data ['\r']).symm
  have hlast : Reads routed buffer x₃ ['\n'] (x.chunkRead c.data c.wire) := by
    refine reads_bodyByte (n := 0) rfl hup ((chunkDataDone_end (e := x₃) hchunked).trans ?_)
    have hmarks : ((x.marks.consume (c.size ++ crlf)).consume (c.data ++ ['\r'])).consume ['\n']
        = x.marks.consume c.wire := by
      rw [← Marks.consume_append, ← Marks.consume_append]
      simp [Chunk.wire, crlf]
    exact congrArg (fun m => Step.next { x.chunkRead c.data c.wire with marks := m } 0) hmarks
  have hall := hread.trans (hline.trans (hbody.trans (hend.trans hlast)))
  have hsplit : c.wire = c.size ++ ['\r'] ++ (['\n'] ++ (c.data ++ (['\r'] ++ ['\n']))) := by
    simp [Chunk.wire, crlf]
  rw [hsplit] at hall ⊢
  exact hall

/-- **The chunks**, one after the other; the induction is on their list. -/
theorem reads_chunks {chunks : List Chunk} (hchunks : ∀ c ∈ chunks, c.Valid)
    (hs : e.self.state = .chunkSizeStart) (hzero : e.nread = 0)
    (hchunked : e.self.flags.chunked = true) (hup : e.self.flags.upgrade = false)
    (hbare : e.marks.Bare) :
    ∃ e', Reads routed buffer e (chunks.flatMap Chunk.wire) e' ∧ e'.self.state = .chunkSizeStart
      ∧ e'.nread = 0 ∧ e'.self.flags = e.self.flags ∧ e'.self.upgrade = e.self.upgrade
      ∧ e'.self.req = { e.self.req with body := e.self.req.body ++ chunks.flatMap Chunk.data }
      ∧ e'.marks = e.marks.consume (chunks.flatMap Chunk.wire) ∧ e'.deliveries = e.deliveries := by
  induction chunks generalizing e with
  | nil =>
      refine ⟨e, .nil e, hs, hzero, rfl, rfl, ?_, (Marks.consume_nil _).symm, rfl⟩
      rw [List.flatMap_nil, List.append_nil]
  | cons c chunks ih =>
      have hc := @reads_chunk routed buffer e c (hchunks c List.mem_cons_self) hs hzero hchunked
        hup hbare
      obtain ⟨e', hreads, hs', hzero', hflags, hup', hreq, hmarks, hds⟩ :=
        ih (e := e.chunkRead c.data c.wire) (fun d hd => hchunks d (List.mem_cons_of_mem _ hd)) rfl
          rfl hchunked hup (Marks.bare_consume.mpr hbare)
      refine ⟨e', hc.trans hreads, hs', hzero', hflags, hup', ?_, ?_, hds⟩
      · rw [hreq, List.flatMap_cons, ← List.append_assoc]
        rfl
      · rw [hmarks, List.flatMap_cons, Marks.consume_append]
        rfl

/-! ## §8. A request. -/

/-- Nothing is left of the requests before, except how far the first URL of the read is
    behind. -/
structure Fresh (e : Exec) (ds : List Delivery) (start : Option Nat) : Prop where
  state : e.self.state = .startReq
  upgrade : e.self.flags.upgrade = false
  req : e.self.req = {}
  field : e.self.headerField = []
  value : e.self.headerValue = []
  building : e.self.headerBuilding = false
  complete : e.self.messageComplete = false
  qsPoint : e.self.qsPoint = 0
  bare : e.marks.Bare
  urlStart : e.marks.urlStart = start
  deliveries : e.deliveries = ds
  nread : e.nread ≤ 2

/-- The request is handled, and the parser is cleared. -/
theorem fresh_messageComplete {ds : List Delivery} {m : Marks} {cs : List Char}
    (hreq : e.self.req.upgrade = false) (hup : e.self.flags.upgrade = false)
    (hbare : m.Bare) (hnread : e.nread ≤ 2) (hds : e.deliveries = ds) :
    Fresh { messageComplete e with marks := m.consume cs } (ds ++ [.handled e.self.req])
      (m.urlStart.map (· + cs.length)) := by
  have hstays : e.self.req.takesUpgrade = false := by
    simp [RawRequest.takesUpgrade, hreq]
  have hself : (messageComplete e).self = { e.self with messageComplete := true }.clear :=
    if_neg (Bool.eq_false_iff.mp hstays)
  exact ⟨by rw [hself]; rfl, by rw [hself]; exact hup, by rw [hself]; rfl, by rw [hself]; rfl,
    by rw [hself]; rfl, by rw [hself]; rfl, by rw [hself]; rfl, by rw [hself]; rfl,
    Marks.bare_consume.mpr hbare, rfl, congrArg (· ++ [_]) hds, hnread⟩

/-- The end of a chunked body. -/
theorem reads_lastChunk (hs : e.self.state = .chunkSizeStart) (hzero : e.nread = 0)
    (hchunked : e.self.flags.chunked = true) (hup : e.self.flags.upgrade = false)
    (hbare : e.marks.Bare) (hreq : e.self.req.upgrade = false) :
    ∃ e', Reads routed buffer e ('0' :: crlf ++ crlf) e'
      ∧ Fresh e' (e.deliveries ++ [.handled e.self.req]) (e.marks.urlStart.map (· + 5)) := by
  have hmax : maxHeaderSize = 81920 := by decide
  have hone : 0 + 1 ≤ maxHeaderSize := by decide
  have htwo : 0 + 1 + 1 ≤ maxHeaderSize := by decide
  have hsize := @reads_size routed buffer e ['0'] hs hzero hchunked hup
    (by simp) (by intro c hc; rw [List.mem_singleton.mp hc]; rfl) (by decide) (by decide)
  let e₁ : Exec := e.moved { e.self with
    state := .chunkSizeAlmostDone, contentLength := hexadecimal ['0'] } ['0', '\r']
  let h₂ : HTTPParser := { e.self with
    state := .headerFieldStart, contentLength := 0, nread := 0, flags.trailing := true }
  let e₂ : Exec := { e with self := h₂, nread := 0, marks := e₁.marks.consume ['\n'] }
  have hlf : Reads routed buffer e₁ ['\n'] e₂ := by
    refine reads_byte (n := 0) rfl hup (by decide) ?_ ?_
    · show e.nread + 2 + 1 ≤ _
      omega
    · exact chunkSizeAlmostDone_last (e := { e₁ with nread := e₁.nread + 1 }) hchunked rfl
  let h₃ : HTTPParser := { h₂ with state := .headersAlmostDone }
  have hcr : Goes routed buffer e₂ ['\r'] h₃ := goes_byte rfl hup (by decide) hone rfl
  let e₃ : Exec := { e₂.moved h₃ ['\r'] with nread := 2 }
  have hend : Reads routed buffer (e₂.moved h₃ ['\r']) ['\n'] { messageComplete e₃ with
      marks := (messageComplete e₃).marks.consume ['\n'] } :=
    reads_byte (n := 0) rfl hup (by decide) htwo rfl
  have hmarks : (messageComplete e₃).marks.consume ['\n']
      = e.marks.consume ('0' :: crlf ++ crlf) := by
    show (((e.marks.consume ['0', '\r']).consume ['\n']).consume ['\r']).consume ['\n'] = _
    rw [← Marks.consume_append, ← Marks.consume_append, ← Marks.consume_append]
    rfl
  rw [hmarks] at hend
  exact ⟨_, hsize.trans (hlf.trans (Reads.trans hcr hend)),
    fresh_messageComplete (e := e₃) hreq hup hbare (Nat.le_refl 2) rfl⟩

/-- The header ends, and there is no body. -/
theorem headersDone_empty (hup : e.self.upgrade = false) (hchunked : e.self.flags.chunked = false)
    (huses : e.self.usesTransferEncoding = false)
    (hlength : e.self.contentLength = 0 ∨ e.self.contentLength = ullongMax) :
    headersDone e '\n'
      = (messageComplete { e with self.nread := 0, nread := 0 }).advance '\n' := by
  unfold headersDone Exec.strict
  rw [if_neg (by decide)]
  simp only [hup, hchunked, huses]
  exact if_pos hlength

/-- The header ends, and a body with a length follows. -/
theorem headersDone_counted (hup : e.self.upgrade = false)
    (hchunked : e.self.flags.chunked = false) (huses : e.self.usesTransferEncoding = false)
    (hlength : ¬ (e.self.contentLength = 0 ∨ e.self.contentLength = ullongMax)) :
    headersDone e '\n'
      = ({ e with self.nread := 0, nread := 0 }.goto .bodyIdentity).advance '\n' := by
  unfold headersDone Exec.strict
  rw [if_neg (by decide)]
  simp only [hup, hchunked, huses]
  exact if_neg hlength

/-- The header ends, and chunks follow. -/
theorem headersDone_chunked (hup : e.self.upgrade = false)
    (hchunked : e.self.flags.chunked = true) :
    headersDone e '\n'
      = ({ e with self.nread := 0, nread := 0 }.goto .chunkSizeStart).advance '\n' := by
  unfold headersDone Exec.strict
  rw [if_neg (by decide)]
  simp only [hup, hchunked]
  rfl

/-- The flags are the union of what the fields set. -/
theorem foldl_flagged (fs : List Field) (flags : Flags) :
    fs.foldl (fun flags f => f.flagged flags) flags = { flags with
      chunked := flags.chunked || fs.any Field.isEncoding
      connectionKeepAlive := flags.connectionKeepAlive || fs.any Field.keepsAlive
      connectionClose := flags.connectionClose || fs.any Field.closes
      contentLength := flags.contentLength || fs.any Field.isLength } := by
  induction fs generalizing flags with
  | nil => simp
  | cons f fs ih =>
      rw [List.foldl_cons, ih]
      simp only [Field.flagged, List.any_cons, Bool.or_assoc]

/-- The length is that of the one field that tells it. -/
theorem foldl_lengthened (fs : List Field) (n : Nat) :
    (fs.filter Field.isLength = [] → fs.foldl (fun n f => f.lengthened n) n = n)
      ∧ ∀ f, fs.filter Field.isLength = [f] →
        fs.foldl (fun n f => f.lengthened n) n = decimal f.value := by
  induction fs generalizing n with
  | nil => simp
  | cons f fs ih =>
      rw [List.foldl_cons, Field.lengthened]
      cases hf : f.isLength with
      | true =>
          rw [List.filter_cons_of_pos hf]
          refine ⟨fun h => absurd h (by simp), fun g hg => ?_⟩
          obtain ⟨rfl, hrest⟩ := List.cons.inj hg
          exact (ih _).1 hrest
      | false =>
          rw [List.filter_cons_of_neg (by simp [hf])]
          exact ih _

/-- The parser behind the request line. -/
def lineStart (h : HTTPParser) (m : Message) (start : Nat) : HTTPParser :=
  behindVersion (behindUrl (behindMethod h m.method) m start) m

/-- The parser behind the headers. -/
def headersRead (h : HTTPParser) : HTTPParser :=
  onHeadersComplete { h with state := .headersDone, upgrade := false }

/-- `on_headers_complete` keeps what tells how the body is sent. -/
theorem headersRead_frame (h : HTTPParser) :
    (headersRead h).upgrade = false ∧ (headersRead h).flags = h.flags
      ∧ (headersRead h).contentLength = h.contentLength
      ∧ (headersRead h).usesTransferEncoding = h.usesTransferEncoding := by
  unfold headersRead onHeadersComplete setConnectionParameters
  split <;> exact ⟨rfl, rfl, rfl, rfl⟩

/-- The request is complete, except for its body. -/
theorem headersRead_req {m : Message} {start : Nat} {h h' : HTTPParser} (hreq : h.req = {})
    (hfield : h.headerField = []) (hvalue : h.headerValue = [])
    (hcollected : Collected m.fields (lineStart h m start) h')
    (hlast : m.fields = [] → h' = lineStart h m start) :
    (headersRead h').req = { m.request start with body := [] } := by
  have hheaders : (if h'.headerField ≠ [] then
      h'.req.headers ++ [(h'.headerField, h'.headerValue)] else h'.req.headers)
      = kept m.fields := by
    have hnone : (lineStart h m start).req.headers = [] := congrArg RawRequest.headers hreq
    have hfield' : (lineStart h m start).headerField = [] := hfield
    have hvalue' : (lineStart h m start).headerValue = [] := hvalue
    by_cases hnil : m.fields = []
    · rw [hlast hnil, hnil, if_neg (not_not.mpr hfield')]
      exact hnone
    · obtain ⟨hname, hheld⟩ := hcollected.held hnil
      rw [if_pos hname, hheld, settledHeaders, if_neg (not_not.mpr hvalue'), hnone]
      rfl
  have hcomplete : (headersRead h').req = { h'.req with
      headers := kept m.fields, httpMajor := h'.httpMajor, httpMinor := h'.httpMinor
      keepAlive :=
        if h'.httpMajor = 1 ∧ h'.httpMinor = 0 then h'.flags.connectionKeepAlive
        else decide (h'.httpMajor = 1 ∧ h'.httpMinor = 1)
      closeConnection :=
        if h'.httpMajor = 1 ∧ h'.httpMinor = 0 then !h'.flags.connectionKeepAlive
        else if h'.httpMajor = 1 ∧ h'.httpMinor = 1 then h'.flags.connectionClose
        else false
      upgrade := false } := by
    rw [← hheaders]
    unfold headersRead onHeadersComplete setConnectionParameters
    split <;> rfl
  obtain ⟨hs, index, headers, field, value, rfl⟩ := hcollected.same
  rw [hcomplete]
  simp only [lineStart, behindVersion, behindUrl, behindMethod, foldl_flagged, Bool.false_or, hreq,
    Message.request]

/-- What the headers have said about the body. -/
structure Framed (fs : List Field) (p : Parser) : Prop where
  method : p.method ≠ .connect
  upgrade : p.flags.upgrade = false
  trailing : p.flags.trailing = false
  chunked : p.flags.chunked = fs.any Field.isEncoding
  length : p.flags.contentLength = fs.any Field.isLength
  uses : p.usesTransferEncoding = fs.any Field.isEncoding
  contentLength : p.contentLength = fs.foldl (fun n f => f.lengthened n) ullongMax

/-- No field tells a length. -/
theorem any_isLength {fs : List Field} (h : fs.any Field.isLength = false) :
    fs.filter Field.isLength = [] := by
  rw [List.filter_eq_nil_iff]
  intro f hf
  have hall := List.any_eq_false.mp h f hf
  exact hall

/-- **The end of the headers and the body.** -/
theorem reads_payload {x : Exec} {fs : List Field} {payload : Payload} {req : RawRequest}
    {ds : List Delivery} (hline : AtLine routed buffer e x) (hframed : Framed fs x.self.toParser)
    (hfs : ∀ f ∈ fs, f.Valid) (hagrees : payload.Agrees fs)
    (hreq : (headersRead x.self).req = { req with body := [] })
    (hbody : req.body = payload.body) (hup : req.upgrade = false) (hds : x.deliveries = ds)
    (hsize : e.nread + 2 ≤ maxHeaderSize) :
    ∃ e', Reads routed buffer e (crlf ++ payload.wire) e'
      ∧ Fresh e' (ds ++ [.handled req])
        (x.marks.urlStart.map (· + (crlf ++ payload.wire).length)) := by
  let E : Exec := { x with
    self := headersRead x.self, nread := x.nread + 2, marks := x.marks.consume ['\r'] }
  obtain ⟨hupgrade, hflags, hlength, huses⟩ := headersRead_frame x.self
  have hEup : (headersRead x.self).flags.upgrade = false := by rw [hflags, hframed.upgrade]
  have hreqUp : (headersRead x.self).req.upgrade = false := by rw [hreq, ← hup]
  have hmarks : (x.marks.consume ['\r']).consume ['\n'] = x.marks.consume crlf :=
    (Marks.consume_append x.marks ['\r'] ['\n']).symm
  have hblank : ∀ {y : Exec}, (x.self.usesTransferEncoding && x.self.flags.contentLength) = false →
      headersDone E '\n' = .next y 0 → Reads routed buffer e crlf y :=
    fun hboth hdone => reads_blank hline hframed.upgrade hframed.trailing hframed.method hboth hsize
      hdone
  let E' : Exec := { E with self.nread := 0, nread := 0 }
  -- without a body the request is complete here
  have hempty : fs.any Field.isEncoding = false → req.body = [] →
      (x.self.contentLength = 0 ∨ x.self.contentLength = ullongMax) →
      ∃ e', Reads routed buffer e crlf e'
        ∧ Fresh e' (ds ++ [.handled req]) (x.marks.urlStart.map (· + crlf.length)) := by
    intro henc hnone hend
    have hdone := headersDone_empty (e := E) hupgrade
      (by show (headersRead x.self).flags.chunked = false; rw [hflags, hframed.chunked, henc])
      (by show (headersRead x.self).usesTransferEncoding = false; rw [huses, hframed.uses, henc])
      (by show (headersRead x.self).contentLength = 0 ∨ _ = ullongMax; rw [hlength]; exact hend)
    refine ⟨{ messageComplete E' with marks := x.marks.consume crlf },
      hblank (by rw [hframed.uses, henc]; rfl) ?_, ?_⟩
    · rw [hdone, ← hmarks]
      rfl
    · have hfresh := @fresh_messageComplete E' _ _ crlf hreqUp hEup hline.bare
        (Nat.zero_le 2) hds
      have hsame : E'.self.req = req := by
        show (headersRead x.self).req = req
        rw [hreq, ← hnone]
      rwa [hsame] at hfresh
  cases payload with
  | none =>
      obtain ⟨hnoLength, henc⟩ := hagrees
      have hmax : x.self.contentLength = ullongMax := by
        rw [hframed.contentLength, (foldl_lengthened fs ullongMax).1 (any_isLength hnoLength)]
      exact hempty henc hbody (.inr hmax)
  | counted body =>
      obtain ⟨hlengths, henc⟩ := hagrees
      obtain ⟨f, hf, hdecimal⟩ := List.map_eq_singleton_iff.mp hlengths
      have hcount : x.self.contentLength = body.length := by
        rw [hframed.contentLength, (foldl_lengthened fs ullongMax).2 f hf, hdecimal]
      by_cases hnil : body = []
      · subst hnil
        exact hempty henc hbody (.inl hcount)
      · have hmem : f ∈ fs.filter Field.isLength := by
          rw [hf]
          exact List.mem_singleton_self f
        obtain ⟨hmem, hlen⟩ := List.mem_filter.mp hmem
        obtain ⟨-, -, hfits⟩ := (hfs f hmem).length hlen
        have hlt : body.length < ullongMax := by
          have hmax : ullongMax = 18446744073709551615 := by decide
          omega
        have hpos : body.length ≠ 0 := fun h => hnil (List.length_eq_zero_iff.mp h)
        have hdone := headersDone_counted (e := E) hupgrade
          (by show (headersRead x.self).flags.chunked = false; rw [hflags, hframed.chunked, henc])
          (by
            show (headersRead x.self).usesTransferEncoding = false
            rw [huses, hframed.uses, henc])
          (by
            show ¬ ((headersRead x.self).contentLength = 0 ∨ _ = ullongMax)
            rw [hlength, hcount]
            omega)
        let y : Exec := { E'.goto .bodyIdentity with marks := x.marks.consume crlf }
        have hstart : Reads routed buffer e crlf y :=
          hblank (by rw [hframed.uses, henc]; rfl)
            (hdone.trans (congrArg (fun m => Step.next { y with marks := m } 0) hmarks))
        have hread := @reads_counted routed buffer y _ hnil rfl hEup
          (hlength.trans hcount) hlt
        have hybody : y.marks.body = none := (Marks.bare_consume.mpr hline.bare).2.2.2
        rw [flush_filled hybody] at hread
        refine ⟨_, hstart.trans hread, ?_⟩
        let z : Exec := { y with
          self := { y.self with
            state := .messageDone, contentLength := 0, req.body := y.self.req.body ++ body }
          marks := y.marks.consume body }
        have hfresh := @fresh_messageComplete z _ x.marks (crlf ++ body) hreqUp hEup
          hline.bare (Nat.zero_le 2) hds
        have hsame : z.self.req = req := by
          show { (headersRead x.self).req with body := (headersRead x.self).req.body ++ body } = req
          rw [hreq]
          exact congrArg (fun body => { req with body := body }) hbody.symm
        rw [hsame, Marks.consume_append] at hfresh
        exact hfresh
  | chunked chunks =>
      obtain ⟨hnoLength, henc, hchunks⟩ := hagrees
      have hchunked : (headersRead x.self).flags.chunked = true := by
        rw [hflags, hframed.chunked, henc]
      have hdone := headersDone_chunked (e := E) hupgrade hchunked
      let y : Exec := { E'.goto .chunkSizeStart with marks := x.marks.consume crlf }
      have hstart : Reads routed buffer e crlf y :=
        hblank (by rw [hframed.length, hnoLength, Bool.and_false])
          (hdone.trans (congrArg (fun m => Step.next { y with marks := m } 0) hmarks))
      obtain ⟨e₁, hreads, hs₁, hzero₁, hflags₁, -, hreq₁, hmarks₁, hds₁⟩ :=
        @reads_chunks routed buffer y _ hchunks rfl rfl hchunked hEup
          (Marks.bare_consume.mpr hline.bare)
      have hsame : e₁.self.req = req := by
        rw [hreq₁]
        show { (headersRead x.self).req with
          body := (headersRead x.self).req.body ++ chunks.flatMap Chunk.data } = req
        rw [hreq]
        exact congrArg (fun body => { req with body := body }) hbody.symm
      obtain ⟨e', hlast, hfresh⟩ := @reads_lastChunk routed buffer e₁ hs₁ hzero₁
        (by rw [hflags₁]; exact hchunked) (by rw [hflags₁]; exact hEup)
        (by rw [hmarks₁]; exact Marks.bare_consume.mpr (Marks.bare_consume.mpr hline.bare))
        (by rw [hsame]; exact hup)
      refine ⟨e', hstart.trans (hreads.trans hlast), ?_⟩
      have hbehind : e₁.marks.urlStart.map (· + 5)
          = x.marks.urlStart.map (· + (crlf ++ (Payload.chunked chunks).wire).length) := by
        rw [hmarks₁]
        show (((x.marks.urlStart.map _).map _).map _) = _
        cases x.marks.urlStart with
        | none => rfl
        | some n =>
            simp only [Option.map_some, Payload.wire, crlf, List.length_append, List.length_cons,
              List.length_nil]
            congr 1
            omega
      rw [hsame, hbehind] at hfresh
      rw [← hds]
      exact hds₁ ▸ hfresh

/-- The header of a valid message tells how its body is sent. -/
theorem Collected.framed {m : Message} {start : Nat} {h h' : HTTPParser}
    (hmethod : m.method ≠ .connect) (hcollected : Collected m.fields (lineStart h m start) h') :
    Framed m.fields h'.toParser := by
  obtain ⟨hs, index, headers, field, value, rfl⟩ := hcollected.same
  refine ⟨hmethod, ?_, ?_, ?_, ?_, ?_, rfl⟩
  all_goals simp [lineStart, behindVersion, behindUrl, behindMethod, foldl_flagged]

/-- At most one field tells the length. -/
theorem Payload.Agrees.oneLength {fs : List Field} {payload : Payload} (h : payload.Agrees fs) :
    (fs.filter Field.isLength).length ≤ 1 := by
  cases payload with
  | none => rw [any_isLength h.1]; exact Nat.zero_le 1
  | counted body =>
      have hone := congrArg List.length h.1
      rw [List.length_map, List.length_singleton] at hone
      exact Nat.le_of_eq hone
  | chunked chunks => rw [any_isLength h.1]; exact Nat.zero_le 1

/-- **The parser reads a message from the first byte to the last**, and is ready for the
    next one. -/
theorem reads_message {m : Message} {ds : List Delivery} {start : Option Nat}
    (hfresh : Fresh e ds start) (hm : m.Valid)
    (hroute : routed m.method (m.url (m.begins start)) = true) :
    ∃ e', Reads routed buffer e m.wire e'
      ∧ Fresh e' (ds ++ [.handled (m.request (m.begins start))]) (some (m.ends start)) := by
  have hsize := hm.size
  rw [List.length_append, List.length_append, Message.back, List.length_cons, List.length_append,
    List.length_append, List.length_append] at hsize
  have hcrlf : crlf.length = 2 := rfl
  have hread := hfresh.nread
  let b : Nat := m.begins start
  let h₁ : HTTPParser := behindMethod e.self m.method
  let e₁ : Exec := e.moved h₁ m.front
  have hfront : Goes routed buffer e m.front h₁ := goes_method hfresh.state hfresh.upgrade (by
    show e.nread + m.front.length ≤ maxHeaderSize
    omega)
  have hbare₁ : e₁.marks.Bare := Marks.bare_consume.mpr hfresh.bare
  have hstart₁ : e₁.marks.urlStart.getD 0 = b := by
    show (e.marks.urlStart.map _).getD 0 = m.begins start
    rw [hfresh.urlStart]
    cases start <;> rfl
  let h₂ : HTTPParser := behindUrl h₁ m b
  let e₂ : Exec := e₁.atUrl.moved h₂ (m.rawUrl ++ [' '])
  have hurl : Reads routed buffer e₁ (m.rawUrl ++ [' ']) e₂ :=
    reads_url hm rfl rfl hbare₁ rfl hfresh.qsPoint (congrArg RawRequest.rawUrl hfresh.req) hstart₁
      (by
        show e.nread + m.front.length + (m.rawUrl ++ [' ']).length ≤ maxHeaderSize
        rw [List.length_append, List.length_singleton]
        omega) hroute
  let h₃ : HTTPParser := lineStart e.self m b
  let e₃ : Exec := e₂.moved h₃ (m.version ++ crlf)
  have hread₂ : e₂.nread = e.nread + m.front.length + (m.rawUrl.length + 1) := by
    show e.nread + m.front.length + (m.rawUrl ++ [' ']).length = _
    rw [List.length_append, List.length_singleton]
  have hversion : Goes routed buffer e₂ (m.version ++ crlf) h₃ := goes_version hm rfl rfl (by
    rw [List.length_append, hread₂]
    omega)
  have hread₃ : e₃.nread = e₂.nread + (m.version.length + 2) := by
    show e₂.nread + (m.version ++ crlf).length = _
    rw [List.length_append, hcrlf]
  have hline₃ : AtLine routed buffer e₃ e₃ :=
    ⟨rfl, rfl, rfl, rfl, Marks.bare_consume.mpr (Marks.bare_consume.mpr hbare₁),
      fun _ _ _ _ => rfl⟩
  let lines : List Char := m.fields.flatMap Field.line
  obtain ⟨e₄, h₄, hlines, hcollected, hline₄, hlast⟩ := reads_lines hline₃ hm.fields rfl
    hfresh.building ⟨fun h => absurd (show false = true from h) (by decide), hm.payload.oneLength⟩
    (by omega)
  have hread₄ : e₄.nread = e₃.nread + (m.fields.flatMap Field.line).length := hline₄.nread.symm
  obtain ⟨e', hpayload, hfresh'⟩ := @reads_payload routed buffer e₄ _ _ _ (m.request b) _ hline₄
    (hcollected.framed hm.method) hm.fields hm.payload
    (headersRead_req hfresh.req hfresh.field hfresh.value hcollected hlast) rfl rfl
    hfresh.deliveries (by omega)
  have hall := Reads.trans hfront (hurl.trans (Reads.trans hversion (hlines.trans hpayload)))
  have hwire : m.wire = m.front ++ ((m.rawUrl ++ [' ']) ++ ((m.version ++ crlf)
      ++ (lines ++ (crlf ++ m.payload.wire)))) := by
    simp [Message.wire, Message.back, lines]
  have hbehind : (e₃.moved h₄ lines).marks.urlStart.map
      (· + (crlf ++ m.payload.wire).length) = some (m.ends start) := by
    show Option.map _ (Option.map (· + lines.length) (Option.map (· + (m.version ++ crlf).length)
      (Option.map (· + (m.rawUrl ++ [' ']).length) (some (e₁.marks.urlStart.getD 0))))) = _
    rw [hstart₁]
    simp only [Option.map_some, Message.ends, Message.back, List.length_append, List.length_cons,
      List.length_nil, b, lines]
    congr 1
    omega
  rw [hbehind] at hfresh'
  exact ⟨e', hwire ▸ hall, hfresh'⟩

/-- **Messages one after the other**: each is delivered, and the parser is ready for the next. -/
theorem reads_messages {ms : List Message} {ds : List Delivery} {start : Option Nat}
    (hfresh : Fresh e ds start) (hvalid : ∀ m ∈ ms, m.Valid)
    (hrouted : ∀ req ∈ requests start ms, routed req.method req.url = true) :
    ∃ e' start', Reads routed buffer e (ms.flatMap Message.wire) e'
      ∧ Fresh e' (ds ++ (requests start ms).map .handled) start' := by
  induction ms generalizing e ds start with
  | nil => exact ⟨e, start, .nil e, by simpa [requests] using hfresh⟩
  | cons m ms ih =>
      obtain ⟨e₁, hreads, hfresh₁⟩ := @reads_message routed buffer e _ _ _ hfresh
        (hvalid m List.mem_cons_self) (hrouted _ List.mem_cons_self)
      obtain ⟨e', start', hreads', hfresh'⟩ := ih hfresh₁
        (fun m' hm' => hvalid m' (List.mem_cons_of_mem _ hm'))
        fun req hreq => hrouted req (List.mem_cons_of_mem _ hreq)
      refine ⟨e', start', hreads.trans hreads', ?_⟩
      rwa [List.append_assoc] at hfresh'

/-! ## §9. Connections. -/

/-- The parser between two requests. -/
def Idle (h : HTTPParser) : Prop := Resting h ∧ Fresh h.start [] none

theorem idle_new : Idle {} :=
  ⟨resting_new, rfl, rfl, rfl, rfl, rfl, rfl, rfl, rfl, ⟨rfl, rfl, rfl, rfl⟩, rfl, rfl,
    Nat.zero_le 2⟩

theorem finish_bare (hbare : e.marks.Bare) :
    finish routed e = .ok { e.self with nread := e.nread } e.deliveries := by
  obtain ⟨self, nread, ⟨field, value, url, start, body⟩, ds⟩ := e
  obtain ⟨rfl, rfl, rfl, rfl⟩ := hbare
  rfl

/-- Between two messages a connection may end its read. -/
theorem Fresh.idle {ds : List Delivery} {start : Option Nat} (h : Fresh e ds start)
    (hinv : Inv e) : Idle { e.self with nread := e.nread } := by
  have hmarks : startMarks e.self.state = {} := by
    rw [h.state]
    rfl
  have hstart : HTTPParser.start { e.self with nread := e.nread }
      = { self := { e.self with nread := e.nread }, nread := e.nread, marks := {} } := by
    unfold HTTPParser.start
    rw [hmarks]
  refine ⟨?_, ?_⟩
  · show Inv (HTTPParser.start { e.self with nread := e.nread })
    rw [hstart]
    refine ⟨?_, ?_, hinv.size, hinv.length, ⟨hinv.clean.req, hinv.clean.field, hinv.clean.value,
      by simp [UrlText], by simp [NameText], by simp [ValueText]⟩, fun req hreq => by simp at hreq⟩
    · rw [h.state]
      exact ⟨rfl, rfl, rfl, rfl⟩
    · rw [h.state]
      trivial
  · rw [hstart]
    exact ⟨h.state, h.upgrade, h.req, h.field, h.value, h.building, h.complete, h.qsPoint,
      ⟨rfl, rfl, rfl, rfl⟩, rfl, rfl, h.nread⟩

/-- The messages of a read. -/
theorem feed_messages {h : HTTPParser} {ms : List Message} (hidle : Idle h)
    (hvalid : ∀ m ∈ ms, m.Valid)
    (hrouted : ∀ req ∈ requests none ms, routed req.method req.url = true) :
    ∃ h', feed routed buffer h (ms.flatMap Message.wire)
        = .ok h' ((requests none ms).map .handled) ∧ Idle h' := by
  obtain ⟨hrest, hfresh⟩ := hidle
  obtain ⟨e', start', hreads, hfresh'⟩ :=
    @reads_messages routed buffer _ _ _ _ hfresh hvalid hrouted
  obtain ⟨hrun, hinv⟩ := hreads.runs hrest
  refine ⟨{ e'.self with nread := e'.nread }, ?_, hfresh'.idle hinv⟩
  rw [feed_eq (h := h) hfresh.complete, hrun]
  show finish routed e' = _
  rw [finish_bare hfresh'.bare, hfresh'.deliveries, List.nil_append]

/-- Reads one after the other, each with its messages; the induction is on their list. -/
theorem receive_idle {reads : List (List Message)} {h : HTTPParser} (hidle : Idle h)
    (hvalid : ∀ ms ∈ reads, ∀ m ∈ ms, m.Valid)
    (hrouted : ∀ ms ∈ reads, ∀ req ∈ requests none ms, routed req.method req.url = true) :
    ∃ h', receive routed buffer h (reads.map (·.flatMap Message.wire))
        = .ok h' ((reads.flatMap (requests none)).map .handled) := by
  induction reads generalizing h with
  | nil => exact ⟨h, rfl⟩
  | cons ms reads ih =>
      obtain ⟨h₁, hfeed, hidle₁⟩ := @feed_messages routed buffer _ _ hidle
        (hvalid ms List.mem_cons_self) (hrouted ms List.mem_cons_self)
      obtain ⟨h', hmore⟩ := ih hidle₁ (fun ms' hms' => hvalid ms' (List.mem_cons_of_mem _ hms'))
        fun ms' hms' => hrouted ms' (List.mem_cons_of_mem _ hms')
      refine ⟨h', ?_⟩
      rw [List.map_cons, receive, hfeed, List.flatMap_cons, List.map_append]
      simp only [Fed.andThen, hmore]

end

/-- **What is sent is what arrives**: the valid requests that a client writes onto a new
    connection are handled one after the other, each as it was sent, whatever their number
    and however many a read brings, when each of them is routed.  (Behind a request without
    a route nothing is read; and a valid request has no `Upgrade`, behind which nothing is
    read either, and no header whose name begins with `Transfer-Encoding` and goes on.) -/
theorem sent_requests_arrive (routed : HttpMethod → List Char → Bool) (buffer : Nat)
    (reads : List (List Message)) (hvalid : ∀ ms ∈ reads, ∀ m ∈ ms, m.Valid)
    (hrouted : ∀ ms ∈ reads, ∀ req ∈ requests none ms, routed req.method req.url = true) :
    ∃ h, receive routed buffer {} (reads.map (·.flatMap Message.wire))
      = .ok h ((reads.flatMap (requests none)).map .handled) :=
  receive_idle idle_new hvalid hrouted

/-- A payment in two chunks. -/
def samplePayment : Message :=
  { method := .post, path := "/pay".toList, query := some "x=1".toList
    fields := [⟨"Host".toList, "a".toList⟩, ⟨"transfer-encoding".toList, "Chunked".toList⟩]
    payload := .chunked [⟨"2".toList, "ab".toList⟩, ⟨"1".toList, "c".toList⟩] }

/-- An order whose length is told. -/
def sampleOrder : Message :=
  { method := .put, path := "/order".toList
    fields := [⟨"Empty".toList, []⟩, ⟨"CONTENT-LENGTH".toList, "3".toList⟩,
      ⟨"Connection".toList, "close".toList⟩]
    payload := .counted "abc".toList }

/-- Two requests in one read, and a third in the next. -/
theorem sent_requests_arrive_pipelined :
    ∃ h, receive (fun _ _ => true) 1000 {}
        ([[samplePayment, sampleOrder], [samplePayment]].map (·.flatMap Message.wire))
      = .ok h (([[samplePayment, sampleOrder], [samplePayment]].flatMap (requests none)).map
          .handled) :=
  sent_requests_arrive _ _ _ (by decide) fun _ _ _ _ => rfl

/-- Behind another request of its read, the path of a request does not end where its query
    string begins. -/
theorem later_query_in_path {ms : List Message} {start : Nat} :
    ∀ req ∈ requests (some start) ms, '?' ∈ req.rawUrl → '?' ∈ req.url := by
  induction ms generalizing start with
  | nil => simp [requests]
  | cons m ms ih =>
      intro req hreq hmark
      rw [requests, List.mem_cons] at hreq
      obtain rfl | hreq := hreq
      · show '?' ∈ m.url _
        unfold Message.url
        cases hquery : m.query with
        | none =>
            have hraw : m.rawUrl = m.path := by
              rw [Message.rawUrl, hquery]
              exact List.append_nil _
            rwa [← hraw]
        | some q =>
            have hraw : m.rawUrl = m.path ++ '?' :: q := by rw [Message.rawUrl, hquery]; rfl
            have hbegins : m.begins (some start) = start + m.method.name.toList.length + 1 := by
              simp [Message.begins, Message.front, Nat.add_assoc]
            rw [hraw, hbegins, Nat.add_comm _ m.path.length, List.take_length_add_append,
              List.take_succ_cons]
            simp
      · exact ih req hreq hmark

end OrderApi.Crow.HttpParser
